import Chainload.Address.Width
import Chainload.Numeral

/-!
# Regions of physical memory

A region is given by its first address and its length. Its end is one past its last address and
exists only below `2 ^ 64` (`Region.limit?`), so a region that touches the top of the address
space has none.
-/

namespace Chainload

/-- The addresses `[start, start + len)`. -/
structure Region where
  start : UInt64
  len : UInt64
  deriving DecidableEq, Repr

namespace Region

/-- Whether there is no address in the region. -/
def isEmpty (r : Region) : Bool :=
  r.len == 0

/-- One past the last address, if that is an address itself. -/
def limit? (r : Region) : Option UInt64 :=
  if r.start.toNat + r.len.toNat < UInt64.size then some (r.start + r.len) else none

/-- Whether `inner` lies within `outer`. Neither may reach the top of the address space. -/
def encloses (outer inner : Region) : Bool :=
  match inner.limit?, outer.limit? with
  | some innerLimit, some outerLimit => outer.start ≤ inner.start && innerLimit ≤ outerLimit
  | _, _ => false

/-- Where a search for a common address stops: the limit, or the highest address for a region
that has none. -/
def searchLimit (r : Region) : UInt64 :=
  r.limit?.getD Width.bits64.highest

/-- Whether two regions share an address below both of their search limits. -/
def overlaps (a b : Region) : Bool :=
  !a.isEmpty && !b.isEmpty && a.start < b.searchLimit && b.start < a.searchLimit

/-- Whether the region has a limit and pointers of the width can hold its last address. -/
def fits (r : Region) (width : Width) : Bool :=
  match r.limit? with
  | some limit => r.isEmpty || width.reaches (limit - 1)
  | none => false

/-- The region as diagnostics show it, its limit modulo `2 ^ 64`. -/
def text (r : Region) : String :=
  let limit := r.start + r.len
  s!"{Numeral.hex r.start.toNat}..{Numeral.hex limit.toNat}"

theorem limit?_eq_some_iff {r : Region} {limit : UInt64} :
    r.limit? = some limit ↔ limit.toNat = r.start.toNat + r.len.toNat := by
  have h := limit.toNat_lt
  unfold limit?
  split
  case isTrue hlt =>
    have hsum : (r.start + r.len).toNat = r.start.toNat + r.len.toNat := by
      rw [UInt64.toNat_add]
      exact Nat.mod_eq_of_lt hlt
    rw [Option.some_inj, ← UInt64.toNat_inj, hsum]
    exact eq_comm
  case isFalse hge =>
    simp only [reduceCtorEq, false_iff]
    have hsize : UInt64.size = 0x1_0000_0000_0000_0000 := rfl
    omega

theorem limit?_eq_none_iff {r : Region} :
    r.limit? = none ↔ UInt64.size ≤ r.start.toNat + r.len.toNat := by
  unfold limit?
  split <;> simp <;> omega

end Region

end Chainload
