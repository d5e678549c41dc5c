import Chainload.Elf.Reading

/-!
# Walking through a table of program headers

A walk reads the program headers of a table by their index, one after the other, whether they can be
read or not (`Table.Walk.take_eq`). Its index is a 16-bit counter that stops at the number of
program headers, so it does not overflow.
-/

namespace Chainload.Elf.Table.Walk

variable {image : Image} {ram : Ram} {walk : Walk}

/-- The walk has not passed the end of its table. -/
def Within (walk : Walk) : Prop :=
  walk.index.toNat ≤ walk.table.count.toNat

/-- The walk with `count` more program headers behind it. -/
def skip (walk : Walk) (count : Nat) : Walk :=
  { walk with index := UInt16.ofNat (walk.index.toNat + count) }

theorem within_start (table : Table) : table.start.Within :=
  Nat.zero_le _

theorem left_start (table : Table) : table.start.left = table.count.toNat :=
  congrArg UInt16.toNat (UInt16.sub_zero ..)

theorem left_eq (h : walk.Within) : walk.left = walk.table.count.toNat - walk.index.toNat :=
  UInt16.toNat_sub_of_le _ _ (UInt16.le_iff_toNat_le.mpr h)

theorem skip_zero (walk : Walk) : walk.skip 0 = walk := by
  rw [skip, Nat.add_zero, UInt16.ofNat_toNat]

theorem skip_skip (walk : Walk) (count count' : Nat) :
    (walk.skip count).skip count' = walk.skip (count + count') := by
  simp only [skip, UInt16.ofNat_add, UInt16.ofNat_toNat, UInt16.add_assoc]

theorem toNat_index_skip (h : walk.Within) {count : Nat} (hcount : count ≤ walk.left) :
    (walk.skip count).index.toNat = walk.index.toNat + count := by
  have hsum : walk.index.toNat + count ≤ walk.table.count.toNat := by
    unfold Within at h
    rw [left_eq h] at hcount
    omega
  exact UInt16.toNat_ofNat_of_lt' (Nat.lt_of_le_of_lt hsum walk.table.count.toNat_lt)

theorem within_skip (h : walk.Within) {count : Nat} (hcount : count ≤ walk.left) :
    (walk.skip count).Within := by
  have hindex := toNat_index_skip h hcount
  unfold Within at h
  rw [left_eq h] at hcount
  show (walk.skip count).index.toNat ≤ walk.table.count.toNat
  omega

theorem left_skip (h : walk.Within) {count : Nat} (hcount : count ≤ walk.left) :
    (walk.skip count).left = walk.left - count := by
  rw [left_eq (within_skip h hcount), left_eq h, toNat_index_skip h hcount, Nat.sub_sub]
  rfl

/-- Where nothing is left a walk stays. -/
theorem next_of_end (h : walk.Within) (hleft : walk.left = 0) (image : Image) (ram : Ram) :
    walk.next image ram = (none, walk) := by
  rw [left_eq h] at hleft
  refine if_neg ?_
  rw [UInt16.lt_iff_toNat_lt]
  omega

/-- Where something is left a walk reads it and moves on. -/
theorem next_of_left (h : walk.Within) (hleft : walk.left ≠ 0) (image : Image) (ram : Ram) :
    walk.next image ram = (some (walk.table.read image ram walk.index.toNat), walk.skip 1) := by
  rw [left_eq h] at hleft
  have hlt : walk.index < walk.table.count := by
    rw [UInt16.lt_iff_toNat_lt]
    omega
  have hindex : walk.index + 1 = UInt16.ofNat (walk.index.toNat + 1) := by
    rw [UInt16.ofNat_add, UInt16.ofNat_toNat]
    rfl
  rw [next, if_pos hlt, hindex]
  rfl

/-- A walk reads the program headers by their index, as many as it may and as there are. -/
theorem take_eq : ∀ {limit : Nat} {walk : Walk}, walk.Within →
    walk.take image ram limit =
      ((List.range' walk.index.toNat (min limit walk.left)).map (walk.table.read image ram),
        walk.skip (min limit walk.left))
  | 0, walk, _ => by
    rw [take, Nat.zero_min, skip_zero]
    rfl
  | limit + 1, walk, h => by
    rw [take]
    by_cases hleft : walk.left = 0
    · rw [next_of_end h hleft, hleft, Nat.min_zero, skip_zero]
      rfl
    · have hone : 1 ≤ walk.left := Nat.one_le_iff_ne_zero.mpr hleft
      have hstep := left_skip h hone
      have hmin : min (limit + 1) walk.left = min limit (walk.skip 1).left + 1 := by omega
      rw [next_of_left h hleft]
      dsimp only
      rw [take_eq (within_skip h hone), skip_skip, toNat_index_skip h hone, hmin,
        List.range'_succ, List.map_cons, Nat.add_comm 1]
      rfl

/-- A walk through a table whose program headers can all be read reads them in order, and nothing
after them. -/
theorem exists_take_start {table : Table} {entries : List ProgramHeader}
    (hcount : table.count.toNat = entries.length)
    (hread : ∀ i ph, entries[i]? = some ph → table.read image ram i = .ok ph) {limit : Nat}
    (hlimit : entries.length ≤ limit) :
    ∃ behind : Walk, table.start.take image ram limit = (entries.map .ok, behind) ∧
      behind.next image ram = (none, behind) := by
  have hwithin := within_start table
  have hleft : table.start.left = entries.length := (left_start table).trans hcount
  have hall : entries.length ≤ table.start.left := Nat.le_of_eq hleft.symm
  have hitems : (List.range' 0 entries.length).map (table.read image ram) = entries.map .ok := by
    apply List.ext_getElem?
    intro i
    rw [List.getElem?_map, List.getElem?_map]
    by_cases hi : i < entries.length
    · rw [List.getElem?_range' hi, List.getElem?_eq_getElem hi, Nat.zero_add, Nat.one_mul]
      exact congrArg some (hread i _ (List.getElem?_eq_getElem hi))
    · rw [List.getElem?_eq_none (by rw [List.length_range']; omega),
        List.getElem?_eq_none (Nat.le_of_not_lt hi)]
      rfl
  refine ⟨table.start.skip entries.length, ?_, next_of_end (within_skip hwithin hall) ?_ _ _⟩
  · rw [take_eq hwithin, hleft, Nat.min_eq_right hlimit, ← hitems]
    rfl
  · rw [left_skip hwithin hall, hleft, Nat.sub_self]

end Chainload.Elf.Table.Walk
