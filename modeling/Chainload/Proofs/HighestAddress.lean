import Chainload.Proofs.LayoutCheck
import Chainload.Proofs.Requirements

/-!
# Regions and segments at the highest address

A region that takes up the highest address has no limit, because the next address is none of 64
bits. Whoever asks for the limit has to do without it there.

* A search for a common address stops short of the highest one (`Region.toNat_searchLimit`). So two
  regions overlap if they share a lower address (`Region.overlaps_iff`), and it goes unnoticed if
  they share the highest and no other one.
* A region without a limit does not fit, even if its last address is the highest one and pointers
  reach it (`Region.fits_iff_lastAddress`).

A strict loader asks for the last address of a segment instead and has no such exception.
`Loader.HingesOn` says that nothing else can be wrong with an image, and `HingesOn.vet_eq` that the
loader's verdict on the image is then the one on that address.
-/

namespace Chainload

open Elf

/-! ## Common addresses -/

namespace Elf.Span

/-- Two spans share an address below a bound. -/
def MeetsBelow (bound : Nat) (s t : Span) : Prop :=
  ∃ a < bound, s.Holds a ∧ t.Holds a

/-- Spans share an address below a bound if they share one and both start below the bound. -/
theorem meetsBelow_iff {bound : Nat} {s t : Span} :
    s.MeetsBelow bound t ↔ s.Meets t ∧ s.start < bound ∧ t.start < bound := by
  constructor
  · rintro ⟨a, ha, hs, ht⟩
    exact ⟨⟨a, hs, ht⟩, Nat.lt_of_le_of_lt hs.1 ha, Nat.lt_of_le_of_lt ht.1 ha⟩
  · rintro ⟨⟨a, hs, ht⟩, hsbound, htbound⟩
    -- The greater of the two starts is not above any common address.
    have hle : max s.start t.start ≤ a := Nat.max_le.mpr ⟨hs.1, ht.1⟩
    exact ⟨max s.start t.start, Nat.max_lt.mpr ⟨hsbound, htbound⟩,
      ⟨Nat.le_max_left .., Nat.lt_of_le_of_lt hle hs.2⟩,
      ⟨Nat.le_max_right .., Nat.lt_of_le_of_lt hle ht.2⟩⟩

end Elf.Span

namespace Region

/-- A search stops at the end of the region, and at the highest address at the latest. -/
theorem toNat_searchLimit (r : Region) :
    r.searchLimit.toNat = min (r.start.toNat + r.len.toNat) Width.bits64.highest.toNat := by
  have htop : Width.bits64.highest.toNat = UInt64.size - 1 := rfl
  rw [htop]
  cases hlimit : r.limit? with
  | some limit =>
    have hsum := limit?_eq_some_iff.mp hlimit
    have hword := limit.toNat_lt_size
    rw [searchLimit, hlimit, Option.getD_some]
    omega
  | none =>
    have hbeyond := limit?_eq_none_iff.mp hlimit
    rw [searchLimit, hlimit, Option.getD_none, htop]
    omega

/-- Two regions overlap if they share an address below the highest one. -/
theorem overlaps_iff (r s : Region) :
    r.overlaps s = true ↔ r.span.MeetsBelow Width.bits64.highest.toNat s.span := by
  have hbelow : ∀ t u : Region, t.start < u.searchLimit ↔
      t.start.toNat < u.start.toNat + u.len.toNat ∧
        t.start.toNat < Width.bits64.highest.toNat := fun t u => by
    rw [UInt64.lt_iff_toNat_lt, toNat_searchLimit, Nat.lt_min]
  have hpos : ∀ t : Region, t.isEmpty = false ↔ 0 < t.len.toNat := fun t => by
    rw [Bool.eq_false_iff, ne_eq, isEmpty_iff, Nat.pos_iff_ne_zero]
  simp only [overlaps, Bool.and_eq_true, Bool.not_eq_true', decide_eq_true_eq, hpos, hbelow,
    Span.meetsBelow_iff, Span.meets_iff, span]
  omega

theorem overlaps_comm (r s : Region) : r.overlaps s = s.overlaps r := by
  rw [Bool.eq_iff_iff, overlaps_iff, overlaps_iff]
  constructor <;> exact fun ⟨a, ha, hfirst, hsecond⟩ => ⟨a, ha, hsecond, hfirst⟩

theorem overlaps_of_isEmpty {r : Region} (h : r.isEmpty = true) (s : Region) :
    r.overlaps s = false := by
  simp [overlaps, h]

/-- Both regions take up the highest address, and one of them no other. -/
def MeetAtTop (r s : Region) : Prop :=
  r.span.Holds Width.bits64.highest.toNat ∧ s.span.Holds Width.bits64.highest.toNat ∧
    (r.start = Width.bits64.highest ∨ s.start = Width.bits64.highest)

/-- Regions share an address of 64 bits if they share one below the highest or meet at the top. -/
theorem meetsBelow_size_iff {r s : Region} :
    r.span.MeetsBelow UInt64.size s.span ↔
      r.span.MeetsBelow Width.bits64.highest.toNat s.span ∨ r.MeetAtTop s := by
  have hsize : UInt64.size = Width.bits64.highest.toNat + 1 := rfl
  have hr := r.start.toNat_lt_size
  have hs := s.start.toNat_lt_size
  rw [Span.meetsBelow_iff, Span.meetsBelow_iff, Span.meets_iff, MeetAtTop, ← UInt64.toNat_inj,
    ← UInt64.toNat_inj]
  simp only [span, Span.Holds]
  omega

/-- Regions that meet at the top share no address but the highest. -/
theorem MeetAtTop.not_meetsBelow {r s : Region} (h : r.MeetAtTop s) :
    ¬r.span.MeetsBelow Width.bits64.highest.toNat s.span := by
  rw [Span.meetsBelow_iff]
  rintro ⟨-, hr, hs⟩
  rcases h.2.2 with hrtop | hstop
  · exact absurd (congrArg UInt64.toNat hrtop) (Nat.ne_of_lt hr)
  · exact absurd (congrArg UInt64.toNat hstop) (Nat.ne_of_lt hs)

/-- Two regions overlap exactly if they share an address below the highest one. That is to share an
address at all, unless both take up the highest address and one of them no other. It does not matter
which of the two comes first, and a region without addresses overlaps none. -/
theorem overlaps_but_for_highest (r s : Region) :
    (r.overlaps s = true ↔ r.span.MeetsBelow Width.bits64.highest.toNat s.span) ∧
    ((r.overlaps s = true ↔ r.span.MeetsBelow UInt64.size s.span) ↔ ¬r.MeetAtTop s) ∧
    r.overlaps s = s.overlaps r ∧
    ((r.isEmpty || s.isEmpty) && r.overlaps s) = false := by
  refine ⟨overlaps_iff r s, ?_, overlaps_comm r s, ?_⟩
  · rw [overlaps_iff, meetsBelow_size_iff]
    constructor
    · exact fun h htop => htop.not_meetsBelow (h.mpr (Or.inr htop))
    · exact fun htop => ⟨Or.inl, fun h => h.resolve_right htop⟩
  · cases hr : r.isEmpty with
    | true => rw [overlaps_of_isEmpty hr, Bool.and_false]
    | false =>
      cases hs : s.isEmpty with
      | true => rw [overlaps_comm, overlaps_of_isEmpty hs, Bool.and_false]
      | false => rfl

/-- The highest 4 KiB and the last of their bytes share the highest address. -/
theorem not_overlaps_at_highest :
    Region.overlaps ⟨0xFFFF_FFFF_FFFF_FFFF, 1⟩ ⟨0xFFFF_FFFF_FFFF_F000, 0x1000⟩ = false ∧
      (Region.span ⟨0xFFFF_FFFF_FFFF_FFFF, 1⟩).MeetsBelow UInt64.size
        (Region.span ⟨0xFFFF_FFFF_FFFF_F000, 0x1000⟩) :=
  ⟨by decide, 0xFFFF_FFFF_FFFF_FFFF, by decide, by decide, by decide⟩

/-! ## The last address of a region -/

/-- A region that is not empty fits if pointers reach its last address, unless it ends right behind
the highest address of all. -/
theorem fits_iff_lastAddress {r : Region} (width : Width) (hpos : 1 ≤ r.len.toNat) :
    r.fits width = true ↔ r.start.toNat + r.len.toNat - 1 ≤ width.highest.toNat ∧
      r.start.toNat + r.len.toNat ≠ UInt64.size := by
  by_cases hlimit : r.start.toNat + r.len.toNat ≤ UInt64.size - 1
  · have hne : r.start.toNat + r.len.toNat ≠ UInt64.size := fun htop => by
      rw [htop] at hlimit
      exact absurd hlimit (by decide)
    rw [fits_iff width hpos hlimit, and_iff_left hne]
  · have hnone : r.limit? = none := Option.isNone_iff_eq_none.mp (isNone_limit?_iff.mpr hlimit)
    have hhighest := Loader.highest_lt width
    rw [fits, hnone]
    refine iff_of_false Bool.false_ne_true ?_
    rintro ⟨hlast, htop⟩
    omega

/-- Pointers of 64 bits reach the last address of the highest eight bytes, which do not fit. -/
theorem not_fits_at_highest :
    Region.fits ⟨0xFFFF_FFFF_FFFF_FFF8, 8⟩ .bits64 = false ∧
      0xFFFF_FFFF_FFFF_FFF8 + 8 - 1 ≤ Width.bits64.highest.toNat := by
  decide

end Region

/-! ## The last address of a segment -/

namespace Elf.Loader

variable {loader : Loader} {image : Image} {ram : Ram} {table : Table} {header : Header}
  {ph : ProgramHeader} {index first left : Nat}

/-- The program header with an index can be read, and its segment passes if it is loaded. -/
def Passes (loader : Loader) (image : Image) (ram : Ram) (table : Table) (index : Nat) : Prop :=
  ∃ ph, table.read image ram index = .ok ph ∧
    (ph.isLoadable = true → loader.checkSegment image index ph = .ok ())

theorem checkEntries_of_pass (h : loader.Passes image ram table first) :
    loader.checkEntries image ram table (left + 1) first =
      loader.checkEntries image ram table left (first + 1) := by
  obtain ⟨ph, hread, hsegment⟩ := h
  rw [checkEntries, hread, ok_bind]
  cases hload : ph.isLoadable with
  | false => rfl
  | true => rw [hsegment hload]; rfl

theorem checkEntries_of_passes : ∀ {left first : Nat},
    (∀ i, first ≤ i → i < first + left → loader.Passes image ram table i) →
    loader.checkEntries image ram table left first = .ok ()
  | 0, _, _ => rfl
  | left + 1, first, h => by
    rw [checkEntries_of_pass (h first (Nat.le_refl _) (by omega))]
    exact checkEntries_of_passes fun i hlow hhigh => h i (by omega) (by omega)

/-- If all program headers pass but one, the check of a table is that of its segment. -/
theorem checkEntries_eq_checkSegment (hread : table.read image ram index = .ok ph)
    (hload : ph.isLoadable = true) : ∀ {left first : Nat}, first ≤ index → index < first + left →
      (∀ i, first ≤ i → i < first + left → i ≠ index → loader.Passes image ram table i) →
      loader.checkEntries image ram table left first = loader.checkSegment image index ph
  | 0, first, hlow, hhigh, _ => by omega
  | left + 1, first, hlow, hhigh, hothers => by
    by_cases hfirst : first = index
    · subst hfirst
      have hrest : loader.checkEntries image ram table left (first + 1) = .ok () :=
        checkEntries_of_passes fun i hi hi' => hothers i (by omega) (by omega) (by omega)
      rw [checkEntries, hread, ok_bind, hrest, hload]
      cases loader.checkSegment image first ph <;> rfl
    · rw [checkEntries_of_pass (hothers first (Nat.le_refl _) (by omega) hfirst)]
      exact checkEntries_eq_checkSegment hread hload (by omega) (by omega)
        fun i hi hi' => hothers i (by omega) (by omega)

/-- All that a strict loader checks of an image is in order, but maybe for the last address of one
segment. -/
structure HingesOn (loader : Loader) (image : Image) (ram : Ram) (header : Header) (index : Nat)
    (ph : ProgramHeader) : Prop where
  ident : header.checkIdent = .ok ()
  entry : loader.width.reaches header.entry = true
  table : image.contains header.tableOffset header.tableSize = true
  indexed : index < header.entryCount.toNat
  read : header.table.read image ram index = .ok ph
  loadable : ph.isLoadable = true
  sizes : ph.fileSize ≤ ph.memorySize
  inside : image.contains ph.offset ph.fileSize = true
  others : ∀ i < header.entryCount.toNat, i ≠ index → loader.Passes image ram header.table i

/-- The verdict on the image is then the one on that address. -/
theorem HingesOn.vet_eq (h : loader.HingesOn image ram header index ph) :
    loader.vet image ram header =
      if ph.lastByte ≤ loader.width.highest.toNat then .ok ()
      else .error (.beyondReach ph.blamedAddress loader.width) := by
  have hentries : loader.checkEntries image ram header.table header.entryCount.toNat 0 =
      loader.checkSegment image index ph :=
    checkEntries_eq_checkSegment h.read h.loadable (Nat.zero_le _)
      (by rw [Nat.zero_add]; exact h.indexed)
      fun i _ hi => h.others i (by rwa [Nat.zero_add] at hi)
  rw [vet, h.ident, h.entry, h.table, hentries, checkSegment_of_inside h.sizes h.inside]
  rfl

/-- A region that is not empty fits if pointers reach its last address, unless it ends right behind
the highest address of all. A strict loader accepts a segment with these addresses in an image that
hinges on it if pointers reach the last address, and otherwise refuses it as beyond reach. So the
two agree unless the region ends right behind the highest address. -/
theorem vet_agrees_with_fits (width : Width) (start len : UInt64) (hlen : 1 ≤ len.toNat) :
    ((Region.mk start len).fits width = true ↔
      start.toNat + len.toNat - 1 ≤ width.highest.toNat ∧
        start.toNat + len.toNat ≠ UInt64.size) ∧
    ∀ (cls : Class) (image : Image) (ram : Ram) (header : Header) (index : Nat)
      (ph : ProgramHeader), HingesOn ⟨cls, width, .strict⟩ image ram header index ph →
      ph.physicalAddress = start → ph.memorySize = len →
      (vet ⟨cls, width, .strict⟩ image ram header = .ok () ↔
        start.toNat + len.toNat - 1 ≤ width.highest.toNat) ∧
      ((∃ address, vet ⟨cls, width, .strict⟩ image ram header =
          .error (.beyondReach address width)) ↔
        ¬start.toNat + len.toNat - 1 ≤ width.highest.toNat) ∧
      (start.toNat + len.toNat ≠ UInt64.size →
        ((Region.mk start len).fits width = true ↔
          vet ⟨cls, width, .strict⟩ image ram header = .ok ())) := by
  have hfits := Region.fits_iff_lastAddress (r := ⟨start, len⟩) width hlen
  refine ⟨hfits, ?_⟩
  rintro cls image ram header index ph hhinges rfl rfl
  have hlast : ph.lastByte = ph.physicalAddress.toNat + ph.memorySize.toNat - 1 := by
    rw [ProgramHeader.lastByte, Nat.max_eq_left hlen]
  have hvet := hhinges.vet_eq
  rw [hlast] at hvet
  have haccepted : vet ⟨cls, width, .strict⟩ image ram header = .ok () ↔
      ph.physicalAddress.toNat + ph.memorySize.toNat - 1 ≤ width.highest.toNat := by
    rw [hvet]
    split <;> simp [*]
  refine ⟨haccepted, ?_, fun htop => ?_⟩
  · rw [hvet]
    split <;> simp [*]
  · rw [hfits, haccepted, and_iff_left htop]

/-- The highest eight bytes do not fit, but a strict loader accepts a segment that takes them up. -/
theorem vet_agrees_with_fits_nearTop :
    1 ≤ (8 : UInt64).toNat ∧
      (∃ ph, HingesOn ⟨.elf64, .bits64, .strict⟩ (.file (nearTop 8).layOut) ⟨0, []⟩
          (nearTop 8).header 0 ph ∧
        ph.physicalAddress = 0xFFFF_FFFF_FFFF_FFF8 ∧ ph.memorySize = 8) ∧
      Region.fits ⟨0xFFFF_FFFF_FFFF_FFF8, 8⟩ .bits64 ≠ true ∧
      vet ⟨.elf64, .bits64, .strict⟩ (.file (nearTop 8).layOut) ⟨0, []⟩ (nearTop 8).header =
        .ok () := by
  have hhinges : HingesOn ⟨.elf64, .bits64, .strict⟩ (.file (nearTop 8).layOut) ⟨0, []⟩
      (nearTop 8).header 0
      (Draft.programHeader ⟨loadable, 0xFFFF_FFFF_FFFF_FFF8, none, [1, 2], 8⟩ 120) :=
    { ident := rfl
      entry := by decide
      table := by decide +kernel
      indexed := by decide
      read := (Table.read_eq_ok_iff (Image.shows_file ..)).mpr (by decide +kernel)
      loadable := by decide
      sizes := by decide
      inside := by decide +kernel
      others := fun i hi hne => absurd (Nat.lt_one_iff.mp hi) hne }
  obtain ⟨hfits, hvet⟩ := vet_agrees_with_fits .bits64 0xFFFF_FFFF_FFFF_FFF8 8 (by decide)
  refine ⟨by decide, ⟨_, hhinges, rfl, rfl⟩, ?_, ?_⟩
  · rw [Ne, hfits]
    decide
  · exact (hvet .elf64 _ _ _ _ _ hhinges rfl rfl).1.mpr (by decide)

end Elf.Loader

end Chainload
