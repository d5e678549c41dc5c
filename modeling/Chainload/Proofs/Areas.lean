import Chainload.Layout.Basic
import Chainload.Multiboot.Module
import Chainload.Proofs.ViewedLoad

/-!
# The areas of a checked layout

The areas of a layout as sets of addresses (`Layout.Holds`). The areas of a checked layout share no
address (`Layout.Checked.apart`), so what is written to one of them leaves the others alone.

`SegmentsWithin loader file S` says that the loader places the segments of a file in the set `S`.
Nothing in a load compares the targets of segments with a layout, so this is a property that a file
has or has not.
-/

namespace Chainload

open Elf Layout

/-! ## Areas as sets of addresses -/

/-- The addresses of a region. -/
def Region.span (r : Region) : Span :=
  ⟨r.start.toNat, r.len.toNat⟩

/-- The addresses of a module. -/
def Multiboot.Extent.span (extent : Multiboot.Extent) : Span :=
  ⟨extent.start.toNat, extent.length.toNat⟩

/-- Regions that share an address overlap, if both have a limit. -/
theorem Region.overlaps_of_meets {r s : Region} {rlimit slimit : UInt64}
    (hr : r.limit? = some rlimit) (hs : s.limit? = some slimit) (h : r.span.Meets s.span) :
    r.overlaps s = true := by
  obtain ⟨a, ⟨hrlow, hrhigh⟩, hslow, hshigh⟩ := h
  simp only [Region.span] at hrlow hrhigh hslow hshigh
  have hrlimit := limit?_eq_some_iff.mp hr
  have hslimit := limit?_eq_some_iff.mp hs
  have hrempty : r.isEmpty = false := by
    simp only [isEmpty, beq_eq_false_iff_ne, ne_eq, ← UInt64.toNat_inj, UInt64.toNat_zero]
    omega
  have hsempty : s.isEmpty = false := by
    simp only [isEmpty, beq_eq_false_iff_ne, ne_eq, ← UInt64.toNat_inj, UInt64.toNat_zero]
    omega
  have hbelow : r.start < slimit := by rw [UInt64.lt_iff_toNat_lt]; omega
  have hbelow' : s.start < rlimit := by rw [UInt64.lt_iff_toNat_lt]; omega
  simp [overlaps, searchLimit, hr, hs, hrempty, hsempty, hbelow, hbelow']

namespace Layout

/-- Whether an address lies in an area. -/
def Holds (layout : Layout) (area : Area) (a : Nat) : Prop :=
  (layout.region area).span.Holds a

instance (layout : Layout) (area : Area) (a : Nat) : Decidable (layout.Holds area a) :=
  inferInstanceAs (Decidable (Span.Holds _ a))

/-- Whether an address lies in one of the areas that the chain writes. -/
def Writable (layout : Layout) (a : Nat) : Prop :=
  ∃ area ∈ writtenAreas, layout.Holds area a

theorem mem_areas (area : Area) : area ∈ areas := by
  cases area <;> simp [areas]

/-- An area with nothing wrong on its own ends below `2 ^ 64`. -/
theorem exists_limit_of_areaFault? {layout : Layout} {width : Width} {area : Area}
    (h : layout.areaFault? width area = none) :
    ∃ limit, (layout.region area).limit? = some limit := by
  simp only [areaFault?] at h
  cases hlimit : (layout.region area).limit? with
  | some limit => exact ⟨limit, rfl⟩
  | none =>
    rw [hlimit] at h
    split at h <;> simp at h

namespace Checked

variable (checked : Checked)

/-- Every area ends below `2 ^ 64`. -/
theorem exists_limit (area : Area) : ∃ limit, (checked.layout.region area).limit? = some limit :=
  exists_limit_of_areaFault? (List.findSome?_eq_none_iff.mp
    (Option.or_eq_none_iff.mp checked.faultless).1 area (mem_areas area))

theorem overlaps_of_mem_pairs {first second : Area} (h : (first, second) ∈ pairs areas) :
    (checked.layout.region first).overlaps (checked.layout.region second) = false := by
  have hpair := List.findSome?_eq_none_iff.mp (Option.or_eq_none_iff.mp checked.faultless).2 _ h
  simpa [pairFault?] using hpair

theorem mem_pairs_areas {first second : Area} (h : first ≠ second) :
    (first, second) ∈ pairs areas ∨ (second, first) ∈ pairs areas := by
  cases first <;> cases second <;> simp [pairs, areas] at h ⊢

/-- Two areas of a checked layout share no address. -/
theorem apart {first second : Area} (hne : first ≠ second) {a : Nat}
    (h : checked.layout.Holds first a) : ¬checked.layout.Holds second a := by
  intro h'
  obtain ⟨limit, hlimit⟩ := checked.exists_limit first
  obtain ⟨limit', hlimit'⟩ := checked.exists_limit second
  rcases mem_pairs_areas hne with hmem | hmem
  · have hover := Region.overlaps_of_meets hlimit hlimit' ⟨a, h, h'⟩
    rw [checked.overlaps_of_mem_pairs hmem] at hover
    cases hover
  · have hover := Region.overlaps_of_meets hlimit' hlimit ⟨a, h', h⟩
    rw [checked.overlaps_of_mem_pairs hmem] at hover
    cases hover

/-- The chain does not write where the running stage lies. -/
theorem not_writable_of_loader {a : Nat} (h : checked.layout.Holds .loader a) :
    ¬checked.layout.Writable a := by
  rintro ⟨area, hmem, harea⟩
  refine checked.apart ?_ h harea
  rintro rfl
  simp [writtenAreas] at hmem

end Checked

end Layout

/-! ## Segments in a set of addresses -/

namespace Elf

/-- Whether every address of a span lies in another one. -/
def Span.LiesIn (s t : Span) : Prop :=
  s.len = 0 ∨ t.start ≤ s.start ∧ s.start + s.len ≤ t.start + t.len

instance (s t : Span) : Decidable (s.LiesIn t) :=
  inferInstanceAs (Decidable (_ ∨ _))

theorem Span.LiesIn.holds {s t : Span} (h : s.LiesIn t) {a : Nat} (ha : s.Holds a) : t.Holds a := by
  obtain ⟨hlow, hhigh⟩ := ha
  rcases h with hempty | ⟨hstart, hstop⟩
  · omega
  · exact ⟨by omega, by omega⟩

/-- Every loadable segment of the file goes to the set of addresses. -/
def SegmentsWithin (loader : Loader) (file : Bytes) (S : Nat → Prop) : Prop :=
  ∀ ph ∈ segments loader.cls file, ∀ a, ph.Covers loader.width a → S a

namespace SegmentsWithin

variable {loader : Loader} {file : Bytes} {S T : Nat → Prop}

theorem mono (h : SegmentsWithin loader file S) (hST : ∀ a, S a → T a) :
    SegmentsWithin loader file T :=
  fun ph hmem a ha => hST a (h ph hmem a ha)

/-- It is enough that both parts of every segment lie in a span. -/
theorem of_spans {span : Span} (h : ∀ ph ∈ segments loader.cls file,
    (ph.filePart loader.width).LiesIn span ∧ (ph.zeroPart loader.width).LiesIn span) :
    SegmentsWithin loader file span.Holds := by
  intro ph hmem a ha
  obtain ⟨hfile, hzero⟩ := h ph hmem
  exact ha.elim hfile.holds hzero.holds

/-- Segments in a set avoid every range that shares no address with it. -/
theorem avoid {range : Span} (h : SegmentsWithin loader file S)
    (hapart : ∀ a, S a → ¬range.Holds a) : SegmentsAvoid loader file range := by
  intro ph hmem
  refine ⟨?_, ?_⟩
  · rintro ⟨a, hpart, hrange⟩
    exact hapart a (h ph hmem a (Or.inl hpart)) hrange
  · rintro ⟨a, hpart, hrange⟩
    exact hapart a (h ph hmem a (Or.inr hpart)) hrange

end SegmentsWithin

end Elf

end Chainload
