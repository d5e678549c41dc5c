import Chainload.Proofs.RelatedLoads

/-!
# Loading through a view

A view lies in the memory that the load writes to, so a segment may change the image that it is
loaded from. If no segment is placed on the range of the view (`SegmentsAvoid`), the view stays
intact through the whole load, and the load agrees with that of a file of its own that holds the
same bytes (`Loader.load_view_agree`), up to the error and the memory of a load that fails half-way.

The invariant is that the range reads as the file. A segment that avoids the range keeps it
(`Loader.placeEntry_spares`), and as long as it holds, view and file place the next segment alike
(`Loader.placeEntry_related`).
-/

namespace Chainload.Elf

open Chainload.Action Memory

/-! ## Segments that avoid a range -/

theorem Span.meets_iff {s t : Span} :
    s.Meets t ↔ 0 < s.len ∧ 0 < t.len ∧ s.start < t.start + t.len ∧ t.start < s.start + s.len := by
  constructor
  · rintro ⟨a, ⟨hs, hs'⟩, ht, ht'⟩
    omega
  · rintro ⟨hs, ht, hst, hts⟩
    refine ⟨max s.start t.start, ⟨Nat.le_max_left .., ?_⟩, Nat.le_max_right .., ?_⟩ <;> omega

instance (s t : Span) : Decidable (s.Meets t) :=
  decidable_of_iff _ Span.meets_iff.symm

/-- No loadable segment of the file has its file part or its zero part on the range. -/
def SegmentsAvoid (loader : Loader) (file : Bytes) (range : Span) : Prop :=
  ∀ ph ∈ segments loader.cls file,
    ¬(ph.filePart loader.width).Meets range ∧ ¬(ph.zeroPart loader.width).Meets range

instance (loader : Loader) (file : Bytes) (range : Span) :
    Decidable (SegmentsAvoid loader file range) :=
  inferInstanceAs (Decidable (∀ ph ∈ segments loader.cls file,
    ¬(ph.filePart loader.width).Meets range ∧ ¬(ph.zeroPart loader.width).Meets range))

theorem SegmentsAvoid.not_covers {loader : Loader} {file : Bytes} {range : Span}
    {ph : ProgramHeader} (h : SegmentsAvoid loader file range)
    (hmem : ph ∈ segments loader.cls file) {a : Nat} (ha : range.Holds a) :
    ¬ph.Covers loader.width a := by
  obtain ⟨hfile, hzero⟩ := h ph hmem
  rintro (hcovers | hcovers)
  · exact hfile ⟨a, hcovers, ha⟩
  · exact hzero ⟨a, hcovers, ha⟩

namespace Loader

variable {loader : Loader} {image : Image} {file : Bytes} {ph : ProgramHeader} {m n : Machine}

/-! ## A view that stays intact -/

section View

variable {address len : UInt64} {table : Table}

/-- A program header leaves a range intact that its segment does not cover. -/
theorem placeEntry_spares {index : Nat} {after : Machine} {range : Span}
    (hwindow : m.memory.mapping = .window)
    (h : loader.placeEntry image index ph m = .ok () after)
    (havoids : ph.isLoadable = true → ∀ a, range.Holds a → ¬ph.Covers loader.width a) :
    SameShape m.memory after.memory ∧
      after.memory.ram.read range.start range.len = m.memory.ram.read range.start range.len := by
  have hkeeps := placeEntry_keeps loader image index ph hwindow
  rw [memoryAfter_of_ok h] at hkeeps
  exact ⟨hkeeps.toSameShape, hkeeps.read fun a ha hcovers => havoids hcovers.1 a ha hcovers.2⟩

/-- A view that shows a file places a table like the file, if no segment covers the view. -/
theorem placeEntries_view_related :
    ∀ {left index : Nat} {m n : Machine}, m.memory.mapping = .window → m.memory = n.memory →
      m.memory.ram.read address.toNat len.toNat = file →
      (∀ ph ∈ table.entriesFrom file left index, ph.isLoadable = true →
        ∀ a, (Span.mk address.toNat len.toNat).Holds a → ¬ph.Covers loader.width a) →
      Related Eq (loader.placeEntries (.view address len) table left index)
        (loader.placeEntries (.file file) table left index) m n
  | 0, _, _, _, _, hmemory, _, _ => .pure () hmemory
  | left + 1, index, m, n, hwindow, hmemory, hintact, havoids => by
    have hview : (Image.view address len).Shows m.memory.ram file :=
      Image.shows_of_read hintact
    have hfile : (Image.file file).Shows n.memory.ram file := Image.shows_file file _
    have hsame := Table.read_congr hview hfile table index
    cases hread : table.read (.file file) n.memory.ram index with
    | error fault =>
      rw [hread] at hsame
      exact .of_error (placeEntries_of_unread hsame) (placeEntries_of_unread hread) hmemory
    | ok ph =>
      rw [hread] at hsame
      rw [Table.entriesFrom_succ ((Table.read_eq_ok_iff hfile).mp hread)] at havoids
      refine .of_runs (placeEntries_of_read hsame) (placeEntries_of_read hread) ?_
      refine (placeEntry_related bisimulation_eq hview hfile hmemory loader index ph).bind ?_
      intro _ m' n' hm _ hmemory'
      obtain ⟨hshape, hkept⟩ := placeEntry_spares hwindow hm (havoids ph (List.mem_cons_self ..))
      refine placeEntries_view_related (hshape.window hwindow) hmemory' (hkept.trans hintact) ?_
      exact fun ph' hmem => havoids ph' (List.mem_cons_of_mem ph hmem)

/-- A load through a view agrees with that of a file that holds the bytes of the view, if no segment
of them is placed on the view. -/
theorem load_view_agree (hwindow : m.memory.mapping = .window) (hmemory : m.memory = n.memory)
    (hintact : m.memory.ram.read address.toNat len.toNat = file)
    (havoids : SegmentsAvoid loader file ⟨address.toNat, len.toNat⟩) :
    Agree (loader.load (.view address len)) (loader.load (.file file)) m n := by
  have hview : (Image.view address len).Shows m.memory.ram file :=
    Image.shows_of_read hintact
  have hfile : (Image.file file).Shows n.memory.ram file := Image.shows_file file _
  have hsame : loader.inspect _ _ = loader.inspect _ _ := inspect_congr hview hfile
  rw [Agree.iff_related]
  cases hinspect : loader.inspect (.file file) n.memory.ram with
  | error fault =>
    rw [hinspect] at hsame
    obtain ⟨records, hm⟩ := load_of_refused hsame
    obtain ⟨records', hn⟩ := load_of_refused hinspect
    exact .of_error hm hn hmemory
  | ok found =>
    obtain ⟨header, entry⟩ := found
    rw [hinspect] at hsame
    refine .of_runs (load_of_accepted hsame) (load_of_accepted hinspect) ?_
    have hheader := ofFile?_of_ofImage hfile (inspect_eq_ok_iff.mp hinspect).1
    have hplace : Related Eq
        (loader.placeEntries (.view address len) header.table header.entryCount.toNat 0)
        (loader.placeEntries (.file file) header.table header.entryCount.toNat 0)
        (announced m header entry) (announced n header entry) := by
      refine placeEntries_view_related hwindow hmemory hintact fun ph hmem hload a ha => ?_
      refine havoids.not_covers ?_ ha
      rw [segments_of_header hheader]
      exact List.mem_filter.mpr ⟨hmem, hload⟩
    exact hplace.bind fun _ _ _ _ _ hleft => .pure entry hleft

end View

end Loader

end Chainload.Elf
