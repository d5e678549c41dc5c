import Chainload.Proofs.Placing

/-!
# Related loads

`Memory.Bisimulation R` says that no access tells memories apart that `R` relates: both grant it and
are still related, or both refuse the same range. If related memories also show an image as the same
file, the loads of that image on them are related (`Loader.load_related`).

Two relations are used.

* Equality. Every image is the same on equal memories, so what a load answers and leaves depends on
  memory alone and not on what was asked or logged before (`Loader.load_of_sameMemory`).
* Windows at the same place (`Memory.SameWindow`). A file of its own is the same on all memories, so
  whether it can be loaded does not depend on what the window holds (`Loader.load_file_sameWindow`).
-/

namespace Chainload

/-! ## Memories that no access tells apart -/

namespace Memory

/-- Related memories both grant an access, and are still related, or both refuse the same range. -/
structure Bisimulation (R : Memory → Memory → Prop) : Prop where
  perform : ∀ {first second : Memory} (access : Request), R first second →
    (∃ first' second', first.perform access = .ok first' ∧ second.perform access = .ok second' ∧
        R first' second') ∨
      ∃ range, first.perform access = .error range ∧ second.perform access = .error range

theorem bisimulation_eq : Bisimulation Eq where
  perform {first second} access h := by
    subst h
    cases first.perform access with
    | ok after => exact Or.inl ⟨after, after, rfl, rfl, rfl⟩
    | error range => exact Or.inr ⟨range, rfl, rfl⟩

/-- Both memories are reached through a window, at the same place. -/
structure SameWindow (first second : Memory) : Prop extends SameShape first second where
  isWindow : first.mapping = .window

namespace SameWindow

variable {first second : Memory}

theorem refl {memory : Memory} (hwindow : memory.mapping = .window) : SameWindow memory memory :=
  ⟨.refl memory, hwindow⟩

/-- Writes leave windows at the same place. -/
theorem write (h : SameWindow first second) (target : UInt64) (bytes bytes' : Bytes) :
    SameWindow (first.write target bytes) (second.write target bytes') where
  mapping := h.mapping
  base := h.base
  size := (Ram.size_write ..).trans (h.size.trans (Ram.size_write ..).symm)
  isWindow := h.isWindow

end SameWindow

/-- A window grants an access by its place alone. -/
theorem bisimulation_sameWindow : Bisimulation SameWindow where
  perform {first second} access h := by
    have hfirst := h.isWindow
    have hsecond := h.window hfirst
    cases access with
    | store target bytes =>
      rw [perform_store hfirst, perform_store hsecond, h.covers]
      cases first.ram.covers target.toNat bytes.length with
      | true => exact Or.inl ⟨_, _, rfl, rfl, h.write ..⟩
      | false => exact Or.inr ⟨_, rfl, rfl⟩
    | clear target len =>
      rw [perform_clear hfirst, perform_clear hsecond, h.covers]
      cases first.ram.covers target.toNat len.toNat with
      | true => exact Or.inl ⟨_, _, rfl, rfl, h.write ..⟩
      | false => exact Or.inr ⟨_, rfl, rfl⟩
    | move target source len =>
      simp only [Memory.perform, move, passesOver_window hfirst, passesOver_window hsecond,
        refusal?_window hfirst, refusal?_window hsecond, h.covers]
      cases first.ram.covers target.toNat len.toNat with
      | false => exact Or.inr ⟨_, rfl, rfl⟩
      | true =>
        cases first.ram.covers source.toNat len.toNat with
        | false => exact Or.inr ⟨_, rfl, rfl⟩
        | true => exact Or.inl ⟨_, _, rfl, rfl, h.write ..⟩
    | view address len =>
      rw [perform_view hfirst, perform_view hsecond, h.covers]
      cases first.ram.covers address.toNat len.toNat with
      | true => exact Or.inl ⟨_, _, rfl, rfl, h⟩
      | false => exact Or.inr ⟨_, rfl, rfl⟩

end Memory

open Chainload.Action Memory

theorem Action.Related.request {R : Memory → Memory → Prop} (hR : Bisimulation R) {m n : Machine}
    (access : Request) (h : R m.memory n.memory) :
    Related R (Action.request access) (Action.request access) m n := by
  rcases hR.perform access h with ⟨_, _, hm, hn, hafter⟩ | ⟨range, hm, hn⟩
  · exact .of_ok (request_of_ok hm) (request_of_ok hn) hafter
  · exact .of_error (request_of_error hm) (request_of_error hn) h

namespace Elf.Loader

variable {R : Memory → Memory → Prop} {loader : Loader} {image image' : Image} {file : Bytes}
  {ph : ProgramHeader} {m n : Machine}

/-! ## One segment -/

section Shows

variable (hR : Bisimulation R)
include hR

theorem request_related (access : Request) (hmemory : R m.memory n.memory) :
    Related R (request access) (request access) m n :=
  (Related.request hR access hmemory).mapError

theorem zeroRest_related (loader : Loader) (index : Nat) (target : UInt64) (ph : ProgramHeader)
    (hmemory : R m.memory n.memory) :
    Related R (loader.zeroRest index target ph) (loader.zeroRest index target ph) m n := by
  unfold zeroRest
  split
  · exact (Related.log hmemory).bind fun _ _ _ _ _ hnoted => request_related hR _ hnoted
  · exact .pure () hmemory

variable (hshows : image.Shows m.memory.ram file) (hshows' : image'.Shows n.memory.ram file)
  (hmemory : R m.memory n.memory)
include hshows hshows' hmemory

theorem copyFile_related (target : UInt64) (ph : ProgramHeader) :
    Related R (copyFile image target ph) (copyFile image' target ph) m n := by
  by_cases hempty : ph.fileSize = 0
  · exact .of_ok (copyFile_of_empty hempty) (copyFile_of_empty hempty) hmemory
  have hread := readRange_congr hshows hshows' ph.offset ph.fileSize
  cases hread' : readRange image' n.memory.ram ph.offset ph.fileSize with
  | error fault =>
    rw [hread'] at hread
    exact .of_error (copyFile_of_unread hempty hread) (copyFile_of_unread hempty hread') hmemory
  | ok bytes =>
    rw [hread'] at hread
    exact .of_runs (copyFile_of_read hempty hread) (copyFile_of_read hempty hread')
      (request_related hR _ hmemory)

theorem placeSegment_related (loader : Loader) (index : Nat) (ph : ProgramHeader) :
    Related R (loader.placeSegment image index ph) (loader.placeSegment image' index ph) m n := by
  cases htarget : loader.target ph.physicalAddress with
  | error fault =>
    exact .of_error (placeSegment_of_no_target htarget) (placeSegment_of_no_target htarget) hmemory
  | ok target =>
    obtain ⟨records, hm⟩ := placeSegment_of_target image index m htarget
    obtain ⟨records', hn⟩ := placeSegment_of_target image' index n htarget
    have hcopy : Related R (copyFile image target ph) (copyFile image' target ph)
        { m with records } { n with records := records' } :=
      copyFile_related hR (by exact hshows) (by exact hshows') (by exact hmemory) target ph
    exact .of_runs hm hn
      (hcopy.bind fun _ _ _ _ _ hbetween => zeroRest_related hR _ _ _ _ hbetween)

/-- While two images show the same file, a loader deals alike with a program header. -/
theorem placeEntry_related (loader : Loader) (index : Nat) (ph : ProgramHeader) :
    Related R (loader.placeEntry image index ph) (loader.placeEntry image' index ph) m n := by
  cases hload : ph.isLoadable with
  | false =>
    obtain ⟨records, hm⟩ := placeEntry_of_skipped loader image index m hload
    obtain ⟨records', hn⟩ := placeEntry_of_skipped loader image' index n hload
    exact .of_ok hm hn hmemory
  | true =>
    rw [placeEntry_of_loadable hload, placeEntry_of_loadable hload]
    exact placeSegment_related hR hshows hshows' hmemory loader index ph

end Shows

/-! ## Whole loads -/

/-- Related memories show an image as the same file. -/
def ShowsAlike (R : Memory → Memory → Prop) (image : Image) : Prop :=
  ∀ {first second : Memory}, R first second →
    ∃ file, image.Shows first.ram file ∧ image.Shows second.ram file

section Alike

variable (hR : Bisimulation R) (himage : ShowsAlike R image)
include hR himage

theorem placeEntries_related (loader : Loader) (table : Table) :
    ∀ {left index : Nat} {m n : Machine}, R m.memory n.memory →
      Related R (loader.placeEntries image table left index)
        (loader.placeEntries image table left index) m n
  | 0, _, _, _, hmemory => .pure () hmemory
  | left + 1, index, m, n, hmemory => by
    obtain ⟨file, hshows, hshows'⟩ := himage hmemory
    have hsame := Table.read_congr hshows hshows' table index
    cases hread : table.read image n.memory.ram index with
    | error fault =>
      rw [hread] at hsame
      exact .of_error (placeEntries_of_unread hsame) (placeEntries_of_unread hread) hmemory
    | ok ph =>
      rw [hread] at hsame
      refine .of_runs (placeEntries_of_read hsame) (placeEntries_of_read hread) ?_
      exact (placeEntry_related hR hshows hshows' hmemory loader index ph).bind
        fun _ _ _ _ _ hbetween => placeEntries_related loader table hbetween

/-- Loads of an image on memories that no access tells apart, and that show it alike, are
related. -/
theorem load_related (loader : Loader) (hmemory : R m.memory n.memory) :
    Related R (loader.load image) (loader.load image) m n := by
  obtain ⟨file, hshows, hshows'⟩ := himage hmemory
  have hsame : loader.inspect _ _ = loader.inspect _ _ := inspect_congr hshows hshows'
  cases hinspect : loader.inspect image n.memory.ram with
  | error fault =>
    rw [hinspect] at hsame
    obtain ⟨records, hm⟩ := load_of_refused hsame
    obtain ⟨records', hn⟩ := load_of_refused hinspect
    exact .of_error hm hn hmemory
  | ok found =>
    obtain ⟨header, entry⟩ := found
    rw [hinspect] at hsame
    refine .of_runs (load_of_accepted hsame) (load_of_accepted hinspect) ?_
    have hplace : Related R
        (loader.placeEntries image header.table header.entryCount.toNat 0)
        (loader.placeEntries image header.table header.entryCount.toNat 0)
        (announced m header entry) (announced n header entry) :=
      placeEntries_related hR himage loader header.table (by exact hmemory)
    exact hplace.bind fun _ _ _ _ _ hleft => .pure entry hleft

end Alike

/-- What a load answers and leaves depends on memory alone. -/
theorem load_of_sameMemory (loader : Loader) (image : Image) (hmemory : m.memory = n.memory) :
    Related Eq (loader.load image) (loader.load image) m n := by
  refine load_related bisimulation_eq (fun hsame => ?_) loader hmemory
  subst hsame
  obtain ⟨file, hshows⟩ := image.exists_shows _
  exact ⟨file, hshows, hshows⟩

/-- What the load of a file answers depends on the place of the window alone. -/
theorem load_file_sameWindow (loader : Loader) (file : Bytes)
    (hwindow : SameWindow m.memory n.memory) :
    Related SameWindow (loader.load (.file file)) (loader.load (.file file)) m n :=
  load_related bisimulation_sameWindow
    (fun _ => ⟨file, Image.shows_file file _, Image.shows_file file _⟩) loader hwindow

end Elf.Loader

end Chainload
