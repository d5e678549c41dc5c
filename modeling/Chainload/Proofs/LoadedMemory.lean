import Chainload.Elf.Draft
import Chainload.Proofs.Placing
import Mathlib.Control.Monad.Basic

/-!
# Memory after a load

A load that returns leaves at every address what the last segment wrote there, in table order, and
the old byte where no segment lies (`Loader.load_leaves_last_write`). One that fails may have
written a part of its segments, but nothing outside their footprints (`Loader.load_keeps`).

`lastWrite?` collects the writes of a table one after the other, as placing makes them
(`Loader.placeEntries_ok`). `lastCovering?` looks for the last segment whose footprint holds an
address; `lastWrite?_eq` says that this segment decides.
-/

namespace Chainload.Elf

open Chainload.Action Memory

/-! ## The last write -/

theorem foldl_or_eq (f : ProgramHeader → Option UInt8) :
    ∀ (segments : List ProgramHeader) (earlier : Option UInt8),
      segments.foldl (fun earlier ph => (f ph).or earlier) earlier =
        (segments.foldl (fun earlier ph => (f ph).or earlier) none).or earlier
  | [], earlier => rfl
  | ph :: rest, earlier => by
    rw [List.foldl_cons, List.foldl_cons, foldl_or_eq f rest ((f ph).or earlier),
      foldl_or_eq f rest ((f ph).or none), Option.or_none, Option.or_assoc]

theorem lastWrite?_cons_of_loadable {width : Width} {file : Bytes} {ph : ProgramHeader}
    {rest : List ProgramHeader} (h : ph.isLoadable = true) (a : Nat) :
    lastWrite? width file (ph :: rest) a =
      (lastWrite? width file rest a).or (ph.written? width file a) := by
  rw [lastWrite?, List.filter_cons_of_pos h, List.foldl_cons, foldl_or_eq, Option.or_none]
  rfl

theorem lastWrite?_cons_of_skipped {width : Width} {file : Bytes} {ph : ProgramHeader}
    {rest : List ProgramHeader} (h : ph.isLoadable = false) (a : Nat) :
    lastWrite? width file (ph :: rest) a = lastWrite? width file rest a := by
  rw [lastWrite?, List.filter_cons_of_neg (by rw [h]; decide)]
  rfl

/-- The last segment whose footprint holds an address. -/
def lastCovering? (width : Width) (segments : List ProgramHeader) (a : Nat) :
    Option ProgramHeader :=
  segments.reverse.find? fun ph => ph.Covers width a

theorem lastCovering?_cons (width : Width) (ph : ProgramHeader) (rest : List ProgramHeader)
    (a : Nat) :
    lastCovering? width (ph :: rest) a =
      (lastCovering? width rest a).or (if ph.Covers width a then some ph else none) := by
  rw [lastCovering?, List.reverse_cons, List.find?_append, List.find?_singleton]
  simp only [decide_eq_true_eq]
  rfl

theorem mem_of_lastCovering? {width : Width} {segments : List ProgramHeader} {a : Nat}
    {ph : ProgramHeader} (h : lastCovering? width segments a = some ph) :
    ph ∈ segments ∧ ph.Covers width a :=
  ⟨List.mem_reverse.mp (List.mem_of_find?_eq_some h), by simpa using List.find?_some h⟩

/-- A segment that the file holds writes a byte wherever its footprint lies: a zero in the zero part
and a byte of the file elsewhere. -/
theorem written?_of_covers {width : Width} {file : Bytes} {ph : ProgramHeader} {a : Nat}
    (hholds : HoldsSegment file ph) (h : ph.Covers width a) :
    ∃ b, ph.written? width file a = some b ∧
      some b = if (ph.zeroPart width).Holds a then some 0
        else file[ph.offset.toNat + (a - (ph.filePart width).start)]? := by
  unfold ProgramHeader.written?
  by_cases hzero : (ph.zeroPart width).Holds a
  · exact ⟨0, if_pos hzero, (if_pos hzero).symm⟩
  · have hfile : (ph.filePart width).Holds a := h.resolve_right hzero
    have hlen : (ph.filePart width).len = ph.fileSize.toNat := rfl
    have hnonempty : ph.fileSize ≠ 0 := fun hempty =>
      Span.not_holds_of_empty (hlen.trans (congrArg UInt64.toNat hempty)) a hfile
    have hbound := hholds hnonempty
    have hlow := hfile.1
    have hhigh := hfile.2
    have hindex : ph.offset.toNat + (a - (ph.filePart width).start) < file.length := by omega
    rw [if_neg hzero, if_pos hfile, if_neg hzero, List.getElem?_eq_getElem hindex]
    exact ⟨_, rfl, rfl⟩

/-- The last segment whose footprint holds an address makes the last write there. -/
theorem lastWrite?_eq (width : Width) (file : Bytes) (a : Nat) :
    ∀ {table : List ProgramHeader},
      (∀ ph ∈ table, ph.isLoadable = true → HoldsSegment file ph) →
      lastWrite? width file table a =
        match lastCovering? width (table.filter ProgramHeader.isLoadable) a with
        | none => none
        | some ph => if (ph.zeroPart width).Holds a then some 0
            else file[ph.offset.toNat + (a - (ph.filePart width).start)]?
  | [], _ => rfl
  | ph :: rest, hholds => by
    have hrest : ∀ ph' ∈ rest, ph'.isLoadable = true → HoldsSegment file ph' :=
      fun ph' hmem => hholds ph' (List.mem_cons_of_mem ph hmem)
    have ih := lastWrite?_eq width file a hrest
    cases hload : ph.isLoadable with
    | false =>
      rw [lastWrite?_cons_of_skipped hload, List.filter_cons_of_neg (by rw [hload]; decide), ih]
    | true =>
      rw [lastWrite?_cons_of_loadable hload, List.filter_cons_of_pos hload, lastCovering?_cons, ih]
      cases hlast : lastCovering? width (rest.filter ProgramHeader.isLoadable) a with
      | some last =>
        obtain ⟨hmem, hcovers⟩ := mem_of_lastCovering? hlast
        obtain ⟨hrest, hlastload⟩ := List.mem_filter.mp hmem
        obtain ⟨b, -, hb⟩ := written?_of_covers
          (hholds last (List.mem_cons_of_mem ph hrest) hlastload) hcovers
        simp only [Option.some_or, ← hb]
      | none =>
        simp only [Option.none_or]
        by_cases hcovers : ph.Covers width a
        · obtain ⟨b, hwritten, hb⟩ := written?_of_covers
            (hholds ph (List.mem_cons_self ..) hload) hcovers
          rw [if_pos hcovers, hwritten, hb]
        · rw [if_neg hcovers, ProgramHeader.written?_eq_none hcovers]

/-! ## A whole load -/

namespace Loader

variable {loader : Loader} {file : Bytes} {table : Table} {header : Header} {entry : Entry}

/-- A table that was placed to its end left the last write of its segments at every address; the
file holds all of its program headers and all that its segments copy. -/
theorem placeEntries_ok :
    ∀ {left index : Nat} {machine after : Machine}, machine.memory.mapping = .window →
      loader.placeEntries (.file file) table left index machine = .ok () after →
      Overwritten machine.memory
          (lastWrite? loader.width file (table.entriesFrom file left index)) after.memory ∧
        (table.entriesFrom file left index).length = left ∧
        ∀ ph ∈ table.entriesFrom file left index, ph.isLoadable = true → HoldsSegment file ph
  | 0, index, machine, after, _, h => by
    cases h
    exact ⟨(Overwritten.refl _).congr fun _ => rfl, rfl, fun _ hmem => nomatch hmem⟩
  | left + 1, index, machine, after, hwindow, h => by
    have hshows := Image.shows_file file machine.memory.ram
    obtain ⟨ph, between, hread, hentry, hrest⟩ := placeEntries_succ_eq_ok h
    rw [Table.entriesFrom_succ ((Table.read_eq_ok_iff hshows).mp hread)]
    cases hload : ph.isLoadable with
    | false =>
      obtain ⟨records, heq⟩ := placeEntry_of_skipped loader (.file file) index machine hload
      rw [heq] at hentry
      cases hentry
      obtain ⟨hover, hlen, hholds⟩ := placeEntries_ok (by exact hwindow) hrest
      refine ⟨hover.congr fun a => (lastWrite?_cons_of_skipped hload a).symm, by
        rw [List.length_cons, hlen], fun ph' hmem hload' => ?_⟩
      rcases List.mem_cons.mp hmem with rfl | hmem
      · rw [hload] at hload'
        cases hload'
      · exact hholds ph' hmem hload'
    | true =>
      rw [placeEntry_of_loadable hload] at hentry
      obtain ⟨hsegment, hsegmentholds⟩ := placeSegment_ok hwindow hshows hentry
      obtain ⟨hover, hlen, hholds⟩ := placeEntries_ok (hsegment.window hwindow) hrest
      refine ⟨(hsegment.trans hover).congr fun a => (lastWrite?_cons_of_loadable hload a).symm, by
        rw [List.length_cons, hlen], fun ph' hmem hload' => ?_⟩
      rcases List.mem_cons.mp hmem with rfl | hmem
      · exact hsegmentholds
      · exact hholds ph' hmem hload'

/-- A load of a file writes inside the footprints of its segments only, also if it fails. -/
theorem load_keeps {machine : Machine} (loader : Loader) (file : Bytes)
    (hwindow : machine.memory.mapping = .window) :
    KeepsOutside (fun a => ∃ ph ∈ segments loader.cls file, ph.Covers loader.width a)
      machine.memory ((loader.load (.file file)).memoryAfter machine) := by
  rcases hinspect : loader.inspect (.file file) machine.memory.ram with fault | ⟨header, entry⟩
  · obtain ⟨records, hload⟩ := load_of_refused hinspect
    rw [memoryAfter_of_error hload]
    exact .refl _ _
  have hheader := ofFile?_of_ofImage (Image.shows_file file _) (inspect_eq_ok_iff.mp hinspect).1
  have hannounced : (announced machine header entry).memory.mapping = .window := hwindow
  have hplace := placeEntries_keeps loader file header.table header.entryCount.toNat 0 hannounced
  rw [memoryAfter_congr (load_of_accepted hinspect), memoryAfter_bind_pure]
  refine hplace.mono ?_
  rintro a ⟨ph, hmem, hload, hcovers⟩
  rw [segments_of_header hheader]
  exact ⟨ph, List.mem_filter.mpr ⟨hmem, hload⟩, hcovers⟩

/-- A load that returns overwrites memory with the last writes of the file's segments. -/
theorem overwritten_of_load {machine after : Machine}
    (hwindow : machine.memory.mapping = .window)
    (h : loader.load (.file file) machine = .ok entry after) :
    ∃ header, Header.ofFile? loader.cls file = some header ∧ entry.address = header.entry ∧
      (header.table.entries file).length = header.entryCount.toNat ∧
      (∀ ph ∈ header.table.entries file, ph.isLoadable = true → HoldsSegment file ph) ∧
      Overwritten machine.memory (lastWrite? loader.width file (header.table.entries file))
        after.memory := by
  obtain ⟨header, hinspect, hplace⟩ := load_eq_ok h
  obtain ⟨hofImage, hentry, -⟩ := inspect_eq_ok_iff.mp hinspect
  have hheader := ofFile?_of_ofImage (Image.shows_file file _) hofImage
  have hannounced : (announced machine header entry).memory.mapping = .window := hwindow
  obtain ⟨hover, hlen, hholds⟩ := placeEntries_ok hannounced hplace
  exact ⟨header, hheader, address_of_ofAddress? hentry, hlen, hholds, hover⟩

/-- What a load of the file writes, by address. -/
def patch? (loader : Loader) (file : Bytes) (a : Nat) : Option UInt8 := do
  let header ← Header.ofFile? loader.cls file
  lastWrite? loader.width file (header.table.entries file) a

/-- A load that returns writes the file's patch, which has a byte wherever a segment lies. -/
theorem patch?_of_load {machine after : Machine} (hwindow : machine.memory.mapping = .window)
    (h : loader.load (.file file) machine = .ok entry after) :
    Overwritten machine.memory (loader.patch? file) after.memory ∧
      ∀ ph ∈ segments loader.cls file, ∀ a, ph.Covers loader.width a →
        ∃ b, loader.patch? file a = some b := by
  obtain ⟨header, hheader, -, -, hholds, hover⟩ := overwritten_of_load hwindow h
  have hpatch : loader.patch? file = lastWrite? loader.width file (header.table.entries file) := by
    funext a
    simp only [patch?, hheader, Option.bind_eq_bind, Option.bind_some]
  rw [hpatch]
  refine ⟨hover, fun ph hmem a hcovers => ?_⟩
  rw [segments_of_header hheader] at hmem
  rw [lastWrite?_eq loader.width file a hholds]
  cases hlast : lastCovering? loader.width
      ((header.table.entries file).filter ProgramHeader.isLoadable) a with
  | none =>
    have hnone := List.find?_eq_none.mp hlast ph (List.mem_reverse.mpr hmem)
    exact absurd hcovers (by simpa using hnone)
  | some last =>
    obtain ⟨hlastmem, hlastcovers⟩ := mem_of_lastCovering? hlast
    obtain ⟨hlastmem, hloadable⟩ := List.mem_filter.mp hlastmem
    obtain ⟨b, -, hb⟩ := written?_of_covers (hholds last hlastmem hloadable) hlastcovers
    exact ⟨b, hb.symm⟩

end Loader

end Chainload.Elf
