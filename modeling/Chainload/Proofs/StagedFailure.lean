import Chainload.Proofs.Staging
import Chainload.Proofs.Strictness
import Mathlib.Control.Monad.Basic

/-!
# When a staged module fails

A strict loader that reads a file of its own fails before it writes anything, unless memory refuses
a range. Through the view of a staged module this is not so. A segment that is placed on the copy
may change the program header of a later segment after it was checked, and the load fails when
that segment's turn comes, with the earlier ones in memory
(`Setup.placeModule_writes_before_failure`).

`Setup.placeModule_failure` says exactly when a failed load wrote nothing but the copy
(`OnlyStaged`): if the module fails for the same reason as a file of its own. So it is whenever no
segment of the module is placed on the copy.
-/

namespace Chainload.Chain.Setup

open Chainload.Action Elf Memory Multiboot

variable {setup : Setup} {modules : Modules} {extent : Extent} {machine after : Machine}
  {fault : Fault}

/-- Nothing was written but the copy of a module, and the copy holds what the module held. -/
structure OnlyStaged (setup : Setup) (extent : Extent) (before after : Memory) : Prop
    extends KeepsOutside (setup.stagedRange extent).Holds before after where
  copy : after.ram.read setup.scratch.start.toNat extent.length.toNat = extent.bytes before.ram

theorem onlyStaged_memoryStaged {memory : Memory}
    (hstaged : memory.ram.covers setup.scratch.start.toNat extent.length.toNat = true) :
    OnlyStaged setup extent memory (setup.memoryStaged extent memory) where
  toKeepsOutside := (overwritten_memoryStaged hstaged).keepsOutside fun a ha => by
    rw [Bytes.at?_eq_none_iff, extent.length_bytes]
    exact ha
  copy := read_memoryStaged hstaged

/-! ## A load that fails through a view -/

section View

variable {loader : Loader} {address len : UInt64} {file : Bytes} {cause : Elf.Fault}

/-- If a load through a view fails for another reason than memory and the view still shows the same
bytes, then the image was refused. -/
theorem refused_of_intact (hstrict : loader.validation = .strict)
    (hbefore : machine.memory.ram.read address.toNat len.toNat = file)
    (h : loader.load (.view address len) machine = .error cause after)
    (hcause : ∀ range, cause ≠ .memory range)
    (hafter : after.memory.ram.read address.toNat len.toNat = file) :
    loader.inspect (.view address len) machine.memory.ram = .error cause := by
  rcases Loader.load_eq_error h with ⟨hrefused, -⟩ | ⟨header, entry, hinspect, hplace⟩
  · exact hrefused
  · -- The table passed its checks and did not change, so it would pass them again.
    obtain ⟨-, -, hvet⟩ := Loader.inspect_eq_ok_iff.mp hinspect
    have hchecks := Loader.checkEntries_of_vet (hvet (by rw [hstrict]; rfl))
    rcases Loader.checkEntries_of_placeEntries hplace with ⟨range, hrange⟩ | hfails
    · exact absurd hrange (hcause range)
    · refine absurd ?_ hfails
      rw [← hchecks]
      exact Loader.checkEntries_congr (Image.shows_of_read hafter) (Image.shows_of_read hbefore) ..

/-- A strict load refuses the view of a range if it fails for the same reason with the bytes of the
range as a file of its own. -/
theorem refused_of_file (hstrict : loader.validation = .strict)
    (hbefore : machine.memory.ram.read address.toNat len.toNat = file) {other : Machine}
    (h : (loader.load (.file file)).answer other = .error cause)
    (hcause : ∀ range, cause ≠ .memory range) :
    loader.inspect (.view address len) machine.memory.ram = .error cause := by
  obtain ⟨left, hload⟩ := error_of_answer h
  obtain ⟨hrefused, -⟩ := Loader.refused_of_strict hstrict hload hcause
  rw [← hrefused]
  exact Loader.inspect_congr (Image.shows_of_read hbefore) (Image.shows_file ..)

end View

/-! ## A module that fails -/

/-- A module that is not placed, for another reason than memory, was either not copied, or its load
failed through the view of the copy. -/
theorem placeModule_eq_error (hwindow : machine.memory.mapping = .window)
    (h : setup.placeModule modules machine = .error fault after)
    (hfault : ∀ range, fault ≠ .load (.memory range)) :
    (fault = .noModule ∨ ∃ len capacity, fault = .noRoom len capacity) ∧
        after.memory = machine.memory ∨
      ∃ extent cause staged, modules.first? machine.memory.ram = some extent ∧
        fault = .load cause ∧ OnlyStaged setup extent machine.memory staged.memory ∧
        setup.loader.load (.view setup.scratch.start extent.length) staged =
          .error cause after := by
  cases hfirst : modules.first? machine.memory.ram with
  | none =>
    rw [placeModule_of_none hfirst] at h
    cases h
    exact Or.inl ⟨Or.inl rfl, rfl⟩
  | some extent =>
    rw [placeModule_of_some hfirst] at h
    rcases stage_cases hwindow setup extent with
      ⟨fault', left, hstage, hmemory, hreason⟩ | ⟨hstaged, staged, hmemory, hstage⟩
    · rw [bind_of_error hstage] at h
      cases h
      rcases hreason with ⟨range, hrange⟩ | ⟨hroom, -⟩
      · exact absurd hrange (hfault range)
      · exact Or.inl ⟨Or.inr ⟨_, _, hroom⟩, hmemory⟩
    · rw [bind_of_ok hstage, load] at h
      obtain ⟨cause, hload, rfl⟩ := mapError_eq_error_iff.mp h
      refine Or.inr ⟨extent, cause, staged, rfl, rfl, ?_, hload⟩
      rw [hmemory]
      exact onlyStaged_memoryStaged hstaged

/-- A strict chain that fails to place a module, for another reason than memory, either made no copy
and left memory as it was; or it wrote nothing but the copy, exactly if the module fails for the
same reason as a file of its own. The latter is so if no segment is placed on the copy. -/
theorem placeModule_failure (hstrict : setup.loader.validation = .strict)
    (hwindow : machine.memory.mapping = .window)
    (h : setup.placeModule modules machine = .error fault after)
    (hfault : ∀ range, fault ≠ .load (.memory range)) :
    (fault = .noModule ∨ ∃ len capacity, fault = .noRoom len capacity) ∧
        after.memory = machine.memory ∨
      ∃ extent cause, modules.first? machine.memory.ram = some extent ∧ fault = .load cause ∧
        (OnlyStaged setup extent machine.memory after.memory ↔
          (setup.loader.load (.file (extent.bytes machine.memory.ram))).answer machine =
            .error cause) ∧
        (SegmentsAvoid setup.loader (extent.bytes machine.memory.ram) (setup.stagedRange extent) →
          OnlyStaged setup extent machine.memory after.memory) := by
  rcases placeModule_eq_error hwindow h hfault with
    hnone | ⟨extent, cause, staged, hfirst, rfl, honly, hload⟩
  · exact Or.inl hnone
  have hcause : ∀ range, cause ≠ .memory range := fun range hrange =>
    hfault range (congrArg Fault.load hrange)
  have hrefusal : setup.loader.inspect (.view setup.scratch.start extent.length)
      staged.memory.ram = .error cause → OnlyStaged setup extent machine.memory after.memory := by
    intro hrefused
    obtain ⟨records, hsame⟩ := Loader.load_of_refused hrefused
    rw [hload] at hsame
    cases hsame
    exact honly
  refine Or.inr ⟨extent, cause, hfirst, rfl, ⟨fun hafter => ?_, fun hfile => ?_⟩, fun havoids => ?_⟩
  · have hrefused := refused_of_intact hstrict honly.copy hload hcause hafter.copy
    rw [Loader.inspect_congr (Image.shows_of_read honly.copy)
      (Image.shows_file (extent.bytes machine.memory.ram) machine.memory.ram)] at hrefused
    obtain ⟨records, hfile⟩ := Loader.load_of_refused hrefused
    exact answer_of_error hfile
  · exact hrefusal (refused_of_file hstrict honly.copy hfile hcause)
  · have hagree := Loader.load_view_agree (honly.window hwindow) rfl honly.copy havoids
    have hfile := hagree.answer.symm.trans (answer_of_error hload)
    exact hrefusal (refused_of_file hstrict honly.copy hfile hcause)

/-- A file whose second segment replaces, in a copy at `0x1020`, the file offset of its third. -/
def selfPatching : Draft :=
  { Draft.ofClass .elf32 with
    entry := 0x1000
    segments :=
      [⟨loadable, 0x1000, none, [1, 2, 3, 4], 4⟩,
        ⟨loadable, 0x1098, none, [0xFF, 0xFF, 0xFF, 0xFF], 4⟩,
        ⟨loadable, 0x1008, none, [5], 1⟩] }

theorem answer_selfPatching :
    (cramped.placeModule (.listed [⟨0x1100, 0x119D⟩])).answer
      (.ofMemory (memoryWith 0x1100 selfPatching.layOut)) =
        .error (.load (.image ⟨0xFFFF_FFFF, 1⟩)) := by decide +kernel

/-- The file passes the checks and its first segment is written to `0x1000`. Then its second one
makes the third unreadable. -/
theorem placeModule_writes_before_failure :
    ∃ after, cramped.placeModule (.listed [⟨0x1100, 0x119D⟩])
        (.ofMemory (memoryWith 0x1100 selfPatching.layOut)) =
          .error (.load (.image ⟨0xFFFF_FFFF, 1⟩)) after ∧
      (memoryWith 0x1100 selfPatching.layOut).ram.byte? 0x1000 = some 0xAA ∧
      after.memory.ram.byte? 0x1000 = some 1 ∧
      ¬OnlyStaged cramped ⟨0x1100, 0x119D⟩ (memoryWith 0x1100 selfPatching.layOut)
        after.memory := by
  have hleft : ((cramped.placeModule (.listed [⟨0x1100, 0x119D⟩])).memoryAfter
      (.ofMemory (memoryWith 0x1100 selfPatching.layOut))).ram.byte? 0x1000 = some 1 := by
    decide +kernel
  have hbefore : (memoryWith 0x1100 selfPatching.layOut).ram.byte? 0x1000 = some 0xAA := by
    decide +kernel
  obtain ⟨after, hrun⟩ := error_of_answer answer_selfPatching
  rw [memoryAfter_of_error hrun] at hleft
  refine ⟨after, hrun, hbefore, hleft, fun honly => ?_⟩
  have hsame := honly.byte 0x1000 (by decide)
  rw [hleft, hbefore] at hsame
  cases hsame

/-- As a file of its own the same module does not fail in this way, so the failure wrote more than
the copy. -/
theorem placeModule_failure_selfPatching :
    cramped.loader.validation = .strict ∧
      Memory.mapping (memoryWith 0x1100 selfPatching.layOut) = .window ∧
      ∃ after, cramped.placeModule (.listed [⟨0x1100, 0x119D⟩])
          (.ofMemory (memoryWith 0x1100 selfPatching.layOut)) =
            .error (.load (.image ⟨0xFFFF_FFFF, 1⟩)) after ∧
        ¬OnlyStaged cramped ⟨0x1100, 0x119D⟩ (memoryWith 0x1100 selfPatching.layOut)
          after.memory := by
  obtain ⟨after, hrun⟩ := error_of_answer answer_selfPatching
  refine ⟨rfl, rfl, after, hrun, fun honly => ?_⟩
  rcases placeModule_failure rfl rfl hrun (fun range hrange => by cases hrange) with
    ⟨hnone | ⟨len, capacity, hroom⟩, -⟩ | ⟨extent, cause, hfirst, hcause, hiff, -⟩
  · cases hnone
  · cases hroom
  · cases hfirst
    cases hcause
    have hfile := hiff.mp honly
    revert hfile
    decide +kernel

end Chainload.Chain.Setup
