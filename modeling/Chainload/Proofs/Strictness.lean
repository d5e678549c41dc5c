import Chainload.Proofs.Placing

/-!
# What strict validation adds

A strict loader refuses some images that a trusting one loads. It does so before it writes anything,
and an image that it accepts it loads like the trusting one, to the last request and line of the log
(`Loader.strict_refuses_or_trusts`).

For a file of its own two facts carry this. The inspection never blames memory
(`Loader.inspect_sparesMemory`), so its refusals are told apart from those of memory. And the checks
of a table leave no room for a strict loader to place it differently (`Loader.placeEntries_congr`),
nor to fail for another reason than memory (`Loader.placeEntries_of_checked`).
-/

namespace Chainload.Elf

open Chainload.Action

/-! ## Failures that memory has no part in -/

/-- The result is not that memory refused a range. -/
structure SparesMemory {α : Type} (result : Except Fault α) : Prop where
  ne_memory : ∀ {range}, result ≠ .error (.memory range)

namespace SparesMemory

variable {α β : Type} {fault : Fault}

theorem ok (a : α) : SparesMemory (.ok a) where
  ne_memory := (nomatch ·)

theorem error (h : ∀ {range}, fault ≠ .memory range) :
    SparesMemory (.error fault : Except Fault α) where
  ne_memory hrange := h (Except.error.inj hrange)

theorem bind {first : Except Fault α} {f : α → Except Fault β} (h : SparesMemory first)
    (hf : ∀ a, SparesMemory (f a)) : SparesMemory (first >>= f) := by
  cases first with
  | ok a => exact hf a
  | error fault => exact error fun hrange => h.ne_memory (congrArg Except.error hrange)

theorem map {result : Except Fault α} (f : α → β) (h : SparesMemory result) :
    SparesMemory (result.map f) := by
  cases result with
  | ok a => exact ok (f a)
  | error fault => exact error fun hrange => h.ne_memory (congrArg Except.error hrange)

end SparesMemory

theorem readRange_sparesMemory (image : Image) (ram : Ram) (offset len : UInt64) :
    SparesMemory (readRange image ram offset len) := by
  unfold readRange Image.read
  split
  · exact .ok _
  · exact .error (nomatch ·)

theorem checkIdent_sparesMemory (header : Header) : SparesMemory header.checkIdent := by
  unfold Header.checkIdent
  split
  · exact .error (nomatch ·)
  · split
    · exact .error (nomatch ·)
    · split
      · exact .error (nomatch ·)
      · exact .ok _

theorem ofImage_sparesMemory (image : Image) (ram : Ram) (cls : Class) :
    SparesMemory (Header.ofImage image ram cls) := by
  unfold Header.ofImage
  split
  · exact .error (nomatch ·)
  · split
    · exact (readRange_sparesMemory ..).map _
    · exact .error (nomatch ·)

namespace Loader

variable {loader : Loader} {image : Image} {table : Table} {ph : ProgramHeader} {file : Bytes}

theorem checkSegment_sparesMemory (loader : Loader) (image : Image) (index : Nat)
    (ph : ProgramHeader) : SparesMemory (loader.checkSegment image index ph) := by
  unfold checkSegment
  split
  · exact .error (nomatch ·)
  · split
    · exact .error (nomatch ·)
    · split
      · exact .error (nomatch ·)
      · split
        · exact .ok _
        · exact .error (nomatch ·)

theorem checkEntries_sparesMemory (loader : Loader) (image : Image) (ram : Ram) (table : Table) :
    ∀ left index : Nat, SparesMemory (loader.checkEntries image ram table left index)
  | 0, _ => .ok ()
  | left + 1, index => by
    have ih := checkEntries_sparesMemory loader image ram table left (index + 1)
    rw [checkEntries]
    refine ((readRange_sparesMemory ..).map _).bind fun ph => ?_
    cases ph.isLoadable with
    | false => exact ih
    | true => exact (checkSegment_sparesMemory loader image index ph).bind fun _ => ih

theorem vet_sparesMemory (loader : Loader) (image : Image) (ram : Ram) (header : Header) :
    SparesMemory (loader.vet image ram header) := by
  unfold vet
  refine (checkIdent_sparesMemory header).bind fun _ => ?_
  cases loader.width.reaches header.entry with
  | false => exact .error (nomatch ·)
  | true =>
    cases image.contains header.tableOffset header.tableSize with
    | false => exact .error (nomatch ·)
    | true => exact checkEntries_sparesMemory ..

/-- An inspection looks at the image alone and never blames memory. -/
theorem inspect_sparesMemory (loader : Loader) (image : Image) (ram : Ram) :
    SparesMemory (loader.inspect image ram) := by
  unfold inspect
  refine (ofImage_sparesMemory image ram loader.cls).bind fun header => ?_
  cases Entry.ofAddress? header.entry with
  | none => exact .error (nomatch ·)
  | some entry =>
    cases loader.validation.isStrict with
    | false => exact .ok _
    | true => exact (vet_sparesMemory loader image ram header).bind fun _ => .ok _

/-! ## Placing what was checked -/

section Congr

variable (loader' : Loader) (hwidth : loader'.width = loader.width)
include hwidth

/-- Loaders of one pointer width place a segment alike if pointers reach it : only then nothing is
cut down and nothing refused. -/
theorem placeSegment_congr (image : Image) (index : Nat)
    (hreaches : loader.width.reaches ph.physicalAddress = true) :
    loader'.placeSegment image index ph = loader.placeSegment image index ph := by
  have htarget : loader'.target ph.physicalAddress = loader.target ph.physicalAddress := by
    rw [target, target, hwidth, if_pos hreaches, if_pos hreaches]
  have hzero : ∀ target, loader'.zeroRest index target ph = loader.zeroRest index target ph := by
    intro target
    simp only [zeroRest, zeroStart, hwidth]
  simp only [placeSegment, htarget, hzero]

theorem placeEntry_congr (image : Image) (index : Nat)
    (hreaches : ph.isLoadable = true → loader.width.reaches ph.physicalAddress = true) :
    loader'.placeEntry image index ph = loader.placeEntry image index ph := by
  unfold placeEntry
  split
  case isTrue hload => exact placeSegment_congr loader' hwidth image index (hreaches hload)
  case isFalse => rfl

/-- Loaders of one pointer width place a table alike if it passed the checks. -/
theorem placeEntries_congr :
    ∀ {left index : Nat} {machine : Machine},
      loader.checkEntries (.file file) machine.memory.ram table left index = .ok () →
      loader'.placeEntries (.file file) table left index machine =
        loader.placeEntries (.file file) table left index machine
  | 0, _, _, _ => rfl
  | left + 1, index, machine, h => by
    obtain ⟨ph, hread, hsegment, hrest⟩ := checkEntries_succ_eq_ok_iff.mp h
    rw [placeEntries_of_read hread, placeEntries_of_read hread,
      placeEntry_congr loader' hwidth _ index fun hload => reaches_of_checkSegment (hsegment hload)]
    cases hentry : loader.placeEntry (.file file) index ph machine with
    | error fault between => rw [bind_of_error hentry, bind_of_error hentry]
    | ok _ between =>
      rw [bind_of_ok hentry, bind_of_ok hentry]
      -- A file reads the same whatever was placed, so the checks of the rest still hold.
      apply placeEntries_congr
      rw [← hrest]
      exact checkEntries_congr (Image.shows_file ..) (Image.shows_file ..) table left (index + 1)

end Congr

/-- Only memory can keep a loader from placing a table of a file that passed the checks. -/
theorem placeEntries_of_checked {left index : Nat} {machine after : Machine} {fault : Fault}
    (hchecks : loader.checkEntries (.file file) machine.memory.ram table left index = .ok ())
    (h : loader.placeEntries (.file file) table left index machine = .error fault after) :
    ∃ range, fault = .memory range := by
  refine (checkEntries_of_placeEntries h).resolve_right fun hfails => hfails ?_
  rw [← hchecks]
  exact checkEntries_congr (Image.shows_file ..) (Image.shows_file ..) table left index

/-! ## Strict and trusting loads -/

/-- A strict load of a file that fails for another reason than memory was refused. -/
theorem refused_of_strict {machine after : Machine} {fault : Fault}
    (hstrict : loader.validation = .strict)
    (h : loader.load (.file file) machine = .error fault after)
    (hfault : ∀ range, fault ≠ .memory range) :
    loader.inspect (.file file) machine.memory.ram = .error fault ∧
      after.memory = machine.memory := by
  rcases load_eq_error h with hrefused | ⟨header, entry, hinspect, hplace⟩
  · exact hrefused
  · obtain ⟨-, -, hvet⟩ := inspect_eq_ok_iff.mp hinspect
    have hchecks := checkEntries_of_vet (hvet (by rw [hstrict]; rfl))
    obtain ⟨range, hrange⟩ := placeEntries_of_checked (by exact hchecks) hplace
    exact absurd hrange (hfault range)

/-- A file that a strict loader accepts is loaded like by a trusting one. -/
theorem load_eq_of_accepted {cls : Class} {width : Width} {machine : Machine} {header : Header}
    {entry : Entry}
    (h : inspect ⟨cls, width, .strict⟩ (.file file) machine.memory.ram = .ok (header, entry)) :
    load ⟨cls, width, .strict⟩ (.file file) machine =
      load ⟨cls, width, .trusted⟩ (.file file) machine := by
  obtain ⟨hheader, hentry, hvet⟩ := inspect_eq_ok_iff.mp h
  have htrusted : inspect ⟨cls, width, .trusted⟩ (.file file) machine.memory.ram =
      .ok (header, entry) := inspect_eq_ok_iff.mpr ⟨hheader, hentry, (nomatch ·)⟩
  have hwidth : (Loader.mk cls width .trusted).width = (Loader.mk cls width .strict).width := rfl
  have hchecks := checkEntries_of_vet (hvet rfl)
  rw [load_of_accepted h, load_of_accepted htrusted, bind_apply, bind_apply,
    placeEntries_congr _ hwidth (by exact hchecks)]

/-- A strict load of a file either fails for another reason than memory and leaves memory as it
was, or it returns or fails in memory, and is the same run as that of a trusting loader. -/
theorem strict_refuses_or_trusts (cls : Class) (width : Width) (file : Bytes) (machine : Machine) :
    (∃ fault after, load ⟨cls, width, .strict⟩ (.file file) machine = .error fault after ∧
        (∀ range, fault ≠ .memory range) ∧ after.memory = machine.memory) ∨
      ((∃ entry after, load ⟨cls, width, .strict⟩ (.file file) machine = .ok entry after) ∨
          ∃ range after,
            load ⟨cls, width, .strict⟩ (.file file) machine = .error (.memory range) after) ∧
        load ⟨cls, width, .strict⟩ (.file file) machine =
          load ⟨cls, width, .trusted⟩ (.file file) machine := by
  rcases hload : load ⟨cls, width, .strict⟩ (.file file) machine with
    ⟨entry, after⟩ | ⟨fault, after⟩
  · obtain ⟨header, hinspect, -⟩ := load_eq_ok hload
    refine Or.inr ⟨Or.inl ⟨entry, after, rfl⟩, ?_⟩
    rw [← hload, load_eq_of_accepted hinspect]
  by_cases hfault : ∃ range, fault = .memory range
  · obtain ⟨range, rfl⟩ := hfault
    refine Or.inr ⟨Or.inr ⟨range, after, rfl⟩, ?_⟩
    rcases load_eq_error hload with ⟨hrefused, -⟩ | ⟨header, entry, hinspect, -⟩
    · exact absurd hrefused (inspect_sparesMemory _ _ _).ne_memory
    · rw [← hload, load_eq_of_accepted hinspect]
  · have hother : ∀ range, fault ≠ .memory range := fun range hrange => hfault ⟨range, hrange⟩
    obtain ⟨-, hmemory⟩ := refused_of_strict rfl hload hother
    exact Or.inl ⟨fault, after, rfl, hother, hmemory⟩

end Loader

end Chainload.Elf
