import Chainload.Proofs.Strictness

/-!
# Files that a loader rejects

A loader rejects a file before it writes anything (`Loader.Rejects`): its header is missing, cut
short or without an entry point, or a strict loader finds a fault in what else it says. These are
the ways in which an inspection fails (`Loader.inspect_eq_error_iff`).

A missing magic and a missing entry point are told apart from everything else: no check of a strict
loader reports either (`Loader.not_atStart_of_vet`).
-/

namespace Chainload.Elf

/-! ## Faults that only the start of a file causes -/

/-- The fault is that the magic or the entry point is missing. -/
def Fault.AtStart (fault : Fault) : Prop :=
  fault = .notElf ∨ fault = .entryZero

theorem Fault.not_atStart_image (range : Image.OutOfBounds) : ¬(Fault.image range).AtStart :=
  (nomatch ·)

namespace Loader

variable {loader : Loader} {file : Bytes} {table : Table} {header : Header} {index : Nat}
  {fault : Fault}

theorem error_of_bind {ε α β : Type} {first : Except ε α} {f : α → Except ε β} {e : ε}
    (h : first >>= f = .error e) : first = .error e ∨ ∃ a, first = .ok a ∧ f a = .error e := by
  cases first with
  | error e' =>
    cases h
    exact Or.inl rfl
  | ok a => exact Or.inr ⟨a, rfl, h⟩

theorem not_atStart_of_checkIdent (h : header.checkIdent = .error fault) : ¬fault.AtStart := by
  unfold Header.checkIdent at h
  split at h
  · cases h
    exact (nomatch ·)
  · split at h
    · cases h
      exact (nomatch ·)
    · split at h
      · cases h
        exact (nomatch ·)
      · cases h

theorem not_atStart_of_checkSegment {image : Image}
    (h : loader.checkSegment image index ph = .error fault) : ¬fault.AtStart := by
  unfold checkSegment at h
  split at h
  · cases h
    exact (nomatch ·)
  · split at h
    · cases h
      exact (nomatch ·)
    · split at h
      · cases h
        exact (nomatch ·)
      · split at h
        · cases h
        · cases h
          exact (nomatch ·)

theorem not_atStart_of_checkEntries {ram : Ram} :
    ∀ {left index : Nat}, loader.checkEntries (.file file) ram table left index = .error fault →
      ¬fault.AtStart
  | 0, _, h => by cases h
  | left + 1, index, h => by
    rw [checkEntries, Table.read_of_shows (Image.shows_file file ram)] at h
    cases hentry : table.entry? file index with
    | none =>
      rw [hentry] at h
      cases h
      exact Fault.not_atStart_image _
    | some ph =>
      simp only [hentry, ok_bind] at h
      cases hload : ph.isLoadable with
      | false =>
        rw [hload] at h
        exact not_atStart_of_checkEntries h
      | true =>
        rw [hload] at h
        rcases error_of_bind h with hsegment | ⟨_, -, hrest⟩
        · exact not_atStart_of_checkSegment hsegment
        · exact not_atStart_of_checkEntries hrest

/-- What a strict loader finds in a file with a header is neither that the file is not ELF nor that
it has no entry point. -/
theorem not_atStart_of_vet {ram : Ram} (h : loader.vet (.file file) ram header = .error fault) :
    ¬fault.AtStart := by
  unfold vet at h
  rcases error_of_bind h with hident | ⟨_, -, h⟩
  · exact not_atStart_of_checkIdent hident
  cases hreaches : loader.width.reaches header.entry with
  | false =>
    rw [hreaches] at h
    cases h
    exact (nomatch ·)
  | true =>
    cases hcontains : (Image.file file).contains header.tableOffset header.tableSize with
    | false =>
      rw [hreaches, hcontains] at h
      cases h
      exact Fault.not_atStart_image _
    | true =>
      rw [hreaches, hcontains] at h
      exact not_atStart_of_checkEntries h

/-! ## What is rejected -/

/-- A loader rejects a file for what its header says, or for what a strict loader finds in it. -/
inductive Rejects (loader : Loader) (file : Bytes) (ram : Ram) : Fault → Prop
  /-- The file does not begin with the magic. -/
  | noMagic (h : file.slice 0 4 ≠ magic) : Rejects loader file ram .notElf
  /-- The file ends inside its header. -/
  | shortHeader (hmagic : file.slice 0 4 = magic)
    (hlen : file.length < loader.cls.headerSize.toNat) :
    Rejects loader file ram (.image ⟨0, loader.cls.headerSize⟩)
  /-- The header has no entry point. -/
  | noEntry {header : Header} (h : Header.ofFile? loader.cls file = some header)
    (hentry : header.entry = 0) : Rejects loader file ram .entryZero
  /-- A strict loader finds a fault. -/
  | unsound {header : Header} {fault : Fault} (h : Header.ofFile? loader.cls file = some header)
    (hentry : header.entry ≠ 0) (hstrict : loader.validation = .strict)
    (hvet : loader.vet (.file file) ram header = .error fault) : Rejects loader file ram fault

theorem ofAddress?_eq_none_iff {address : UInt64} :
    Entry.ofAddress? address = none ↔ address = 0 := by
  unfold Entry.ofAddress?
  split
  case isTrue hne => exact iff_of_false (Option.some_ne_none _) hne
  case isFalse hzero => exact iff_of_true rfl (Classical.not_not.mp hzero)

theorem ofImage_of_ofFile? {ram : Ram} (h : Header.ofFile? loader.cls file = some header) :
    Header.ofImage (.file file) ram loader.cls = .ok header := by
  unfold Header.ofFile? at h
  split at h
  case isTrue hstart =>
    cases h
    rw [ofImage_of_shows (Image.shows_file file ram), if_pos hstart.1, if_pos hstart.2]
  case isFalse => cases h

theorem magic_of_ofFile? {cls : Class} (h : Header.ofFile? cls file = some header) :
    file.slice 0 4 = magic := by
  unfold Header.ofFile? at h
  split at h
  case isTrue hstart => exact hstart.1
  case isFalse => cases h

/-- The inspection of a file fails exactly if the file is rejected. -/
theorem inspect_eq_error_iff {ram : Ram} :
    loader.inspect (.file file) ram = .error fault ↔ loader.Rejects file ram fault := by
  unfold inspect
  constructor
  · intro h
    rcases error_of_bind h with hread | ⟨header, hread, h⟩
    · rw [ofImage_of_shows (Image.shows_file file ram)] at hread
      split at hread
      case isFalse hmagic =>
        cases hread
        exact .noMagic hmagic
      case isTrue hmagic =>
        split at hread
        case isTrue => cases hread
        case isFalse hlen =>
          cases hread
          exact .shortHeader hmagic (Nat.not_le.mp hlen)
    have hheader := ofFile?_of_ofImage (Image.shows_file file ram) hread
    cases hentry : Entry.ofAddress? header.entry with
    | none =>
      simp only [hentry] at h
      cases h
      exact .noEntry hheader (ofAddress?_eq_none_iff.mp hentry)
    | some entry =>
      simp only [hentry] at h
      have hne : header.entry ≠ 0 := fun hzero => by
        rw [ofAddress?_eq_none_iff.mpr hzero] at hentry
        cases hentry
      cases hvalidation : loader.validation with
      | trusted =>
        rw [hvalidation] at h
        cases h
      | strict =>
        rw [hvalidation] at h
        rcases error_of_bind h with hvet | ⟨_, -, h⟩
        · exact .unsound hheader hne hvalidation hvet
        · cases h
  · intro h
    cases h with
    | noMagic hmagic =>
      rw [ofImage_of_shows (Image.shows_file file ram), if_neg hmagic]
      rfl
    | shortHeader hmagic hlen =>
      rw [ofImage_of_shows (Image.shows_file file ram), if_pos hmagic, if_neg (Nat.not_le.mpr hlen)]
      rfl
    | noEntry hheader hzero =>
      rw [ofImage_of_ofFile? hheader, ok_bind]
      simp only [ofAddress?_eq_none_iff.mpr hzero]
      rfl
    | unsound hheader hne hstrict hvet =>
      have hentry : Entry.ofAddress? _ = some _ := dif_pos hne
      rw [ofImage_of_ofFile? hheader, ok_bind]
      simp only [hentry, hstrict, hvet]
      rfl

/-- A rejected file is not ELF exactly if it does not begin with the magic. -/
theorem Rejects.notElf_iff {ram : Ram} (h : loader.Rejects file ram fault) :
    fault = .notElf ↔ file.slice 0 4 ≠ magic := by
  cases h with
  | noMagic hmagic => exact iff_of_true rfl hmagic
  | shortHeader hmagic => exact iff_of_false (nomatch ·) (Classical.not_not.mpr hmagic)
  | noEntry hheader =>
    exact iff_of_false (nomatch ·) (Classical.not_not.mpr (magic_of_ofFile? hheader))
  | unsound hheader hne hstrict hvet =>
    exact iff_of_false (fun hfault => not_atStart_of_vet hvet (Or.inl hfault))
      (Classical.not_not.mpr (magic_of_ofFile? hheader))

/-- A rejected file has no entry point exactly if its header says so. -/
theorem Rejects.entryZero_iff {ram : Ram} (h : loader.Rejects file ram fault) :
    fault = .entryZero ↔
      ∃ header, Header.ofFile? loader.cls file = some header ∧ header.entry = 0 := by
  cases h with
  | noMagic hmagic =>
    exact iff_of_false (nomatch ·) fun ⟨_, hheader, _⟩ => hmagic (magic_of_ofFile? hheader)
  | shortHeader hmagic hlen =>
    have hnone : Header.ofFile? loader.cls file = none :=
      if_neg fun hstart => Nat.not_le.mpr hlen hstart.2
    refine iff_of_false (nomatch ·) fun ⟨_, hheader, _⟩ => ?_
    rw [hnone] at hheader
    cases hheader
  | noEntry hheader hzero => exact iff_of_true rfl ⟨_, hheader, hzero⟩
  | unsound hheader hne hstrict hvet =>
    refine iff_of_false (fun hfault => not_atStart_of_vet hvet (Or.inr hfault)) ?_
    rintro ⟨header', hheader', hzero⟩
    cases hheader.symm.trans hheader'
    exact hne hzero

end Loader

end Chainload.Elf
