import Chainload.Address.Width
import Chainload.Proofs.MapRecords

/-!
# Calls for the entries of a memory map

A walk is asked for entries call by call (`Walk.after`, `Walk.item?`). It stays in its buffer,
passes a whole record with every entry it gives, and stands still behind the last one. Call `k`
gives the entry with the index `k` of the map (`Walk.item?_eq`), so a loop over a walk ends,
whatever its body does (`Walk.loop_eq`).

`Walk.call?` is a call in the arithmetic of a machine. It has no result if something is looked up
outside the bytes it is looked up in, or if the new offset is not a machine word. Neither happens
(`Walk.exists_call?`). A map can end in several ways (`Ending`), of which one moves the walk; behind
each of them every later call ends as well (`Walk.call?_of_ending`).
-/

namespace Chainload

namespace Bytes

/-- The bytes from `start` up to `stop`, if all of them are there. -/
def cut? (bytes : Bytes) (start stop : Nat) : Option Bytes :=
  if start ≤ stop ∧ stop ≤ bytes.length then some (bytes.slice start (stop - start)) else none

/-- The number that the first `count` bytes spell, each of them looked up by its index. -/
def number? (bytes : Bytes) (count : Nat) : Option Nat :=
  ((List.range count).mapM (bytes[·]?)).map toNat

variable {bytes : Bytes} {start stop count : Nat}

theorem cut?_of_le (h : start ≤ stop) (hstop : stop ≤ bytes.length) :
    bytes.cut? start stop = some (bytes.slice start (stop - start)) :=
  if_pos ⟨h, hstop⟩

theorem cut?_of_lt (h : bytes.length < stop) : bytes.cut? start stop = none :=
  if_neg fun hinside => Nat.not_lt.mpr hinside.2 h

theorem mapM_getElem?_range (h : count ≤ bytes.length) :
    (List.range count).mapM (bytes[·]?) = some (bytes.take count) := by
  induction count with
  | zero => rfl
  | succ count ih =>
    rw [List.range_succ, List.mapM_append, ih (Nat.le_of_succ_le h), List.mapM_cons, List.mapM_nil,
      List.getElem?_eq_getElem h, ← List.take_append_getElem h]
    rfl

theorem number?_of_length (h : bytes.length = count) :
    bytes.number? count = some (toNat bytes) := by
  rw [number?, mapM_getElem?_range (Nat.le_of_eq h.symm), Option.map_some,
    List.take_of_length_le (Nat.le_of_eq h)]

/-- The number that `count` bytes from `start` on spell, cut out and looked up. -/
def numberAt? (bytes : Bytes) (start count : Nat) : Option Nat := do
  (← bytes.cut? start (start + count)).number? count

theorem numberAt?_of_le (h : start + count ≤ bytes.length) :
    bytes.numberAt? start count = some (toNat (bytes.slice start count)) := by
  rw [numberAt?, cut?_of_le (Nat.le_add_right ..) h, Nat.add_sub_cancel_left]
  exact number?_of_length (length_slice h)

end Bytes

namespace Multiboot.MemoryMap

namespace Walk

variable {walk : Walk} {entry : MapEntry}

/-! ## One call -/

/-- The walk has not passed the end of its buffer. -/
def Within (walk : Walk) : Prop :=
  walk.offset ≤ walk.bytes.length

/-- The walk at the end of its buffer. -/
def atEnd (walk : Walk) : Walk :=
  { walk with offset := walk.bytes.length }

/-- The walk with `count` more bytes behind it. -/
def skip (walk : Walk) (count : Nat) : Walk :=
  { walk with offset := walk.offset + count }

theorem within_start (bytes : Bytes) : (start bytes).Within :=
  Nat.zero_le _

theorem length_rest (walk : Walk) : walk.rest.length = walk.bytes.length - walk.offset :=
  List.length_drop

theorem rest_atEnd (walk : Walk) : walk.atEnd.rest = [] :=
  List.drop_length

/-- All that a call can do: it passes the record in front of the walk, or it gives nothing and
leaves the walk where it is or takes it to the end. -/
theorem next_cases (walk : Walk) :
    (∃ (record : Record) (tail : Bytes), record.encode ++ tail = walk.rest ∧
      walk.next = (some record.entry, walk.skip record.encode.length)) ∨
    walk.next = (none, walk) ∨ walk.next = (none, walk.atEnd) := by
  cases hread : Record.read? walk.rest with
  | some found =>
    obtain ⟨record, tail⟩ := found
    have hrecord := Record.encode_append_of_read? hread
    refine .inl ⟨record, tail, hrecord, Prod.ext (next_of_record hrecord).1 ?_⟩
    have hcomplete := record.not_noRecord_encode_append tail
    have hsize := record.sizeField_encode_append tail
    rw [hrecord] at hcomplete hsize
    simp only [NoRecord, not_or] at hcomplete
    rw [next_eq, if_neg hcomplete.1, if_neg hcomplete.2.1, if_neg (by omega), hsize, skip,
      record.length_encode, Nat.add_assoc]
  | none =>
    have hnone := Record.read?_eq_none_iff.mp hread
    rw [next_eq]
    split
    · exact .inr (.inl rfl)
    split
    · exact .inr (.inr rfl)
    split
    · exact .inr (.inl rfl)
    · unfold NoRecord at hnone
      omega

theorem next_atEnd (walk : Walk) : walk.atEnd.next = (none, walk.atEnd) := by
  rw [next_eq, if_pos (by rw [rest_atEnd]; decide)]

/-- Where a call gives nothing, the walk stands still from then on. -/
theorem next_of_none (h : walk.next.1 = none) : walk.next.2.next = (none, walk.next.2) := by
  obtain ⟨record, tail, -, hnext⟩ | hnext | hnext := walk.next_cases
  · rw [hnext] at h
    cases h
  · rw [hnext]
    exact hnext
  · rw [hnext]
    exact walk.next_atEnd

/-- A call that gives an entry passes the record of the entry, which lies in the buffer. -/
theorem exists_record_of_next (h : walk.next.1 = some entry) :
    ∃ record : Record, record.entry = entry ∧
      walk.bytes.slice walk.offset record.encode.length = record.encode ∧
      walk.next.2 = walk.skip record.encode.length := by
  obtain ⟨record, tail, hrecord, hnext⟩ | hnext | hnext := walk.next_cases
  · refine ⟨record, ?_, ?_, congrArg Prod.snd hnext⟩
    · rw [hnext] at h
      exact Option.some.inj h
    · rw [Bytes.slice, ← rest, ← hrecord, List.take_left]
  · rw [hnext] at h
    cases h
  · rw [hnext] at h
    cases h

theorem within_next (h : walk.Within) : walk.next.2.Within := by
  obtain ⟨record, tail, hrecord, hnext⟩ | hnext | hnext := walk.next_cases
  · have hlength := congrArg List.length hrecord
    rw [List.length_append, length_rest] at hlength
    have hpositive := record.length_encode
    rw [hnext]
    show walk.offset + record.encode.length ≤ walk.bytes.length
    omega
  · rwa [hnext]
  · rw [hnext]
    exact Nat.le_refl _

theorem head?_entries (walk : Walk) : walk.entries.head? = walk.next.1 := by
  rw [entries_eq]
  cases walk.next.1 <;> rfl

/-- A call takes the first entry off those that are still to be read. -/
theorem entries_next (walk : Walk) : walk.next.2.entries = walk.entries.tail := by
  rw [entries_eq walk]
  cases hentry : walk.next.1 with
  | none => rw [entries_eq, next_of_none hentry, List.tail_nil]
  | some entry => rfl

/-! ## Call by call -/

/-- The walk behind a number of calls. -/
def after (walk : Walk) : (calls : Nat) → Walk
  | 0 => walk
  | calls + 1 => (walk.after calls).next.2

/-- What call `k` gives, the first one being call 0. -/
def item? (walk : Walk) (k : Nat) : Option MapEntry :=
  (walk.after k).next.1

theorem bytes_after (walk : Walk) (calls : Nat) : (walk.after calls).bytes = walk.bytes := by
  induction calls with
  | zero => rfl
  | succ calls ih => rw [after, bytes_next, ih]

theorem within_after (h : walk.Within) (calls : Nat) : (walk.after calls).Within := by
  induction calls with
  | zero => exact h
  | succ calls ih => exact within_next ih

theorem entries_after (walk : Walk) (calls : Nat) :
    (walk.after calls).entries = walk.entries.drop calls := by
  induction calls with
  | zero => rfl
  | succ calls ih => rw [after, entries_next, ih, List.tail_drop]

/-- The calls give the entries by their index, and nothing from the last one on. -/
theorem item?_eq (walk : Walk) (k : Nat) : walk.item? k = walk.entries[k]? := by
  rw [item?, ← head?_entries, entries_after, List.head?_drop]

/-- Behind a call that gives nothing no call moves the walk. -/
theorem after_of_none {k : Nat} (h : walk.item? k = none) {later : Nat} (hlater : k < later) :
    walk.after later = walk.after (k + 1) ∧
      (walk.after later).next = (none, walk.after later) := by
  induction later, hlater using Nat.le_induction with
  | base => exact ⟨rfl, next_of_none h⟩
  | succ later hlater ih =>
    have hstay : walk.after (later + 1) = walk.after later := congrArg Prod.snd ih.2
    rw [hstay]
    exact ih

/-- Every call that gives an entry moves the walk by the least size of a record. -/
theorem le_offset_after {calls : Nat} (h : calls ≤ walk.entries.length) :
    walk.offset + 24 * calls ≤ (walk.after calls).offset := by
  induction calls with
  | zero => exact Nat.le_refl _
  | succ calls ih =>
    have hitem : walk.item? calls = some (walk.entries[calls]) := by
      rw [item?_eq, List.getElem?_eq_getElem h]
    have hbefore := ih (Nat.le_of_succ_le h)
    have hstep := (offset_next hitem).1
    simp only [leastSize] at hstep
    show walk.offset + 24 * (calls + 1) ≤ (walk.after calls).next.2.offset
    omega

theorem length_entries_le (h : walk.Within) :
    walk.offset + 24 * walk.entries.length ≤ walk.bytes.length := by
  have hlast := within_after h walk.entries.length
  rw [Within, bytes_after] at hlast
  exact Nat.le_trans (le_offset_after (Nat.le_refl _)) hlast

end Walk

theorem length_entries_le_div (bytes : Bytes) : (entries bytes).length ≤ bytes.length / 24 := by
  have hlength := Walk.length_entries_le (Walk.within_start bytes)
  rw [Nat.le_div_iff_mul_le (by decide), entries]
  simp only [Walk.start] at hlength ⊢
  omega

/-! ## Loops -/

namespace Walk

section Loop

variable {m : Type → Type} [Monad m] {σ : Type}

/-- A loop passes entries to its body until a call gives none or the body breaks off. It has no
result if the limit of calls is reached before. -/
def loop (walk : Walk) (body : MapEntry → σ → m (ForInStep σ)) : (limit : Nat) → σ → m (Option σ)
  | 0, _ => pure none
  | limit + 1, state =>
    match walk.next with
    | (none, _) => pure (some state)
    | (some entry, behind) => do
      match ← body entry state with
      | .done state => pure (some state)
      | .yield state => behind.loop body limit state

/-- With one call more than there are entries a loop ends, and it is the loop over the entries. -/
theorem loop_eq [LawfulMonad m] (body : MapEntry → σ → m (ForInStep σ)) :
    ∀ {limit : Nat} {walk : Walk}, walk.entries.length < limit → ∀ state : σ,
      walk.loop body limit state = some <$> forIn walk.entries state body
  | limit + 1, walk, h, state => by
    rw [entries_eq] at h ⊢
    rw [loop]
    generalize walk.next = answer at h ⊢
    obtain ⟨item, behind⟩ := answer
    cases item with
    | none => simp
    | some entry =>
      simp only [List.forIn_cons, map_bind]
      refine bind_congr fun step => ?_
      cases step with
      | done state => simp
      | yield state => exact loop_eq body (Nat.lt_of_succ_lt_succ h) state

end Loop

end Walk

/-! ## Machine arithmetic -/

/-- Why a call gives no entry. -/
inductive Ending
  /-- The offset lies behind the end of the buffer. -/
  | outside
  /-- There is no room for a size field. -/
  | short
  /-- The size is too small for the fields. -/
  | undersized
  /-- The end of the record is not a machine word. -/
  | overflowing
  /-- The record does not fit into the buffer. -/
  | spilling
  deriving DecidableEq, Repr

/-- Why the next call gives no entry either. Behind a record that is too small nothing is left. -/
def Ending.again : Ending → Ending
  | .undersized => .short
  | ending => ending

/-- The entry that the bytes after a size field spell, each of them looked up. -/
def decodeFields? (record : Bytes) : Option MapEntry := do
  let base ← record.numberAt? 0 8
  let length ← record.numberAt? 8 8
  let number ← record.numberAt? 16 4
  return ⟨.ofNat base, .ofNat length, .ofNumber (.ofNat number)⟩

theorem decodeFields?_of_le {record : Bytes} (h : leastSize ≤ record.length) :
    decodeFields? record = some (decodeEntry record) := by
  unfold leastSize at h
  rw [decodeFields?, Bytes.numberAt?_of_le (by omega), Bytes.numberAt?_of_le (by omega),
    Bytes.numberAt?_of_le (by omega)]
  rfl

namespace Walk

variable {walk behind : Walk} {machine : Width} {ending : Ending}

/-- The walk as an ending leaves it. -/
def endedBy (walk : Walk) : Ending → Walk
  | .undersized => walk.atEnd
  | _ => walk

/-- The record in front of the walk without its size field, and the size of all of it; or why there
is none. -/
def recordAhead? (machine : Width) (walk : Walk) : Option (Except Ending (Bytes × Nat)) :=
  match walk.bytes.cut? walk.offset walk.bytes.length with
  | none => some (.error .outside)
  | some rest =>
    match rest.cut? 0 4 with
    | none => some (.error .short)
    | some field => do
      let size ← field.number? 4
      if size < leastSize then return .error .undersized
      match machine.word? (size + 4) with
      | none => return .error .overflowing
      | some stop =>
        match rest.cut? 4 stop with
        | none => return .error .spilling
        | some record => return .ok (record, stop)

/-- The next entry, or why there is none, and the walk behind it. -/
def call? (machine : Width) (walk : Walk) : Option (Except Ending MapEntry × Walk) := do
  match ← walk.recordAhead? machine with
  | .error ending => return (.error ending, walk.endedBy ending)
  | .ok (record, size) =>
    let offset ← machine.word? (walk.offset + size)
    let entry ← decodeFields? record
    return (.ok entry, { walk with offset })

/-- In front of a walk that has not passed the end of its buffer no lookup fails, and the checks
are made in this order. -/
theorem recordAhead?_eq (h : walk.Within) :
    walk.recordAhead? machine = some (
      if walk.rest.length < 4 then .error .short
      else if sizeField walk.rest < leastSize then .error .undersized
      else if machine.highest.toNat < sizeField walk.rest + 4 then .error .overflowing
      else if walk.rest.length < 4 + sizeField walk.rest then .error .spilling
      else .ok (walk.rest.slice 4 (sizeField walk.rest), sizeField walk.rest + 4)) := by
  have hrest : walk.bytes.cut? walk.offset walk.bytes.length = some walk.rest := by
    rw [Bytes.cut?_of_le h (Nat.le_refl _), Bytes.slice, ← rest, ← length_rest, List.take_length]
  rw [recordAhead?, hrest]
  dsimp only
  by_cases hshort : walk.rest.length < 4
  · rw [if_pos hshort, Bytes.cut?_of_lt hshort]
  have hfield : 0 + 4 ≤ walk.rest.length := by omega
  have hsize : (walk.rest.slice 0 4).number? 4 = some (sizeField walk.rest) :=
    Bytes.number?_of_length (Bytes.length_slice hfield)
  rw [if_neg hshort, Bytes.cut?_of_le (Nat.zero_le 4) hfield]
  dsimp only
  rw [hsize, Option.bind_eq_bind, Option.bind_some]
  by_cases hsmall : sizeField walk.rest < leastSize
  · rw [if_pos hsmall, if_pos hsmall]
    rfl
  rw [if_neg hsmall, if_neg hsmall]
  by_cases hword : machine.highest.toNat < sizeField walk.rest + 4
  · rw [if_pos hword, Width.word?, if_neg (Nat.not_le.mpr hword)]
    rfl
  rw [if_neg hword, Width.word?, if_pos (Nat.not_lt.mp hword)]
  dsimp only
  by_cases hspill : walk.rest.length < 4 + sizeField walk.rest
  · rw [if_pos hspill, Bytes.cut?_of_lt (by omega)]
    rfl
  · rw [if_neg hspill, Bytes.cut?_of_le (by omega) (by omega), Nat.add_sub_cancel]
    rfl

/-- A size has 32 bits, so a machine that cannot hold the end of a record has no more. -/
theorem eq_bits32_of_overflow {bytes : Bytes}
    (h : machine.highest.toNat < sizeField bytes + 4) : machine = .bits32 := by
  have hsize := sizeField_lt bytes
  cases machine with
  | bits32 => rfl
  | bits64 =>
    have hhighest : Width.bits64.highest.toNat = 0xFFFF_FFFF_FFFF_FFFF := rfl
    have hlimit : UInt32.size = 0x1_0000_0000 := rfl
    omega

/-- In a buffer whose length is a machine word a call has a result, and it is that of `next`. The
offset is never behind the end, and 64 bits hold the end of every record. -/
theorem exists_call? (h : walk.Within) (hlength : walk.bytes.length ≤ machine.highest.toNat) :
    ∃ answer, walk.call? machine = some (answer, walk.next.2) ∧ answer.toOption = walk.next.1 ∧
      answer ≠ .error .outside ∧ (answer = .error .overflowing → machine = .bits32) := by
  have hrest := walk.length_rest
  rw [call?, recordAhead?_eq h, next_eq, Option.bind_eq_bind, Option.bind_some]
  by_cases hshort : walk.rest.length < 4
  · rw [if_pos hshort, if_pos hshort]
    exact ⟨_, rfl, rfl, nofun, nofun⟩
  rw [if_neg hshort, if_neg hshort]
  by_cases hsmall : sizeField walk.rest < leastSize
  · rw [if_pos hsmall, if_pos hsmall]
    exact ⟨_, rfl, rfl, nofun, nofun⟩
  rw [if_neg hsmall, if_neg hsmall]
  by_cases hword : machine.highest.toNat < sizeField walk.rest + 4
  · -- A record that ends behind all addresses ends behind the buffer.
    rw [if_pos hword, if_pos (by omega)]
    exact ⟨_, rfl, rfl, nofun, fun _ => eq_bits32_of_overflow hword⟩
  rw [if_neg hword]
  by_cases hspill : walk.rest.length < 4 + sizeField walk.rest
  · rw [if_pos hspill, if_pos hspill]
    exact ⟨_, rfl, rfl, nofun, nofun⟩
  · have hstop : walk.offset + (sizeField walk.rest + 4) ≤ machine.highest.toNat := by omega
    have hfields : (walk.rest.slice 4 (sizeField walk.rest)).length = sizeField walk.rest :=
      Bytes.length_slice (Nat.not_lt.mp hspill)
    rw [if_neg hspill, if_neg hspill]
    dsimp only
    rw [Width.word?, if_pos hstop, decodeFields?_of_le (by omega), Nat.add_assoc, Nat.add_comm 4]
    exact ⟨_, rfl, rfl, nofun, nofun⟩

/-- Behind a call that ends, the next one ends for the same reason, or for want of a size field
where the walk was taken to the end. It leaves the walk where it is. -/
theorem call?_of_ending (h : walk.call? machine = some (.error ending, behind)) :
    behind.call? machine = some (.error ending.again, behind) := by
  obtain ⟨answer, -, hcall⟩ := Option.bind_eq_some_iff.mp h
  cases answer with
  | error reason =>
    obtain ⟨rfl, rfl⟩ : reason = ending ∧ walk.endedBy reason = behind := by simpa using hcall
    cases reason with
    | undersized =>
      show walk.atEnd.call? machine = some (.error .short, walk.atEnd)
      rw [call?, recordAhead?_eq (Nat.le_refl _), rest_atEnd]
      rfl
    | outside | short | overflowing | spilling => exact h
  | ok found =>
    obtain ⟨offset, -, hcall⟩ := Option.bind_eq_some_iff.mp hcall
    obtain ⟨entry, -, hcall⟩ := Option.bind_eq_some_iff.mp hcall
    cases hcall

/-- Every call can be carried out and gives what `item?` says. If it ends, all later calls find the
walk that it leaves, and leave it there. -/
theorem call?_after (h : walk.Within) (hlength : walk.bytes.length ≤ machine.highest.toNat)
    (k : Nat) : ∃ answer, (walk.after k).call? machine = some (answer, walk.after (k + 1)) ∧
      answer.toOption = walk.item? k ∧
      ∀ ending, answer = .error ending →
        ending ≠ .outside ∧ (ending = .overflowing → machine = .bits32) ∧
        ∀ later, k < later →
          (walk.after later).call? machine = some (.error ending.again, walk.after (k + 1)) := by
  obtain ⟨answer, hcall, hitem, hinside, hword⟩ :=
    exists_call? (within_after h k) (by rwa [bytes_after])
  refine ⟨answer, hcall, hitem, ?_⟩
  rintro ending rfl
  refine ⟨fun houtside => hinside (congrArg _ houtside), fun hover => hword (congrArg _ hover),
    fun later hlater => ?_⟩
  rw [(after_of_none hitem.symm hlater).1]
  exact call?_of_ending hcall

end Walk

/-- A walk through a buffer stays in it, and every entry that a call gives is spelled by a record
of at least 24 bytes that lies in the buffer and that the call passes. Behind a call that gives
nothing all calls give nothing and the walk stands still. Call `k` gives the entry with the index
`k` of the map, which has no more of them than the buffer has room for. So a loop over a walk ends
after that many calls and one more, whatever its body does and wherever the walk stands.

On a machine whose words hold the length of the buffer every call can be carried out. For each way
in which the map can end, later calls end in that way too, or for want of a size field. -/
theorem calls_end_for_good (bytes : Bytes) :
    (∀ k, ((Walk.start bytes).after k).offset ≤ bytes.length) ∧
    (∀ k entry, (Walk.start bytes).item? k = some entry →
      ∃ record : Record, record.entry = entry ∧ 24 ≤ record.encode.length ∧
        bytes.slice ((Walk.start bytes).after k).offset record.encode.length = record.encode ∧
        ((Walk.start bytes).after (k + 1)).offset =
          ((Walk.start bytes).after k).offset + record.encode.length) ∧
    (∀ k, (Walk.start bytes).item? k = none → ∀ later, k < later →
      (Walk.start bytes).item? later = none ∧
        (Walk.start bytes).after later = (Walk.start bytes).after (k + 1)) ∧
    ((∀ k, (Walk.start bytes).item? k = (entries bytes)[k]?) ∧
      (entries bytes).length ≤ bytes.length / 24) ∧
    (∀ {m : Type → Type} [Monad m] [LawfulMonad m] {σ : Type}
      (body : MapEntry → σ → m (ForInStep σ)) (state : σ) (k : Nat),
      ((Walk.start bytes).after k).loop body (bytes.length / 24 + 1) state =
        some <$> forIn ((entries bytes).drop k) state body) ∧
    ∀ machine : Width, bytes.length ≤ machine.highest.toNat → ∀ k, ∃ answer,
      ((Walk.start bytes).after k).call? machine =
          some (answer, (Walk.start bytes).after (k + 1)) ∧
        answer.toOption = (Walk.start bytes).item? k ∧
        ∀ ending, answer = .error ending →
          ending ≠ .outside ∧ (ending = .overflowing → machine = .bits32) ∧
          ∀ later, k < later → ((Walk.start bytes).after later).call? machine =
            some (.error ending.again, (Walk.start bytes).after (k + 1)) := by
  have hwithin := Walk.within_start bytes
  refine ⟨fun k => ?_, fun k entry hitem => ?_, fun k hitem later hlater => ?_,
    ⟨fun k => Walk.item?_eq _ k, length_entries_le_div bytes⟩, fun body state k => ?_,
    fun machine hlength k => Walk.call?_after hwithin hlength k⟩
  · have hk := Walk.within_after hwithin k
    rwa [Walk.Within, Walk.bytes_after] at hk
  · obtain ⟨record, hentry, hslice, hnext⟩ := Walk.exists_record_of_next hitem
    rw [Walk.bytes_after] at hslice
    refine ⟨record, hentry, ?_, hslice, congrArg Walk.offset hnext⟩
    rw [record.length_encode, record.length_fields, leastSize]
    omega
  · obtain ⟨hstay, hnone⟩ := Walk.after_of_none hitem hlater
    exact ⟨congrArg Prod.fst hnone, hstay⟩
  · have hlimit : ((Walk.start bytes).after k).entries.length < bytes.length / 24 + 1 := by
      have hcount := length_entries_le_div bytes
      rw [entries] at hcount
      rw [Walk.entries_after, List.length_drop]
      omega
    rw [Walk.loop_eq body hlimit, Walk.entries_after, entries]

/-- A record, a size field that is too small, and a record behind it. -/
def dented : Bytes :=
  encodeRecord 0xF_0000 0x1_0000 2 [] ++
    (Bytes.ofNat 4 19 ++ encodeRecord 0x10_0000 0x1000 1 [])

/-- A record whose end is not a word of 32 bits. -/
def immense : Bytes :=
  Bytes.ofNat 4 0xFFFF_FFFC ++ Bytes.zeros 20

/-- The record behind the small size field is never read. A record that is too long ends the map for
two reasons: the end is no word of 32 bits, and with 64 bits it lies behind the buffer. -/
theorem calls_end_for_good_at_flaws :
    (dented.length ≤ Width.bits32.highest.toNat ∧
      (Walk.start dented).item? 0 = some ⟨0xF_0000, 0x1_0000, .reserved⟩ ∧
      (Walk.start dented).item? 1 = none ∧
      (∀ later, 1 < later → (Walk.start dented).item? later = none ∧
        ((Walk.start dented).after later).call? .bits32 =
          some (.error .short, ⟨dented, dented.length⟩)) ∧
      (Walk.start dented).loop (fun entry sum => some (.yield (sum + entry.length))) 3 0 =
        some (some 0x1_0000)) ∧
    immense.length ≤ Width.bits32.highest.toNat ∧
      immense.length ≤ Width.bits64.highest.toNat ∧
      ∀ later, 0 < later →
        ((Walk.start immense).after later).call? .bits32 =
            some (.error .overflowing, .start immense) ∧
          ((Walk.start immense).after later).call? .bits64 =
            some (.error .spilling, .start immense) := by
  obtain ⟨-, -, hgone, -, hloops, hcalls⟩ := calls_end_for_good dented
  obtain ⟨-, -, -, -, -, himmense⟩ := calls_end_for_good immense
  have hnone : (Walk.start dented).item? 1 = none := by rfl
  have hentries : entries dented = [⟨0xF_0000, 0x1_0000, .reserved⟩] :=
    (entries_encode_append ⟨0xF_0000, 0x1_0000, 2, [], by decide⟩ _).trans
      (congrArg _ (entries_eq_nil_iff.mpr (by decide)))
  have hsum := (hloops (fun entry sum => some (.yield (sum + entry.length))) 0 0).trans
    (show _ = some (some 0x1_0000) by rw [hentries]; rfl)
  refine ⟨⟨by decide, by rfl, hnone, fun later hlater => ⟨(hgone 1 hnone later hlater).1, ?_⟩,
    hsum⟩, by decide, by decide, fun later hlater => ⟨?_, ?_⟩⟩
  · obtain ⟨answer, hcall, -, hending⟩ := hcalls .bits32 (by decide) 1
    obtain rfl : Except.error Ending.undersized = answer :=
      congrArg Prod.fst (Option.some.inj hcall)
    exact (hending _ rfl).2.2 later hlater
  · obtain ⟨answer, hcall, -, hending⟩ := himmense .bits32 (by decide) 0
    obtain rfl : Except.error Ending.overflowing = answer :=
      congrArg Prod.fst (Option.some.inj hcall)
    exact (hending _ rfl).2.2 later hlater
  · obtain ⟨answer, hcall, -, hending⟩ := himmense .bits64 (by decide) 0
    obtain rfl : Except.error Ending.spilling = answer := congrArg Prod.fst (Option.some.inj hcall)
    exact (hending _ rfl).2.2 later hlater

end Multiboot.MemoryMap

end Chainload
