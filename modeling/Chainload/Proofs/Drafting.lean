import Chainload.Elf.Draft
import Chainload.Proofs.ViewedLoad

/-!
# Where a draft puts its parts

The image of a draft is a row of parts written over zeros, each at its own offset: the file header,
then for every segment its data and its program header (`Draft.parts`). Of parts that do not meet,
all stay as they were written (`Part.liesIn_putAll`).

In a draft that keeps its fixed parts apart (`Draft.Apart`) no two parts meet, because data without
an offset of its own is appended behind everything that is fixed and in order
(`Draft.Apart.pairwise_parts`). So the image holds every part whole (`Draft.Apart.liesIn_layOut`).
-/

namespace Chainload.Elf

theorem Span.not_meets_of_le {s t : Span} (h : s.start + s.len ≤ t.start) : ¬s.Meets t := by
  rw [Span.meets_iff]
  omega

theorem Span.not_meets_symm {s t : Span} (h : ¬s.Meets t) : ¬t.Meets s :=
  fun ⟨a, ht, hs⟩ => h ⟨a, hs, ht⟩

/-! ## Parts written over an image -/

/-- Bytes that go to an offset of an image. -/
structure Part where
  offset : Nat
  bytes : Bytes

namespace Part

variable {image : Bytes} {part other : Part} {parts : List Part}

/-- The offsets that the part takes up. -/
def span (part : Part) : Span :=
  ⟨part.offset, part.bytes.length⟩

/-- The image with the part written over it. -/
def put (image : Bytes) (part : Part) : Bytes :=
  image.overlay part.offset part.bytes

/-- The part ends within `size` bytes. -/
def EndsBy (part : Part) (size : Nat) : Prop :=
  part.offset + part.bytes.length ≤ size

/-- The image holds the bytes of the part at its offset. -/
def LiesIn (part : Part) (image : Bytes) : Prop :=
  image.slice part.offset part.bytes.length = part.bytes

theorem length_put (h : part.EndsBy image.length) : (put image part).length = image.length :=
  Bytes.length_overlay h

theorem liesIn_put (h : part.EndsBy image.length) : part.LiesIn (put image part) := by
  apply List.ext_getElem?
  intro i
  rw [Bytes.getElem?_slice, put, Bytes.getElem?_overlay h]
  by_cases hi : i < part.bytes.length
  · rw [if_pos hi, if_pos ⟨Nat.le_add_right _ _, Nat.add_lt_add_left hi _⟩, Nat.add_sub_cancel_left]
  · rw [if_neg hi, List.getElem?_eq_none (Nat.le_of_not_lt hi)]

/-- A part stays if another one that does not meet it is written. -/
theorem LiesIn.put (h : part.LiesIn image) (hother : other.EndsBy image.length)
    (hapart : ¬part.span.Meets other.span) : part.LiesIn (other.put image) := by
  apply List.ext_getElem?
  intro i
  rw [← h, Bytes.getElem?_slice, Bytes.getElem?_slice, Part.put, Bytes.getElem?_overlay hother, h]
  by_cases hi : i < part.bytes.length
  · have hin : part.span.Holds (part.offset + i) :=
      ⟨Nat.le_add_right _ _, Nat.add_lt_add_left hi _⟩
    have hout : ¬other.span.Holds (part.offset + i) := fun hholds => hapart ⟨_, hin, hholds⟩
    rw [if_pos hi, if_pos hi]
    exact if_neg hout
  · rw [if_neg hi, if_neg hi]

theorem length_putAll : ∀ {parts : List Part} {image : Bytes},
    (∀ part ∈ parts, part.EndsBy image.length) → (parts.foldl Part.put image).length = image.length
  | [], _, _ => rfl
  | part :: rest, image, h => by
    have hfirst := length_put (h part (List.mem_cons_self ..))
    rw [List.foldl_cons, length_putAll fun other hmem => by
      rw [hfirst]
      exact h other (List.mem_cons_of_mem part hmem)]
    exact hfirst

/-- A part stays if none of those that are written meets it. -/
theorem LiesIn.putAll : ∀ {parts : List Part} {image : Bytes}, part.LiesIn image →
    (∀ other ∈ parts, other.EndsBy image.length) →
    (∀ other ∈ parts, ¬part.span.Meets other.span) → part.LiesIn (parts.foldl Part.put image)
  | [], _, h, _, _ => h
  | other :: rest, image, h, hends, hapart => by
    have hother := hends other (List.mem_cons_self ..)
    rw [List.foldl_cons]
    refine (h.put hother (hapart other (List.mem_cons_self ..))).putAll (fun next hmem => ?_)
      fun next hmem => hapart next (List.mem_cons_of_mem other hmem)
    rw [length_put hother]
    exact hends next (List.mem_cons_of_mem other hmem)

/-- Of parts that do not meet, all that are written stay. -/
theorem liesIn_putAll : ∀ {parts : List Part} {image : Bytes},
    (∀ part ∈ parts, part.EndsBy image.length) →
    parts.Pairwise (fun first second => ¬first.span.Meets second.span) →
    ∀ part ∈ parts, part.LiesIn (parts.foldl Part.put image)
  | first :: rest, image, hends, hapart, part, hmem => by
    have hfirst := hends first (List.mem_cons_self ..)
    obtain ⟨hhead, htail⟩ := List.pairwise_cons.mp hapart
    have hrest : ∀ next ∈ rest, next.EndsBy (Part.put image first).length := fun next hnext => by
      rw [length_put hfirst]
      exact hends next (List.mem_cons_of_mem first hnext)
    rcases List.mem_cons.mp hmem with rfl | hmem
    · exact (liesIn_put hfirst).putAll hrest hhead
    · exact liesIn_putAll hrest htail part hmem

end Part

/-! ## Where data goes -/

namespace Draft

variable {draft : Draft} {segment : DraftSegment} {cursor : Nat}

/-- The segments, each with the offset of its data, when the next data is appended at `cursor`. -/
def placedFrom (cursor : Nat) (segments : List DraftSegment) : List (DraftSegment × Nat) :=
  segments.zip (offsetsFrom cursor segments)

/-- The segments of a draft, each with the offset of its data. -/
def placed (draft : Draft) : List (DraftSegment × Nat) :=
  placedFrom draft.fixedEnd draft.segments

theorem placedFrom_of_fixed {fixed : UInt64} (rest : List DraftSegment)
    (h : segment.offset = some fixed) :
    placedFrom cursor (segment :: rest) = (segment, fixed.toNat) :: placedFrom cursor rest := by
  simp only [placedFrom, offsetsFrom, h, List.zip_cons_cons]

theorem placedFrom_of_appended (rest : List DraftSegment) (h : segment.offset = none) :
    placedFrom cursor (segment :: rest) =
      (segment, cursor) :: placedFrom (cursor + segment.data.length) rest := by
  simp only [placedFrom, offsetsFrom, h, List.zip_cons_cons]

theorem map_fst_placedFrom : ∀ (cursor : Nat) (segments : List DraftSegment),
    (placedFrom cursor segments).map Prod.fst = segments
  | _, [] => rfl
  | cursor, segment :: rest => by
    cases h : segment.offset with
    | none => rw [placedFrom_of_appended rest h, List.map_cons, map_fst_placedFrom]
    | some fixed => rw [placedFrom_of_fixed rest h, List.map_cons, map_fst_placedFrom]

/-! ## Drafts that keep their parts apart -/

/-- The offsets that data with an offset of its own takes up. -/
def fixedSpan? (segment : DraftSegment) : Option Span :=
  segment.offset.map fun fixed => ⟨fixed.toNat, segment.data.length⟩

/-- The offsets of the file header. -/
def headerSpan (draft : Draft) : Span :=
  ⟨0, draft.cls.headerSize.toNat⟩

/-- The offsets of the program headers. -/
def tableSpan (draft : Draft) : Span :=
  ⟨draft.tableStart, draft.segments.length * draft.cls.stride.toNat⟩

/-- The program headers come behind the file header, and data with an offset of its own meets
neither them nor the file header nor other such data. -/
structure Apart (draft : Draft) : Prop where
  table : draft.cls.headerSize.toNat ≤ draft.tableStart
  fixed : ∀ span ∈ draft.segments.filterMap fixedSpan?,
    ¬span.Meets draft.headerSpan ∧ ¬span.Meets draft.tableSpan
  pairwise : (draft.segments.filterMap fixedSpan?).Pairwise fun first second => ¬first.Meets second

/-! ## What is fixed and what is appended -/

/-- A running maximum is no less than where it starts and what it takes in. -/
theorem le_foldl {f : Nat → DraftSegment → Nat}
    (h : ∀ stop segment, stop ≤ f stop segment ∧ ∀ span, fixedSpan? segment = some span →
      span.start + span.len ≤ f stop segment) :
    ∀ (segments : List DraftSegment) (start : Nat), start ≤ segments.foldl f start ∧
      ∀ segment ∈ segments, ∀ span, fixedSpan? segment = some span →
        span.start + span.len ≤ segments.foldl f start
  | [], start => ⟨Nat.le_refl start, fun _ hmem => nomatch hmem⟩
  | first :: rest, start => by
    obtain ⟨hstart, hrest⟩ := le_foldl h rest (f start first)
    obtain ⟨hlow, hfirst⟩ := h start first
    refine ⟨Nat.le_trans hlow hstart, fun segment hmem span hspan => ?_⟩
    rcases List.mem_cons.mp hmem with rfl | hmem
    · exact Nat.le_trans (hfirst span hspan) hstart
    · exact hrest segment hmem span hspan

theorem le_fixedEnd (draft : Draft) :
    max (draft.entryStart draft.segments.length) draft.cls.headerSize.toNat ≤ draft.fixedEnd ∧
      ∀ segment ∈ draft.segments, ∀ span, fixedSpan? segment = some span →
        span.start + span.len ≤ draft.fixedEnd := by
  refine le_foldl (fun stop segment => ?_) _ _
  cases h : segment.offset with
  | none =>
    refine ⟨Nat.le_refl stop, fun span hspan => ?_⟩
    rw [fixedSpan?, h] at hspan
    cases hspan
  | some fixed =>
    refine ⟨Nat.le_max_left .., fun span hspan => ?_⟩
    rw [fixedSpan?, h] at hspan
    cases hspan
    exact Nat.le_max_right ..

theorem header_le_fixedEnd (draft : Draft) : draft.cls.headerSize.toNat ≤ draft.fixedEnd :=
  Nat.le_trans (Nat.le_max_right ..) draft.le_fixedEnd.1

theorem table_le_fixedEnd (draft : Draft) :
    draft.tableStart + draft.segments.length * draft.cls.stride.toNat ≤ draft.fixedEnd :=
  Nat.le_trans (Nat.le_max_left ..) draft.le_fixedEnd.1

/-- The offsets that the data of a placed segment takes up. -/
def dataSpan (placed : DraftSegment × Nat) : Span :=
  ⟨placed.2, placed.1.data.length⟩

/-- Data has an offset of its own, or lies between the cursor and the end of what is appended. -/
theorem dataSpan_cases : ∀ {segments : List DraftSegment} {cursor : Nat}
    {placed : DraftSegment × Nat}, placed ∈ placedFrom cursor segments →
      fixedSpan? placed.1 = some (dataSpan placed) ∨
        cursor ≤ placed.2 ∧ placed.2 + placed.1.data.length ≤ cursor + appendedSize segments
  | first :: rest, cursor, placed, hmem => by
    cases h : first.offset with
    | some fixed =>
      rw [placedFrom_of_fixed rest h] at hmem
      simp only [appendedSize, h, Option.isNone_some, Bool.false_eq_true, if_false, Nat.zero_add]
      rcases List.mem_cons.mp hmem with rfl | hmem
      · refine Or.inl ?_
        rw [fixedSpan?, h]
        rfl
      · exact dataSpan_cases hmem
    | none =>
      rw [placedFrom_of_appended rest h] at hmem
      simp only [appendedSize, h, Option.isNone_none, if_true]
      rcases List.mem_cons.mp hmem with rfl | hmem
      · exact Or.inr ⟨Nat.le_refl _, by dsimp only; omega⟩
      · refine (dataSpan_cases hmem).imp_right fun ⟨hlow, hhigh⟩ => ⟨by omega, by omega⟩

/-- All data ends within the image. -/
theorem data_le_size {placed : DraftSegment × Nat} (h : placed ∈ draft.placed) :
    placed.2 + placed.1.data.length ≤ draft.size := by
  rcases dataSpan_cases h with hfixed | ⟨-, happended⟩
  · exact Nat.le_trans (draft.le_fixedEnd.2 _ (List.of_mem_zip h).1 _ hfixed)
      (Nat.le_add_right _ _)
  · exact happended

/-- No data meets the file header or the program headers. -/
theorem Apart.data (h : draft.Apart) {placed : DraftSegment × Nat} (hmem : placed ∈ draft.placed) :
    ¬(dataSpan placed).Meets draft.headerSpan ∧ ¬(dataSpan placed).Meets draft.tableSpan := by
  rcases dataSpan_cases hmem with hfixed | ⟨hlow, -⟩
  · exact h.fixed _ (List.mem_filterMap.mpr ⟨_, (List.of_mem_zip hmem).1, hfixed⟩)
  · have hheader := draft.header_le_fixedEnd
    have htable := draft.table_le_fixedEnd
    refine ⟨Span.not_meets_symm (Span.not_meets_of_le ?_),
      Span.not_meets_symm (Span.not_meets_of_le (Nat.le_trans htable hlow))⟩
    exact Nat.le_trans (Nat.le_of_eq (Nat.zero_add _)) (Nat.le_trans hheader hlow)

/-- The data of two segments does not meet. -/
theorem pairwise_placedFrom : ∀ {segments : List DraftSegment} {cursor : Nat},
    (segments.filterMap fixedSpan?).Pairwise (fun first second => ¬first.Meets second) →
    (∀ segment ∈ segments, ∀ span, fixedSpan? segment = some span →
      span.start + span.len ≤ cursor) →
    (placedFrom cursor segments).Pairwise fun first second =>
      ¬(dataSpan first).Meets (dataSpan second)
  | [], _, _, _ => .nil
  | first :: rest, cursor, hfixed, hbelow => by
    rw [List.pairwise_filterMap, List.pairwise_cons, ← List.pairwise_filterMap] at hfixed
    obtain ⟨hfirst, hrest⟩ := hfixed
    have hbelow' : ∀ segment ∈ rest, ∀ span, fixedSpan? segment = some span →
        span.start + span.len ≤ cursor :=
      fun segment hmem => hbelow segment (List.mem_cons_of_mem first hmem)
    -- Fixed data ends by the cursor; appended data starts at it and moves it behind itself.
    cases h : first.offset with
    | some fixed =>
      rw [placedFrom_of_fixed rest h]
      have hspan : fixedSpan? first = some (dataSpan (first, fixed.toNat)) := by
        rw [fixedSpan?, h]
        rfl
      refine List.pairwise_cons.mpr ⟨fun placed hmem => ?_, pairwise_placedFrom hrest hbelow'⟩
      rcases dataSpan_cases hmem with hplaced | ⟨hlow, -⟩
      · exact hfirst _ (List.of_mem_zip hmem).1 _ hspan _ hplaced
      · exact Span.not_meets_of_le
          (Nat.le_trans (hbelow first (List.mem_cons_self ..) _ hspan) hlow)
    | none =>
      rw [placedFrom_of_appended rest h]
      refine List.pairwise_cons.mpr ⟨fun placed hmem => ?_, pairwise_placedFrom hrest
        fun segment hmem span hspan =>
          Nat.le_trans (hbelow' segment hmem span hspan) (Nat.le_add_right ..)⟩
      rcases dataSpan_cases hmem with hplaced | ⟨hlow, -⟩
      · exact Span.not_meets_symm
          (Span.not_meets_of_le (hbelow' _ (List.of_mem_zip hmem).1 _ hplaced))
      · exact Span.not_meets_of_le hlow

/-! ## The parts of an image -/

/-- The program header of a placed segment, as a part of the image. -/
def entryPart (draft : Draft) (index : Nat) (placed : DraftSegment × Nat) : Part :=
  ⟨draft.entryStart index, ProgramHeader.encode draft.cls (programHeader placed.1 placed.2)⟩

/-- The parts that segments give rise to: for each of them its data and its program header. -/
def partsFrom (draft : Draft) : (index : Nat) → List (DraftSegment × Nat) → List Part
  | _, [] => []
  | index, placed :: rest =>
    ⟨placed.2, placed.1.data⟩ :: draft.entryPart index placed :: draft.partsFrom (index + 1) rest

/-- The parts of the image in the order in which they are written. -/
def parts (draft : Draft) : List Part :=
  ⟨0, draft.header.encode⟩ :: draft.partsFrom 0 draft.placed

theorem writeSegments_eq_foldl (draft : Draft) :
    ∀ (index : Nat) (placed : List (DraftSegment × Nat)) (image : Bytes),
      draft.writeSegments index placed image = (draft.partsFrom index placed).foldl Part.put image
  | _, [], _ => rfl
  | index, (segment, offset) :: rest, image => by
    rw [writeSegments, writeSegments_eq_foldl draft (index + 1) rest]
    rfl

theorem layOut_eq_foldl (draft : Draft) :
    draft.layOut = draft.parts.foldl Part.put (Bytes.zeros draft.size) :=
  draft.writeSegments_eq_foldl 0 draft.placed _

theorem length_placed (draft : Draft) : draft.placed.length = draft.segments.length := by
  rw [← List.length_map Prod.fst, placed, map_fst_placedFrom]

theorem mem_partsFrom {part : Part} :
    ∀ {index : Nat} {placed : List (DraftSegment × Nat)},
      part ∈ draft.partsFrom index placed ↔
        (∃ first ∈ placed, part = ⟨first.2, first.1.data⟩) ∨
          ∃ i first, placed[i]? = some first ∧ part = draft.entryPart (index + i) first
  | _, [] => by simp [partsFrom]
  | index, first :: rest => by
    rw [partsFrom, List.mem_cons, List.mem_cons, mem_partsFrom]
    constructor
    · rintro (rfl | rfl | ⟨next, hmem, rfl⟩ | ⟨i, next, hget, rfl⟩)
      · exact Or.inl ⟨first, List.mem_cons_self .., rfl⟩
      · exact Or.inr ⟨0, first, rfl, rfl⟩
      · exact Or.inl ⟨next, List.mem_cons_of_mem first hmem, rfl⟩
      · exact Or.inr ⟨i + 1, next, hget, by rw [Nat.add_right_comm, Nat.add_assoc]⟩
    · rintro (⟨next, hmem, rfl⟩ | ⟨i, next, hget, rfl⟩)
      · rcases List.mem_cons.mp hmem with rfl | hmem
        · exact Or.inl rfl
        · exact Or.inr (Or.inr (Or.inl ⟨next, hmem, rfl⟩))
      · cases i with
        | zero =>
          cases hget
          exact Or.inr (Or.inl rfl)
        | succ i =>
          exact Or.inr (Or.inr (Or.inr ⟨i, next, hget, by rw [Nat.add_right_comm, Nat.add_assoc]⟩))

theorem entryStart_add_stride_le (draft : Draft) {index later : Nat} (h : index < later) :
    draft.entryStart index + draft.cls.stride.toNat ≤ draft.entryStart later := by
  have hend := Nat.mul_le_mul_right draft.cls.stride.toNat (Nat.succ_le_of_lt h)
  rw [Nat.succ_mul] at hend
  unfold entryStart
  omega

theorem span_entryPart (draft : Draft) (index : Nat) (placed : DraftSegment × Nat) :
    (draft.entryPart index placed).span =
      ⟨draft.entryStart index, draft.cls.stride.toNat⟩ := by
  rw [Part.span, entryPart, ProgramHeader.length_encode]

/-- A program header lies in the table. -/
theorem holds_tableSpan {index a : Nat} {placed : DraftSegment × Nat}
    (hindex : index < draft.segments.length) (h : (draft.entryPart index placed).span.Holds a) :
    draft.tableSpan.Holds a := by
  have hend := draft.entryStart_add_stride_le hindex
  rw [span_entryPart] at h
  obtain ⟨hlow, hhigh⟩ := h
  exact ⟨Nat.le_trans (Nat.le_add_right ..) hlow, Nat.lt_of_lt_of_le hhigh hend⟩

theorem parts_endBy (draft : Draft) : ∀ part ∈ draft.parts, part.EndsBy draft.size := by
  have hsize : draft.fixedEnd ≤ draft.size := Nat.le_add_right _ _
  intro part hmem
  unfold Part.EndsBy
  rcases List.mem_cons.mp hmem with rfl | hmem
  · rw [Header.length_encode, Nat.zero_add]
    exact Nat.le_trans draft.header_le_fixedEnd hsize
  · rcases mem_partsFrom.mp hmem with ⟨placed, hplaced, rfl⟩ | ⟨i, placed, hget, rfl⟩
    · exact data_le_size hplaced
    · obtain ⟨hi, -⟩ := List.getElem?_eq_some_iff.mp hget
      rw [length_placed] at hi
      have hend := draft.entryStart_add_stride_le hi
      rw [Nat.zero_add, entryPart, ProgramHeader.length_encode]
      exact Nat.le_trans hend (Nat.le_trans draft.table_le_fixedEnd hsize)

theorem pairwise_partsFrom (draft : Draft) : ∀ {placed : List (DraftSegment × Nat)} {index : Nat},
    (∀ first ∈ placed, ¬(dataSpan first).Meets draft.tableSpan) →
    (placed.Pairwise fun first second => ¬(dataSpan first).Meets (dataSpan second)) →
    index + placed.length ≤ draft.segments.length →
    (draft.partsFrom index placed).Pairwise fun first second => ¬first.span.Meets second.span
  | [], _, _, _, _ => .nil
  | first :: rest, index, htable, hdata, hcount => by
    rw [List.length_cons] at hcount
    obtain ⟨hfirst, hrest⟩ := List.pairwise_cons.mp hdata
    have hentry : ∀ placed ∈ first :: rest, ∀ i < draft.segments.length, ∀ other,
        ¬(dataSpan placed).Meets (draft.entryPart i other).span :=
      fun placed hmem i hi other ⟨a, hin, hin'⟩ =>
        htable placed hmem ⟨a, hin, holds_tableSpan hi hin'⟩
    have ih := @pairwise_partsFrom draft rest (index + 1)
      (fun placed hmem => htable placed (List.mem_cons_of_mem first hmem)) hrest (by omega)
    refine List.pairwise_cons.mpr ⟨fun part hmem => ?_, List.pairwise_cons.mpr
      ⟨fun part hmem => ?_, ih⟩⟩
    · rcases List.mem_cons.mp hmem with rfl | hmem
      · exact hentry first (List.mem_cons_self ..) index (by omega) first
      · rcases mem_partsFrom.mp hmem with ⟨placed, hplaced, rfl⟩ | ⟨i, placed, hget, rfl⟩
        · exact hfirst placed hplaced
        · obtain ⟨hi, -⟩ := List.getElem?_eq_some_iff.mp hget
          exact hentry first (List.mem_cons_self ..) _ (by omega) placed
    · rcases mem_partsFrom.mp hmem with ⟨placed, hplaced, rfl⟩ | ⟨i, placed, hget, rfl⟩
      · exact Span.not_meets_symm
          (hentry placed (List.mem_cons_of_mem first hplaced) index (by omega) first)
      · refine Span.not_meets_of_le ?_
        rw [span_entryPart, span_entryPart]
        exact draft.entryStart_add_stride_le (by omega)

theorem Apart.pairwise_parts (h : draft.Apart) :
    draft.parts.Pairwise fun first second => ¬first.span.Meets second.span := by
  have hheader : (Part.mk 0 draft.header.encode).span = draft.headerSpan := by
    rw [Part.span, Header.length_encode]
    rfl
  have hcount : 0 + draft.placed.length ≤ draft.segments.length :=
    Nat.le_of_eq (by rw [length_placed, Nat.zero_add])
  refine List.pairwise_cons.mpr ⟨fun part hmem => ?_, draft.pairwise_partsFrom
    (fun placed hmem => ?_) (pairwise_placedFrom h.pairwise draft.le_fixedEnd.2) hcount⟩
  · rw [hheader]
    rcases mem_partsFrom.mp hmem with ⟨placed, hplaced, rfl⟩ | ⟨i, placed, hget, rfl⟩
    · exact Span.not_meets_symm (h.data hplaced).1
    · refine Span.not_meets_of_le ?_
      rw [span_entryPart]
      exact Nat.le_trans (Nat.le_of_eq (Nat.zero_add _))
        (Nat.le_trans h.table (Nat.le_add_right ..))
  · exact (h.data hmem).2

theorem length_layOut (draft : Draft) : draft.layOut.length = draft.size := by
  rw [layOut_eq_foldl, Part.length_putAll (by simpa using draft.parts_endBy), Bytes.length_zeros]

/-- The image of a draft that keeps its parts apart holds every one of them. -/
theorem Apart.liesIn_layOut (h : draft.Apart) : ∀ part ∈ draft.parts, part.LiesIn draft.layOut := by
  rw [layOut_eq_foldl]
  exact Part.liesIn_putAll (by simpa using draft.parts_endBy) h.pairwise_parts

namespace Apart

variable (h : draft.Apart)
include h

theorem slice_header :
    draft.layOut.slice 0 draft.cls.headerSize.toNat = draft.header.encode := by
  have hlies := h.liesIn_layOut _ (List.mem_cons_self ..)
  rwa [Part.LiesIn, Header.length_encode] at hlies

theorem slice_data {placed : DraftSegment × Nat} (hmem : placed ∈ draft.placed) :
    draft.layOut.slice placed.2 placed.1.data.length = placed.1.data :=
  h.liesIn_layOut _ (List.mem_cons_of_mem _ (mem_partsFrom.mpr (Or.inl ⟨placed, hmem, rfl⟩)))

theorem slice_entry {index : Nat} {placed : DraftSegment × Nat}
    (hget : draft.placed[index]? = some placed) :
    draft.layOut.slice (draft.entryStart index) draft.cls.stride.toNat =
      ProgramHeader.encode draft.cls (programHeader placed.1 placed.2) := by
  have hlies := h.liesIn_layOut (draft.entryPart index placed) (List.mem_cons_of_mem _
    (mem_partsFrom.mpr (Or.inr ⟨index, placed, hget, by rw [Nat.zero_add]⟩)))
  rwa [Part.LiesIn, entryPart, ProgramHeader.length_encode] at hlies

end Apart

end Draft

end Chainload.Elf
