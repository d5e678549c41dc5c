import Chainload.Proofs.Areas

/-!
# What the check of a layout finds

A layout breaks the constraint that a fault names (`Layout.Breaks`) if natural numbers, which do not
wrap, say so. The constraints have an order (`Layout.faultOrder`) : area by area, then pair by pair.

The check computes with words and substitutes a limit where a region has none. It finds the first
broken constraint all the same (`Layout.fault?_eq_find?`). For one area that is arithmetic of words.
For a pair the search limits have to be the limits of the regions, and they are because the areas
come first: a pair is looked at only if no area wraps.
-/

namespace Chainload

open Elf Layout

/-! ## Words and numbers -/

namespace Region

variable {r s : Region}

theorem isEmpty_iff : r.isEmpty = true ↔ r.len.toNat = 0 := by
  rw [isEmpty, beq_iff_eq, ← UInt64.toNat_inj, UInt64.toNat_zero]

theorem isNone_limit?_iff :
    r.limit?.isNone = true ↔ ¬r.start.toNat + r.len.toNat ≤ UInt64.size - 1 := by
  rw [Option.isNone_iff_eq_none, limit?_eq_none_iff, UInt64.size]
  omega

/-- A region with a limit fits if its last address does. -/
theorem fits_iff (width : Width) (hpos : 1 ≤ r.len.toNat)
    (hlimit : r.start.toNat + r.len.toNat ≤ UInt64.size - 1) :
    r.fits width = true ↔ r.start.toNat + r.len.toNat - 1 ≤ width.highest.toNat := by
  cases hr : r.limit? with
  | none =>
    rw [limit?_eq_none_iff] at hr
    unfold UInt64.size at hr hlimit
    omega
  | some limit =>
    have hsum := limit?_eq_some_iff.mp hr
    have hone : (1 : UInt64) ≤ limit := by
      rw [UInt64.le_iff_toNat_le, UInt64.toNat_one]
      omega
    have hlast : (limit - 1).toNat = r.start.toNat + r.len.toNat - 1 := by
      rw [UInt64.toNat_sub_of_le _ _ hone, hsum, UInt64.toNat_one]
    have hempty : r.isEmpty = false := Bool.eq_false_iff.mpr fun h => by
      have hzero := isEmpty_iff.mp h
      omega
    rw [← hlast, ← Width.reaches_iff]
    simp only [fits, hr, hempty, Bool.false_or]

/-- Regions with a limit overlap if they share an address. -/
theorem overlaps_iff_meets {rlimit slimit : UInt64} (hr : r.limit? = some rlimit)
    (hs : s.limit? = some slimit) : r.overlaps s = true ↔ r.span.Meets s.span := by
  refine ⟨fun h => ?_, overlaps_of_meets hr hs⟩
  have hrlimit := limit?_eq_some_iff.mp hr
  have hslimit := limit?_eq_some_iff.mp hs
  simp only [overlaps, searchLimit, hr, hs, Option.getD_some, Bool.and_eq_true,
    Bool.not_eq_true', decide_eq_true_eq, UInt64.lt_iff_toNat_lt] at h
  obtain ⟨⟨⟨hrpos, hspos⟩, hbelow⟩, hbelow'⟩ := h
  rw [Bool.eq_false_iff, ne_eq, isEmpty_iff] at hrpos hspos
  rw [Span.meets_iff]
  exact ⟨Nat.pos_of_ne_zero hrpos, Nat.pos_of_ne_zero hspos, hslimit ▸ hbelow, hrlimit ▸ hbelow'⟩

end Region

namespace Layout

/-! ## Constraints in order -/

/-- The layout breaks the constraint that the fault names. What memory is available is no constraint
on a layout. -/
def Breaks (layout : Layout) : Fault → Prop
  | .empty area => ¬1 ≤ (layout.region area).len.toNat
  | .wraps area =>
    ¬(layout.region area).start.toNat + (layout.region area).len.toNat ≤ UInt64.size - 1
  | .unreachable area width =>
    ¬(layout.region area).start.toNat + (layout.region area).len.toNat - 1 ≤ width.highest.toNat
  | .overlap first second => (layout.region first).span.Meets (layout.region second).span
  | .unavailable _ => False

instance (layout : Layout) (fault : Fault) : Decidable (layout.Breaks fault) :=
  match fault with
  | .empty _ => inferInstanceAs (Decidable (¬_))
  | .wraps _ => inferInstanceAs (Decidable (¬_))
  | .unreachable .. => inferInstanceAs (Decidable (¬_))
  | .overlap .. => inferInstanceAs (Decidable (Span.Meets _ _))
  | .unavailable _ => inferInstanceAs (Decidable False)

/-- What can be wrong with one area, in the order in which it is looked at. -/
def areaFaults (width : Width) (area : Area) : List Fault :=
  [.empty area, .wraps area, .unreachable area width]

/-- What can be wrong with a layout, in the order in which it is looked at. -/
def faultOrder (width : Width) : List Fault :=
  [Area.loader, .stub, .kernel, .scratch].flatMap (areaFaults width) ++
    [.overlap .loader .stub, .overlap .loader .kernel, .overlap .loader .scratch,
      .overlap .stub .kernel, .overlap .stub .scratch, .overlap .kernel .scratch]

variable {layout : Layout} {width : Width}

theorem areaFault?_eq_find? (layout : Layout) (width : Width) (area : Area) :
    layout.areaFault? width area =
      (areaFaults width area).find? fun fault => layout.Breaks fault := by
  have hempty : (layout.region area).isEmpty = decide (layout.Breaks (.empty area)) := by
    rw [Bool.eq_iff_iff, decide_eq_true_eq, Region.isEmpty_iff]
    show _ ↔ ¬_
    omega
  have hwraps : (layout.region area).limit?.isNone = decide (layout.Breaks (.wraps area)) := by
    rw [Bool.eq_iff_iff, decide_eq_true_eq]
    exact Region.isNone_limit?_iff
  simp only [areaFault?, areaFaults, List.find?_cons, List.find?_nil, ← hempty, ← hwraps]
  cases hpos : (layout.region area).isEmpty with
  | true => rfl
  | false =>
    cases hlimit : (layout.region area).limit?.isNone with
    | true => rfl
    | false =>
      rw [hpos, eq_comm, decide_eq_false_iff_not] at hempty
      rw [hlimit, eq_comm, decide_eq_false_iff_not] at hwraps
      have hfits :=
        Region.fits_iff width (Decidable.not_not.mp hempty) (Decidable.not_not.mp hwraps)
      have hreach : (!(layout.region area).fits width) =
          decide (layout.Breaks (.unreachable area width)) := by
        rw [Bool.eq_iff_iff, decide_eq_true_eq, Bool.not_eq_true', Bool.eq_false_iff]
        exact not_congr hfits
      rw [hreach]
      cases decide (layout.Breaks (.unreachable area width)) <;> rfl

/-- Looked at one after the other, the areas show the first thing that is wrong with one of them. -/
theorem areaFaults_eq_find? (layout : Layout) (width : Width) :
    areas.findSome? (layout.areaFault? width) =
      (areas.flatMap (areaFaults width)).find? fun fault => layout.Breaks fault := by
  rw [List.find?_flatMap]
  exact congrArg (areas.findSome? ·) (funext (layout.areaFault?_eq_find? width))

/-- With a limit for every area a pair overlaps if its areas share an address. -/
theorem pairFaults_eq_find? (h : ∀ area, ∃ limit, (layout.region area).limit? = some limit) :
    (pairs areas).findSome? layout.pairFault? =
      ((pairs areas).flatMap fun pair => [Fault.overlap pair.1 pair.2]).find?
        fun fault => layout.Breaks fault := by
  rw [List.find?_flatMap]
  refine congrArg (fun f => List.findSome? f _) (funext fun pair => ?_)
  obtain ⟨first, second⟩ := pair
  obtain ⟨limit, hfirst⟩ := h first
  obtain ⟨limit', hsecond⟩ := h second
  have hmeets : (layout.region first).overlaps (layout.region second) =
      decide (layout.Breaks (.overlap first second)) := by
    rw [Bool.eq_iff_iff, decide_eq_true_eq]
    exact Region.overlaps_iff_meets hfirst hsecond
  simp only [pairFault?, List.find?_cons, List.find?_nil, hmeets]
  cases decide (layout.Breaks (.overlap first second)) <;> rfl

/-- The check finds the first constraint in order that the layout breaks. -/
theorem fault?_eq_find? (layout : Layout) (width : Width) :
    layout.fault? width = (faultOrder width).find? fun fault => layout.Breaks fault := by
  have horder : faultOrder width = areas.flatMap (areaFaults width) ++
      (pairs areas).flatMap fun pair => [Fault.overlap pair.1 pair.2] := rfl
  rw [horder, List.find?_append, ← areaFaults_eq_find?, fault?]
  cases hareas : areas.findSome? (layout.areaFault? width) with
  | some fault => rfl
  | none =>
    rw [Option.none_or, Option.none_or]
    exact pairFaults_eq_find? fun area =>
      exists_limit_of_areaFault? (List.findSome?_eq_none_iff.mp hareas area (mem_areas area))

/-! ## Layouts that pass -/

theorem check_eq_error_iff {fault : Fault} :
    layout.check width = .error fault ↔ layout.fault? width = some fault := by
  unfold check
  split <;> simp [*]

theorem exists_check_iff :
    (∃ checked, layout.check width = .ok checked) ↔ layout.fault? width = none := by
  unfold check
  split <;> simp [*]

/-- A layout that passes is kept with the width that it was checked for. -/
theorem of_check {checked : Checked} (h : layout.check width = .ok checked) :
    checked.layout = layout ∧ checked.width = width := by
  unfold check at h
  split at h <;> cases h
  exact ⟨rfl, rfl⟩

/-- An area is not empty, lies in the address space and ends within reach. -/
structure Sound (layout : Layout) (width : Width) (area : Area) : Prop where
  nonempty : 1 ≤ (layout.region area).len.toNat
  below : (layout.region area).start.toNat + (layout.region area).len.toNat ≤ UInt64.size - 1
  reached :
    (layout.region area).start.toNat + (layout.region area).len.toNat - 1 ≤ width.highest.toNat

theorem forall_not_breaks_areaFaults_iff {area : Area} :
    (∀ fault ∈ areaFaults width area, ¬layout.Breaks fault) ↔ layout.Sound width area := by
  constructor
  · intro h
    refine ⟨Decidable.not_not.mp (h (.empty area) ?_), Decidable.not_not.mp (h (.wraps area) ?_),
      Decidable.not_not.mp (h (.unreachable area width) ?_)⟩ <;> simp [areaFaults]
  · intro h fault hmem
    simp only [areaFaults, List.mem_cons, List.not_mem_nil, or_false] at hmem
    rcases hmem with rfl | rfl | rfl
    · exact not_not_intro h.nonempty
    · exact not_not_intro h.below
    · exact not_not_intro h.reached

theorem ne_of_mem_pairs_areas : ∀ pair ∈ pairs areas, pair.1 ≠ pair.2 := by
  decide

/-- No two areas share an address exactly if no pair in order does. -/
theorem forall_pairs_iff :
    (∀ pair ∈ pairs areas, ¬layout.Breaks (.overlap pair.1 pair.2)) ↔
      ∀ first second, first ≠ second → ∀ a, layout.Holds first a → ¬layout.Holds second a := by
  constructor
  · intro h first second hne a hfirst hsecond
    rcases Checked.mem_pairs_areas hne with hmem | hmem
    · exact h _ hmem ⟨a, hfirst, hsecond⟩
    · exact h _ hmem ⟨a, hsecond, hfirst⟩
  · rintro h pair hmem ⟨a, hfirst, hsecond⟩
    exact h _ _ (ne_of_mem_pairs_areas pair hmem) a hfirst hsecond

/-- A layout passes if every area is sound and no two share an address. -/
theorem fault?_eq_none_iff :
    layout.fault? width = none ↔
      (∀ area, layout.Sound width area) ∧
        ∀ first second, first ≠ second → ∀ a, layout.Holds first a → ¬layout.Holds second a := by
  have horder : faultOrder width = areas.flatMap (areaFaults width) ++
      (pairs areas).map fun pair => Fault.overlap pair.1 pair.2 := rfl
  rw [fault?_eq_find?, List.find?_eq_none, horder, ← forall_pairs_iff]
  simp only [decide_eq_true_eq, List.forall_mem_append, List.forall_mem_map,
    ← forall_not_breaks_areaFaults_iff]
  refine and_congr_left fun _ => ⟨fun h area fault hmem => ?_, fun h fault hmem => ?_⟩
  · exact h fault (List.mem_flatMap.mpr ⟨area, mem_areas area, hmem⟩)
  · obtain ⟨area, -, hfault⟩ := List.mem_flatMap.mp hmem
    exact h area fault hfault

/-- What pointers of 32 bits reach, those of 64 bits do. -/
theorem Sound.widen {area : Area} (h : layout.Sound width area) : layout.Sound .bits64 area where
  nonempty := h.nonempty
  below := h.below
  reached := Nat.le_trans (Nat.sub_le _ _) h.below

/-- A layout passes exactly if every area is sound and no address belongs to two of them, and it is
kept as it is with the width. Otherwise the check reports the first constraint in order that the
layout breaks. What passes for 32 bits passes for 64 bits. -/
theorem check_reports_first_break (layout : Layout) (width : Width) :
    ((∃ checked, layout.check width = .ok checked) ↔
      (∀ area, layout.Sound width area) ∧
        ∀ first second, first ≠ second → ∀ a, layout.Holds first a → ¬layout.Holds second a) ∧
    (∀ checked, layout.check width = .ok checked →
      checked.layout = layout ∧ checked.width = width) ∧
    (∀ fault, layout.check width = .error fault ↔
      (faultOrder width).find? (fun broken => layout.Breaks broken) = some fault) ∧
    ((∃ checked, layout.check .bits32 = .ok checked) →
      ∃ checked, layout.check .bits64 = .ok checked) := by
  refine ⟨exists_check_iff.trans fault?_eq_none_iff, fun checked => of_check, fun fault => ?_, ?_⟩
  · rw [check_eq_error_iff, fault?_eq_find?]
  · rw [exists_check_iff, exists_check_iff, fault?_eq_none_iff, fault?_eq_none_iff]
    exact And.imp_left fun h area => (h area).widen

end Layout

end Chainload
