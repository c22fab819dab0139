import Eyenet.Linker

/-!
# The threshold grids of the calibration

Both grids (`calibration/simhash_grid.py`, `calibration/verifier_grid.py`) sweep a threshold over
the pairs of one author and of two, and pick the row of highest recall among those that reach a
floor on precision. The rows carry precision and recall rounded to four digits, and the choice is
made on what they carry.

* `Calibration.abs_round4_sub_le` — four digits are off by a twenty-thousandth at most.
* `Calibration.FloorChoice` — what the choice means for the ratios before they are rounded.
* `Calibration.pick_precision_floor` — both grids choose like that.
-/

namespace Eyenet

namespace Calibration

/-! ## Rows -/

/-- One row of a sweep. -/
structure ThresholdRow (T : Type) where
  threshold : T
  tp : ℕ
  fp : ℕ
  tn : ℕ
  fn : ℕ
  precision : ℚ
  «recall» : ℚ
  f1 : ℚ
  deriving DecidableEq

/-- `a / b if b > 0 else 0.0` -/
def ratio (a b : ℕ) : ℚ := if 0 < b then a / b else 0

/-- The row of a threshold, where `accepts` predicts the same author. -/
def thresholdRow {T D : Type} (accepts : T → D → Bool) (within cross : List D) (t : T) :
    ThresholdRow T :=
  let tp := within.countP (accepts t)
  let fn := within.length - tp
  let fp := cross.countP (accepts t)
  let tn := cross.length - fp
  let precision := ratio tp (tp + fp)
  let «recall» : ℚ := tp / within.length
  let f1 :=
    if 0 < precision + «recall» then 2 * precision * «recall» / (precision + «recall») else 0
  ⟨t, tp, fp, tn, fn, round4 precision, round4 «recall», round4 f1⟩

namespace ThresholdRow

variable {T : Type} (r : ThresholdRow T)

/-- Precision before it is rounded. -/
def truePrecision : ℚ := ratio r.tp (r.tp + r.fp)

/-- Recall before it is rounded. -/
def trueRecall : ℚ := r.tp / (r.tp + r.fn : ℕ)

end ThresholdRow

/-- The last row that none before it is beaten by, from the first on; `none` for `rows[0]` of an
empty list. -/
def pickBest {α : Type} (beats : α → α → Bool) : List α → Option α
  | [] => none
  | row :: rows => some (rows.foldl (fun best r => if beats r best then r else best) row)

section Pick

variable {T : Type} [LT T] [DecidableLT T]

/-- Higher recall, then the lower threshold. -/
def recallBeats (r best : ThresholdRow T) : Bool :=
  best.recall < r.recall || (r.recall == best.recall && r.threshold < best.threshold)

/-- Higher precision, then what `tie` prefers. -/
def precisionBeats (tie : T → T → Bool) (r best : ThresholdRow T) : Bool :=
  best.precision < r.precision || (r.precision == best.precision && tie r.threshold best.threshold)

/-- The row of highest recall that reaches the floor, or that of highest precision. -/
def pickFloor (tie : T → T → Bool) (rows : List (ThresholdRow T)) (minPrecision : ℚ) :
    Option (ThresholdRow T) :=
  match rows.filter fun r => minPrecision ≤ r.precision with
  | [] => pickBest (precisionBeats tie) rows
  | row :: eligible => pickBest recallBeats (row :: eligible)

end Pick

end Calibration

open Calibration

namespace SimhashGrid

/-- `_threshold_sweep` on distances: a pair is of one author when its distance is at most the
threshold. -/
def thresholdSweep (within cross : List ℤ) : List (ThresholdRow ℤ) :=
  if within = [] ∨ cross = [] then []
  else (List.range 65).map fun t : ℕ => thresholdRow (fun t d => d ≤ t) within cross (t : ℤ)

/-- `_pick_precision_floor`: without a row at the floor, ties go to the tighter threshold. -/
def pickPrecisionFloor (rows : List (ThresholdRow ℤ)) (minPrecision : ℚ) :
    Option (ThresholdRow ℤ) :=
  pickFloor (fun t t' => t < t') rows minPrecision

end SimhashGrid

namespace VerifierGrid

/-- The default of `step`. -/
def defaultStep : ℚ := 1 / 100

/-- `_threshold_sweep` on scores: a pair is of one author when its score is at least the
threshold. -/
def thresholdSweep (within cross : List ℚ) (step : ℚ) : List (ThresholdRow ℚ) :=
  if within = [] ∨ cross = [] then []
  else
    (List.range (roundHalfEven (1 / step) + 1).toNat).map fun i : ℕ =>
      thresholdRow (fun t s => t ≤ s) within cross (round4 (i * step))

/-- `_pick_precision_floor`: without a row at the floor, ties go to the higher threshold. -/
def pickPrecisionFloor (rows : List (ThresholdRow ℚ)) (minPrecision : ℚ) :
    Option (ThresholdRow ℚ) :=
  pickFloor (fun t t' => t' < t) rows minPrecision

end VerifierGrid

namespace Calibration

/-! ## Rounding to four digits -/

section Rounding

variable {q : ℚ}

theorem abs_roundHalfEven_sub_le (q : ℚ) : |(roundHalfEven q : ℚ) - q| ≤ 1 / 2 := by
  have hlow : (⌊q⌋ : ℚ) ≤ q := Int.floor_le q
  have hup : q < ⌊q⌋ + 1 := Int.lt_floor_add_one q
  rw [roundHalfEven]
  split_ifs with h h' heven
  · rw [abs_le]
    constructor <;> linarith
  · rw [abs_le]
    push_cast
    constructor <;> linarith
  · rw [abs_le]
    constructor <;> linarith
  · rw [abs_le]
    push_cast
    constructor <;> linarith

theorem abs_round4_sub_le (q : ℚ) : |round4 q - q| ≤ 1 / 20000 := by
  have h := abs_roundHalfEven_sub_le (q * 10000)
  rw [abs_le] at h ⊢
  rw [round4]
  constructor <;> linarith

theorem le_roundHalfEven {k : ℤ} (h : (k : ℚ) ≤ q) : k ≤ roundHalfEven q := by
  have hfloor : k ≤ ⌊q⌋ := Int.le_floor.mpr h
  rw [roundHalfEven]
  split_ifs <;> omega

/-- A number of four digits that is reached is still reached after rounding. -/
theorem le_round4 {k : ℤ} (h : (k : ℚ) / 10000 ≤ q) : (k : ℚ) / 10000 ≤ round4 q := by
  have hle : k ≤ roundHalfEven (q * 10000) := le_roundHalfEven (by linarith)
  have hcast : (k : ℚ) ≤ roundHalfEven (q * 10000) := Int.cast_le.mpr hle
  rw [round4]
  linarith

/-- Fractions of small denominators that rounding cannot tell apart are the same. -/
theorem le_of_le_round4 {a b d : ℕ} {u : ℤ} (hd : 0 < d) (hsmall : d * b < 20000)
    (h : (u : ℚ) / d ≤ round4 (ratio a b)) : (u : ℚ) / d ≤ ratio a b := by
  have hround := (abs_le.mp (abs_round4_sub_le (ratio a b))).2
  have hd' : (0 : ℚ) < d := Nat.cast_pos.mpr hd
  by_contra hlt
  rw [not_le] at hlt
  rcases Nat.eq_zero_or_pos b with rfl | hb
  · have hzero : round4 0 = 0 := by norm_num [round4, roundHalfEven]
    rw [ratio, if_neg (Nat.lt_irrefl 0)] at h hlt
    rw [hzero] at h
    exact absurd h (not_le.mpr hlt)
  · have hb' : (0 : ℚ) < b := Nat.cast_pos.mpr hb
    rw [ratio, if_pos hb] at h hlt hround
    rw [div_lt_div_iff₀ hb' hd'] at hlt
    have hint : (a : ℤ) * d + 1 ≤ u * b := by
      have hcast : (a : ℤ) * d < u * b := by exact_mod_cast hlt
      omega
    have hgap : ((a : ℚ) * d + 1) ≤ u * b := by exact_mod_cast hint
    have hsmall' : (d : ℚ) * b < 20000 := by exact_mod_cast hsmall
    -- the gap between the fractions is more than rounding bridges
    have hstep : (a : ℚ) / b + 1 / (d * b) ≤ u / d := by
      rw [div_add_div _ _ hb'.ne' (mul_pos hd' hb').ne', div_le_div_iff₀
        (mul_pos hb' (mul_pos hd' hb')) hd']
      nlinarith [mul_pos hd' hb', mul_le_mul_of_nonneg_right hgap (mul_pos hd' hb').le]
    have hbridge : (1 : ℚ) / 20000 < 1 / (d * b) :=
      one_div_lt_one_div_of_lt (mul_pos hd' hb') hsmall'
    linarith

end Rounding

/-! ## Rows of a sweep -/

/-- What a row of `within` positives and `cross` negatives reports. -/
structure Reports {T : Type} (within cross : ℕ) (r : ThresholdRow T) : Prop where
  positives : r.tp + r.fn = within
  negatives : r.fp ≤ cross
  precision : r.precision = round4 r.truePrecision
  «recall» : r.recall = round4 r.trueRecall

theorem thresholdRow_reports {T D : Type} (accepts : T → D → Bool) (within cross : List D) (t : T) :
    Reports within.length cross.length (thresholdRow accepts within cross t) := by
  have hpos : within.countP (accepts t) + (within.length - within.countP (accepts t)) =
      within.length := Nat.add_sub_cancel' List.countP_le_length
  refine ⟨hpos, List.countP_le_length, rfl, ?_⟩
  rw [ThresholdRow.trueRecall]
  simp only [thresholdRow]
  rw [hpos]

namespace Reports

variable {T : Type} {within cross : ℕ} {r r' : ThresholdRow T}

theorem le_truePrecision (h : Reports within cross r) {p : ℚ} (hp : p ≤ r.precision) :
    p - 1 / 20000 ≤ r.truePrecision := by
  have hround := (abs_le.mp (abs_round4_sub_le r.truePrecision)).2
  rw [h.precision] at hp
  linarith

theorem le_precision (h : Reports within cross r) {p : ℚ} (hp : p ≤ r.truePrecision) :
    p - 1 / 20000 ≤ r.precision := by
  have hround := (abs_le.mp (abs_round4_sub_le r.truePrecision)).1
  rw [h.precision]
  linarith

theorem le_trueRecall (h : Reports within cross r) (h' : Reports within cross r')
    (hle : r.recall ≤ r'.recall) : r.trueRecall - 1 / 10000 ≤ r'.trueRecall := by
  have hround := (abs_le.mp (abs_round4_sub_le r.trueRecall)).1
  have hround' := (abs_le.mp (abs_round4_sub_le r'.trueRecall)).2
  rw [h.recall, h'.recall] at hle
  linarith

/-- Recalls over fewer than ten thousand pairs keep their order. -/
theorem trueRecall_le (h : Reports within cross r) (h' : Reports within cross r')
    (hfew : within < 10000) (hle : r.recall ≤ r'.recall) : r.trueRecall ≤ r'.trueRecall := by
  have hnear := h.le_trueRecall h' hle
  simp only [ThresholdRow.trueRecall, h.positives, h'.positives] at hnear ⊢
  rcases Nat.eq_zero_or_pos within with rfl | hpos
  · simp
  · have hpos' : (0 : ℚ) < within := Nat.cast_pos.mpr hpos
    have hfew' : (within : ℚ) < 10000 := by exact_mod_cast hfew
    apply div_le_div_of_nonneg_right _ hpos'.le
    by_contra hlt
    rw [not_le] at hlt
    have hgap : (r'.tp : ℚ) + 1 ≤ r.tp := by exact_mod_cast Nat.cast_lt.mp hlt
    have hstep : (r'.tp : ℚ) / within + 1 / within ≤ r.tp / within := by
      rw [← add_div]
      exact div_le_div_of_nonneg_right hgap hpos'.le
    have hbridge : (1 : ℚ) / 10000 < 1 / within := one_div_lt_one_div_of_lt hpos' hfew'
    linarith

end Reports

/-! ## The choice -/

/-- What the choice of a row at the floor `p` means: on what the rows report, and on the ratios
before they are rounded. -/
structure FloorChoice {T : Type} (within cross : ℕ) (rows : List (ThresholdRow T)) (p : ℚ)
    (chosen : ThresholdRow T) : Prop where
  mem : chosen ∈ rows
  /-- The choice is exact on what the rows report. -/
  reported : ∀ r ∈ rows, p ≤ r.precision → p ≤ chosen.precision ∧ r.recall ≤ chosen.recall
  /-- Two roundings may be missing at any floor. -/
  nearly : ∀ r ∈ rows, p ≤ r.truePrecision → p - 1 / 10000 ≤ chosen.truePrecision
  above : ∀ r ∈ rows, p + 1 / 20000 ≤ r.truePrecision →
    p - 1 / 20000 ≤ chosen.truePrecision ∧ r.trueRecall - 1 / 10000 ≤ chosen.trueRecall
  /-- One is, at a floor of four digits. -/
  digits : ∀ k : ℤ, p = k / 10000 → ∀ r ∈ rows, p ≤ r.truePrecision →
    p - 1 / 20000 ≤ chosen.truePrecision ∧ r.trueRecall - 1 / 10000 ≤ chosen.trueRecall
  /-- None is, at a floor of a small denominator over few enough pairs. -/
  exact : ∀ (u : ℤ) (d : ℕ), p = u / d → d ∣ 10000 → d * (within + cross) < 20000 →
    within < 10000 → ∀ r ∈ rows, p ≤ r.truePrecision →
      p ≤ chosen.truePrecision ∧ r.trueRecall ≤ chosen.trueRecall

section Choice

variable {T : Type} {within cross : ℕ} {rows : List (ThresholdRow T)} {p : ℚ}
  {chosen : ThresholdRow T}

/-- Everything about the ratios follows from the choice on what is reported. -/
theorem FloorChoice.of_reported (hrows : ∀ r ∈ rows, Reports within cross r)
    (hmem : chosen ∈ rows)
    (hfloor : ∀ r ∈ rows, p ≤ r.precision → p ≤ chosen.precision ∧ r.recall ≤ chosen.recall)
    (hbest : (∀ r ∈ rows, ¬p ≤ r.precision) → ∀ r ∈ rows, r.precision ≤ chosen.precision) :
    FloorChoice within cross rows p chosen := by
  have hchosen := hrows chosen hmem
  have hreached : ∀ r ∈ rows, p ≤ r.precision →
      p - 1 / 20000 ≤ chosen.truePrecision ∧ r.trueRecall - 1 / 10000 ≤ chosen.trueRecall := by
    intro r hr hp
    have hc := hfloor r hr hp
    exact ⟨hchosen.le_truePrecision hc.1, (hrows r hr).le_trueRecall hchosen hc.2⟩
  have hdigits : ∀ k : ℤ, p = k / 10000 → ∀ r ∈ rows, p ≤ r.truePrecision → p ≤ r.precision := by
    rintro k rfl r hr hp
    rw [(hrows r hr).precision]
    exact le_round4 hp
  refine ⟨hmem, hfloor, ?_, ?_, ?_, ?_⟩
  · intro r hr hp
    have hnear := (hrows r hr).le_precision hp
    by_cases h : ∃ r ∈ rows, p ≤ r.precision
    · obtain ⟨r', hr', hp'⟩ := h
      have hc := (hreached r' hr' hp').1
      linarith
    · have hc := hbest (fun r' hr' hp' => h ⟨r', hr', hp'⟩) r hr
      have hc' := hchosen.le_truePrecision (hnear.trans hc)
      linarith
  · intro r hr hp
    apply hreached r hr
    have hnear := (hrows r hr).le_precision hp
    linarith
  · intro k hk r hr hp
    exact hreached r hr (hdigits k hk r hr hp)
  · rintro u d rfl hdvd hfew hpairs r hr hp
    have hd : 0 < d := Nat.pos_of_dvd_of_pos hdvd (by decide)
    obtain ⟨m, hm⟩ := hdvd
    have hk : (u : ℚ) / d = (u * m : ℤ) / 10000 := by
      have hm' : (10000 : ℚ) = d * m := by exact_mod_cast hm
      have hd' : (d : ℚ) ≠ 0 := Nat.cast_ne_zero.mpr hd.ne'
      have hm0 : (m : ℚ) ≠ 0 := by
        rintro h0
        rw [h0, mul_zero] at hm'
        norm_num at hm'
      push_cast
      rw [hm', mul_div_mul_right _ _ hm0]
    have hc := hfloor r hr (hdigits _ hk r hr hp)
    refine ⟨?_, (hrows r hr).trueRecall_le hchosen hpairs hc.2⟩
    apply le_of_le_round4 hd
    · have hle : chosen.tp + chosen.fp ≤ within + cross := by
        have := hchosen.positives
        have := hchosen.negatives
        omega
      exact (Nat.mul_le_mul_left d hle).trans_lt hfew
    · have hp' := hc.1
      rw [hchosen.precision] at hp'
      exact hp'

/-- The fold keeps a row of the list that no row of it has a higher key than. -/
theorem pickBest_spec {α : Type} {beats : α → α → Bool} {key : α → ℚ}
    (hwin : ∀ r best, beats r best = true → key best ≤ key r)
    (hlose : ∀ r best, beats r best = false → key r ≤ key best) {l : List α} (hl : l ≠ []) :
    ∃ chosen, pickBest beats l = some chosen ∧ chosen ∈ l ∧ ∀ r ∈ l, key r ≤ key chosen := by
  obtain ⟨row, rest, rfl⟩ := List.exists_cons_of_ne_nil hl
  refine ⟨_, rfl, ?_⟩
  clear hl
  induction rest generalizing row with
  | nil => simp
  | cons next rest ih =>
    rw [List.foldl_cons]
    obtain ⟨hmem, hall⟩ := ih (if beats next row then next else row)
    have hhead := hall _ List.mem_cons_self
    cases hb : beats next row with
    | true =>
      simp only [hb, if_true] at hmem hall hhead ⊢
      refine ⟨List.mem_cons_of_mem _ hmem, ?_⟩
      intro r hr
      rcases List.mem_cons.mp hr with rfl | hr
      · exact (hwin _ _ hb).trans hhead
      · exact hall r hr
    | false =>
      simp only [hb, Bool.false_eq_true, if_false] at hmem hall hhead ⊢
      constructor
      · rcases List.mem_cons.mp hmem with h | h
        · rw [h]
          exact List.mem_cons_self
        · exact List.mem_cons_of_mem _ (List.mem_cons_of_mem _ h)
      · intro r hr
        rcases List.mem_cons.mp hr with rfl | hr
        · exact hhead
        · rcases List.mem_cons.mp hr with rfl | hr
          · exact (hlose _ _ hb).trans hhead
          · exact hall r (List.mem_cons_of_mem _ hr)

variable [LT T] [DecidableLT T]

theorem recallBeats_win (r best : ThresholdRow T) (h : recallBeats r best = true) :
    best.recall ≤ r.recall := by
  simp only [recallBeats, Bool.or_eq_true, decide_eq_true_eq, Bool.and_eq_true, beq_iff_eq] at h
  rcases h with h | ⟨h, -⟩
  · exact h.le
  · exact h.ge

theorem recallBeats_lose (r best : ThresholdRow T) (h : recallBeats r best = false) :
    r.recall ≤ best.recall := by
  simp only [recallBeats, Bool.or_eq_false_iff, decide_eq_false_iff_not] at h
  exact not_lt.mp h.1

omit [LT T] [DecidableLT T] in
theorem precisionBeats_win (tie : T → T → Bool) (r best : ThresholdRow T)
    (h : precisionBeats tie r best = true) : best.precision ≤ r.precision := by
  simp only [precisionBeats, Bool.or_eq_true, decide_eq_true_eq, Bool.and_eq_true,
    beq_iff_eq] at h
  rcases h with h | ⟨h, -⟩
  · exact h.le
  · exact h.ge

omit [LT T] [DecidableLT T] in
theorem precisionBeats_lose (tie : T → T → Bool) (r best : ThresholdRow T)
    (h : precisionBeats tie r best = false) : r.precision ≤ best.precision := by
  simp only [precisionBeats, Bool.or_eq_false_iff, decide_eq_false_iff_not] at h
  exact not_lt.mp h.1

/-- A choice at the floor is one among the rows that reach it, and one of highest precision where
none does. -/
theorem pickFloor_floorChoice (tie : T → T → Bool) (hne : rows ≠ [])
    (hrows : ∀ r ∈ rows, Reports within cross r) :
    ∃ chosen, pickFloor tie rows p = some chosen ∧ FloorChoice within cross rows p chosen := by
  rw [pickFloor]
  cases heligible : rows.filter fun r => p ≤ r.precision with
  | nil =>
    have hnone : ∀ r ∈ rows, ¬p ≤ r.precision := by
      intro r hr
      have h := List.filter_eq_nil_iff.mp heligible r hr
      rwa [decide_eq_true_eq] at h
    obtain ⟨chosen, hpick, hmem, hbest⟩ :=
      pickBest_spec (precisionBeats_win tie) (precisionBeats_lose tie) hne
    refine ⟨chosen, hpick, FloorChoice.of_reported hrows hmem ?_ fun _ => hbest⟩
    intro r hr hp
    exact absurd hp (hnone r hr)
  | cons row eligible =>
    obtain ⟨chosen, hpick, hmem, hbest⟩ :=
      pickBest_spec recallBeats_win recallBeats_lose (List.cons_ne_nil row eligible)
    have hiff : ∀ r, r ∈ row :: eligible ↔ r ∈ rows ∧ p ≤ r.precision := by
      intro r
      rw [← heligible, List.mem_filter, decide_eq_true_eq]
    have hchosen := (hiff chosen).mp hmem
    refine ⟨chosen, hpick, FloorChoice.of_reported hrows hchosen.1 ?_ ?_⟩
    · intro r hr hp
      exact ⟨hchosen.2, hbest r ((hiff r).mpr ⟨hr, hp⟩)⟩
    · intro hnone
      exact absurd hchosen.2 (hnone chosen hchosen.1)

end Choice

/-- The choice of both grids, over every two lists of pairs and at every floor. -/
theorem pick_precision_floor :
    (∀ within cross : List ℤ, within ≠ [] → cross ≠ [] → ∀ p : ℚ,
      ∃ chosen, SimhashGrid.pickPrecisionFloor (SimhashGrid.thresholdSweep within cross) p =
          some chosen ∧
        FloorChoice within.length cross.length (SimhashGrid.thresholdSweep within cross) p
          chosen) ∧
    (∀ within cross : List ℚ, within ≠ [] → cross ≠ [] → ∀ step : ℚ, 0 < step → ∀ p : ℚ,
      ∃ chosen, VerifierGrid.pickPrecisionFloor (VerifierGrid.thresholdSweep within cross step) p =
          some chosen ∧
        FloorChoice within.length cross.length (VerifierGrid.thresholdSweep within cross step) p
          chosen) := by
  constructor
  · intro within cross hw hc p
    rw [SimhashGrid.thresholdSweep, if_neg (not_or.mpr ⟨hw, hc⟩)]
    apply pickFloor_floorChoice
    · rw [Ne, List.map_eq_nil_iff, List.range_eq_nil]
      decide
    · intro r hr
      obtain ⟨t, -, rfl⟩ := List.mem_map.mp hr
      exact thresholdRow_reports _ within cross _
  · intro within cross hw hc step hstep p
    rw [VerifierGrid.thresholdSweep, if_neg (not_or.mpr ⟨hw, hc⟩)]
    have hrows : 0 < (roundHalfEven (1 / step) + 1).toNat := by
      have h : 0 ≤ roundHalfEven (1 / step) :=
        le_roundHalfEven (by rw [Int.cast_zero]; exact (one_div_pos.mpr hstep).le)
      omega
    apply pickFloor_floorChoice
    · rw [Ne, List.map_eq_nil_iff, List.range_eq_nil]
      exact hrows.ne'
    · intro r hr
      obtain ⟨i, -, rfl⟩ := List.mem_map.mp hr
      exact thresholdRow_reports _ within cross _

theorem pick_precision_floor_pairs :
    (∃ chosen, SimhashGrid.pickPrecisionFloor (SimhashGrid.thresholdSweep [0, 1] [1]) (1 / 2) =
        some chosen ∧ FloorChoice 2 1 (SimhashGrid.thresholdSweep [0, 1] [1]) (1 / 2) chosen) ∧
      ∃ chosen, VerifierGrid.pickPrecisionFloor
          (VerifierGrid.thresholdSweep [9 / 10, 1] [1 / 2] VerifierGrid.defaultStep) (1 / 2) =
        some chosen ∧ FloorChoice 2 1
          (VerifierGrid.thresholdSweep [9 / 10, 1] [1 / 2] VerifierGrid.defaultStep) (1 / 2)
          chosen :=
  ⟨pick_precision_floor.1 [0, 1] [1] (List.cons_ne_nil _ _) (List.cons_ne_nil _ _) (1 / 2),
    pick_precision_floor.2 [9 / 10, 1] [1 / 2] (List.cons_ne_nil _ _) (List.cons_ne_nil _ _)
      VerifierGrid.defaultStep (by norm_num [VerifierGrid.defaultStep]) (1 / 2)⟩

/-- Two pairs of one author and one of two at a floor of 0.6667: the looser threshold, of two in
three, is chosen over one that is exact. -/
theorem two_thirds_reach_floor :
    SimhashGrid.pickPrecisionFloor (SimhashGrid.thresholdSweep [0, 1] [1]) (6667 / 10000) =
        some (thresholdRow (fun t d => d ≤ t) [0, 1] [1] 1) ∧
      thresholdRow (fun t d => d ≤ t) [0, 1] [1] 0 ∈ SimhashGrid.thresholdSweep [0, 1] [1] ∧
      (thresholdRow (fun t d => d ≤ t) [0, 1] [1] 0 : ThresholdRow ℤ).truePrecision = 1 ∧
      (thresholdRow (fun t d => d ≤ t) [0, 1] [1] 1 : ThresholdRow ℤ).truePrecision <
        6667 / 10000 := by
  refine ⟨by decide +kernel, ?_, by decide +kernel, by decide +kernel⟩
  rw [SimhashGrid.thresholdSweep, if_neg (by decide)]
  exact List.mem_map.mpr ⟨0, by decide, rfl⟩

end Calibration

end Eyenet
