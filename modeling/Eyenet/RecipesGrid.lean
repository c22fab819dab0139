import Eyenet.ThresholdGrid
import Mathlib.Data.List.Dedup

/-!
# The recipe search of the calibration

`calibration/recipes_grid.py` looks for the thresholds of a recipe on labelled actors. The recipe
for lurkers is the union of two patterns, each with a threshold of its own: each pattern is swept
alone for its threshold of most true positives at the floor on precision, and the union of the two
is what the recipe matches.

* `RecipesGrid.sweep_chosen` — what one sweep returns.
* `RecipesGrid.search_jointly_optimal_iff` — the labelled actors on which sweeping the patterns
  alone is as good as sweeping them jointly.
-/

namespace Eyenet

open Calibration (ratio)

namespace RecipesGrid

/-! ## Actors and recipes -/

/-- `ActorStats` -/
structure ActorStats where
  senderId : ℤ
  msgCount : ℤ
  corpusSpanDays : ℚ
  msgPerDay : ℚ
  initRate : ℚ

/-- The values of `ActorLabel.label`. -/
inductive Label
  | lurker
  | bot
  | chattyMember
  | normal
  | unknown
  deriving DecidableEq

/-- `ActorLabel` -/
structure ActorLabel where
  label : Label

/-- The fields of `ActorStats` that an axis names. -/
inductive Feature
  | msgCount
  | corpusSpanDays
  | msgPerDay
  | initRate
  deriving DecidableEq

/-- The value of a feature. -/
def ActorStats.feature (stats : ActorStats) : Feature → ℚ
  | .msgCount => stats.msgCount
  | .corpusSpanDays => stats.corpusSpanDays
  | .msgPerDay => stats.msgPerDay
  | .initRate => stats.initRate

inductive Op
  | le
  | ge
  | lt
  | gt
  deriving DecidableEq

structure AxisThreshold where
  feature : Feature
  op : Op
  value : ℚ
  deriving DecidableEq

def AxisThreshold.evaluate (axis : AxisThreshold) (stats : ActorStats) : Bool :=
  match axis.op with
  | .le => stats.feature axis.feature ≤ axis.value
  | .ge => axis.value ≤ stats.feature axis.feature
  | .lt => stats.feature axis.feature < axis.value
  | .gt => axis.value < stats.feature axis.feature

@[simp] theorem AxisThreshold.evaluate_le {feature : Feature} {value : ℚ} {stats : ActorStats} :
    (⟨feature, .le, value⟩ : AxisThreshold).evaluate stats = true ↔
      stats.feature feature ≤ value :=
  decide_eq_true_iff

@[simp] theorem AxisThreshold.evaluate_ge {feature : Feature} {value : ℚ} {stats : ActorStats} :
    (⟨feature, .ge, value⟩ : AxisThreshold).evaluate stats = true ↔
      value ≤ stats.feature feature :=
  decide_eq_true_iff

/-- Axes combined with AND. -/
structure AxisGroup where
  axes : List AxisThreshold
  deriving DecidableEq

def AxisGroup.evaluate (group : AxisGroup) (stats : ActorStats) : Bool :=
  group.axes.all fun axis => axis.evaluate stats

/-- What the notes of a recipe say. -/
inductive Note
  | patternA (initRateMax : ℚ) (tp fp : ℕ)
  | patternADisabled
  | patternB (msgPerDayMax spanMin : ℚ) (tp fp : ℕ)
  | patternBDisabled
  | neverMatches
  | msgCountMin (value : ℤ) (tp fp : ℕ)
  | noThreshold
  deriving DecidableEq

structure RecipeCalibration where
  name : String
  version : String
  positiveLabel : Label
  groups : List AxisGroup
  tp : ℕ
  fp : ℕ
  tn : ℕ
  fn : ℕ
  precision : ℚ
  «recall» : ℚ
  f1 : ℚ
  notes : List Note

/-- A recipe matches when any of its groups does. -/
def RecipeCalibration.Matches (rc : RecipeCalibration) (stats : ActorStats) : Bool :=
  rc.groups.any fun group => group.evaluate stats

/-! ## Confusion -/

structure Confusion where
  tp : ℕ
  fp : ℕ
  tn : ℕ
  fn : ℕ
  deriving DecidableEq

/-- One turn of the loop in `_confusion`; an actor without a label is passed over. -/
def Confusion.count (labels : List (ℤ × ActorLabel)) (positiveLabel : Label)
    (predicate : ActorStats → Bool) (c : Confusion) (s : ActorStats) : Confusion :=
  match labels.lookup s.senderId with
  | none => c
  | some lab =>
    let isPositive := lab.label == positiveLabel
    let predicted := predicate s
    if predicted && isPositive then { c with tp := c.tp + 1 }
    else if predicted && !isPositive then { c with fp := c.fp + 1 }
    else if !predicted && isPositive then { c with fn := c.fn + 1 }
    else { c with tn := c.tn + 1 }

/-- `_confusion` -/
def confusion (stats : List ActorStats) (labels : List (ℤ × ActorLabel)) (positiveLabel : Label)
    (predicate : ActorStats → Bool) : Confusion :=
  stats.foldl (Confusion.count labels positiveLabel predicate) ⟨0, 0, 0, 0⟩

/-- Precision before it is rounded. -/
def Confusion.precision (c : Confusion) : ℚ := ratio c.tp (c.tp + c.fp)

/-- `_picker_prefers`: more true positives, then fewer false ones. -/
def pickerPrefers {T : Type} (currentBest : Option (T × ℕ × ℕ)) (candidateTp candidateFp : ℕ) :
    Bool :=
  match currentBest with
  | none => true
  | some (_, bestTp, bestFp) =>
    if bestTp < candidateTp then true
    else candidateTp == bestTp && candidateFp < bestFp

/-- `_prf1`, after the precision: recall and F1. -/
def prf1 (tp fp fn : ℕ) : ℚ × ℚ × ℚ :=
  let precision := ratio tp (tp + fp)
  let «recall» := ratio tp (tp + fn)
  let f1 :=
    if 0 < precision + «recall» then 2 * precision * «recall» / (precision + «recall») else 0
  (round4 precision, round4 «recall», round4 f1)

/-- `_populate_metrics` -/
def populateMetrics (rc : RecipeCalibration) (stats : List ActorStats)
    (labels : List (ℤ × ActorLabel)) : RecipeCalibration :=
  let c := confusion stats labels rc.positiveLabel rc.Matches
  let (precision, «recall», f1) := prf1 c.tp c.fp c.fn
  { rc with
    tp := c.tp
    fp := c.fp
    tn := c.tn
    fn := c.fn
    precision := precision
    «recall» := «recall»
    f1 := f1 }

/-! ## Searches -/

/-- One turn of a sweep's loop. -/
def sweepStep {T : Type} (stats : List ActorStats) (labels : List (ℤ × ActorLabel))
    (positiveLabel : Label) (minPrecision : ℚ) (pred : T → ActorStats → Bool)
    (best : Option (T × ℕ × ℕ)) (t : T) : Option (T × ℕ × ℕ) :=
  let c := confusion stats labels positiveLabel (pred t)
  if minPrecision ≤ c.precision && pickerPrefers best c.tp c.fp then some (t, c.tp, c.fp)
  else best

/-- One sweep: the threshold that the picker ends with, of those that reach the floor. -/
def sweep {T : Type} (stats : List ActorStats) (labels : List (ℤ × ActorLabel))
    (positiveLabel : Label) (minPrecision : ℚ) (pred : T → ActorStats → Bool)
    (thresholds : List T) : Option (T × ℕ × ℕ) :=
  thresholds.foldl (sweepStep stats labels positiveLabel minPrecision pred) none

/-- `[round(x * 0.05, 2) for x in range(1, 21)]` -/
def thresholdsA : List ℚ := (List.range' 1 20).map fun x : ℕ => x / 20

def thresholdsB : List ℚ := [1 / 2, 1, 3 / 2, 2, 5 / 2, 3, 7 / 2, 4, 5, 7, 10]

def spanFloor : ℚ := 7

/-- `pred_a`: replies-heavy. -/
def predA (thr : ℚ) (s : ActorStats) : Bool := s.initRate ≤ thr

/-- `pred_b`: long-tail occasional presence. -/
def predB (thr : ℚ) (s : ActorStats) : Bool := s.msgPerDay ≤ thr && spanFloor ≤ s.corpusSpanDays

/-- `search_lurker_or_observer` -/
def searchLurkerOrObserver (stats : List ActorStats) (labels : List (ℤ × ActorLabel))
    (minPrecision : ℚ) : RecipeCalibration :=
  let aBest := sweep stats labels .lurker minPrecision predA thresholdsA
  let bBest := sweep stats labels .lurker minPrecision predB thresholdsB
  let (groupsA, notesA) : List AxisGroup × List Note :=
    match aBest with
    | some (t, tp, fp) => ([⟨[⟨.initRate, .le, t⟩]⟩], [.patternA t tp fp])
    | none => ([], [.patternADisabled])
  let (groupsB, notesB) : List AxisGroup × List Note :=
    match bBest with
    | some (t, tp, fp) =>
      ([⟨[⟨.msgPerDay, .le, t⟩, ⟨.corpusSpanDays, .ge, spanFloor⟩]⟩], [.patternB t spanFloor tp fp])
    | none => ([], [.patternBDisabled])
  let groups := groupsA ++ groupsB
  let notes := notesA ++ notesB ++ if groups = [] then [.neverMatches] else []
  populateMetrics ⟨"lurker_or_observer", "0.2", .lurker, groups, 0, 0, 0, 0, 0, 0, 0, notes⟩ stats
    labels

/-- `pred_chatty` -/
def predChatty (thr : ℤ) (s : ActorStats) : Bool := thr ≤ s.msgCount

/-- `search_chatty_member`, over the message counts of the actors. -/
def searchChattyMember (stats : List ActorStats) (labels : List (ℤ × ActorLabel))
    (minPrecision : ℚ) : RecipeCalibration :=
  let candidates := ((stats.map (·.msgCount)).dedup).mergeSort
  let (groups, notes) : List AxisGroup × List Note :=
    match sweep stats labels .chattyMember minPrecision predChatty candidates with
    | some (t, tp, fp) => ([⟨[⟨.msgCount, .ge, t⟩]⟩], [.msgCountMin t tp fp])
    | none => ([], [.noThreshold])
  populateMetrics ⟨"chatty_member", "0.1", .chattyMember, groups, 0, 0, 0, 0, 0, 0, 0, notes⟩ stats
    labels

/-! ## Counts -/

section Counts

variable (stats : List ActorStats) (labels : List (ℤ × ActorLabel)) (lab : Label)

/-- The actor has the positive label. -/
def positive (s : ActorStats) : Bool := (labels.lookup s.senderId).any fun l => l.label == lab

/-- The actor has another label. -/
def negative (s : ActorStats) : Bool := (labels.lookup s.senderId).any fun l => !(l.label == lab)

variable {stats labels lab}

theorem confusion_counts (predicate : ActorStats → Bool) :
    (confusion stats labels lab predicate).tp =
        stats.countP (fun s => positive labels lab s && predicate s) ∧
      (confusion stats labels lab predicate).fp =
        stats.countP (fun s => negative labels lab s && predicate s) := by
  have hfold : ∀ c : Confusion,
      (stats.foldl (Confusion.count labels lab predicate) c).tp =
          c.tp + stats.countP (fun s => positive labels lab s && predicate s) ∧
        (stats.foldl (Confusion.count labels lab predicate) c).fp =
          c.fp + stats.countP (fun s => negative labels lab s && predicate s) := by
    induction stats with
    | nil =>
      intro c
      exact ⟨rfl, rfl⟩
    | cons s stats ih =>
      intro c
      obtain ⟨htp, hfp⟩ := ih (c.count labels lab predicate s)
      rw [List.foldl_cons, htp, hfp, List.countP_cons, List.countP_cons, positive, negative,
        Confusion.count]
      cases labels.lookup s.senderId with
      | none => simp
      | some l =>
        cases hl : l.label == lab <;> cases hp : predicate s <;> simp [hl] <;> omega
  have h := hfold ⟨0, 0, 0, 0⟩
  rwa [Nat.zero_add, Nat.zero_add] at h

/-- More true positives and fewer false ones are more precise. -/
theorem ratio_le_ratio {tp fp tp' fp' : ℕ} (htp : tp ≤ tp') (hfp : fp' ≤ fp) :
    ratio tp (tp + fp) ≤ ratio tp' (tp' + fp') := by
  rcases Nat.eq_zero_or_pos tp with rfl | hpos
  · have hzero : ratio 0 (0 + fp) = 0 := by simp [ratio]
    rw [hzero, ratio]
    split_ifs
    · positivity
    · exact le_rfl
  · rw [ratio, ratio, if_pos (by omega), if_pos (by omega),
      div_le_div_iff₀ (Nat.cast_pos.mpr (by omega)) (Nat.cast_pos.mpr (by omega))]
    have h : tp * fp' ≤ tp' * fp := Nat.mul_le_mul htp hfp
    have hle : tp * (tp' + fp') ≤ tp' * (tp + fp) := by
      rw [Nat.mul_add, Nat.mul_add, Nat.mul_comm tp tp']
      exact Nat.add_le_add_left h _
    exact_mod_cast hle

/-- A predicate that accepts more but counts no more accepts the same. -/
theorem imp_of_countP_le {α : Type} {P Q : α → Bool} {l : List α}
    (hsub : ∀ x ∈ l, P x = true → Q x = true) (hle : l.countP Q ≤ l.countP P) :
    ∀ x ∈ l, Q x = true → P x = true := by
  induction l with
  | nil => simp
  | cons y l ih =>
    have htail : l.countP P ≤ l.countP Q :=
      List.countP_mono_left fun x hx => hsub x (List.mem_cons_of_mem y hx)
    have hy := hsub y List.mem_cons_self
    rw [List.countP_cons, List.countP_cons] at hle
    intro x hx hQ
    rcases List.mem_cons.mp hx with rfl | hx
    · by_contra hP
      rw [if_pos hQ, if_neg hP] at hle
      omega
    · refine ih (fun z hz => hsub z (List.mem_cons_of_mem y hz)) ?_ x hx hQ
      cases hPy : P y with
      | false =>
        rw [hPy] at hle
        simp only [Bool.false_eq_true, if_false] at hle
        omega
      | true =>
        rw [if_pos (hy hPy), if_pos hPy] at hle
        omega

end Counts

/-! ## One sweep -/

section Sweep

variable {T : Type} (stats : List ActorStats) (labels : List (ℤ × ActorLabel)) (lab : Label) (p : ℚ)

/-- The predicate reaches the floor on the labelled actors. -/
def Reaches (pred : ActorStats → Bool) : Prop := p ≤ (confusion stats labels lab pred).precision

/-- The threshold, if any, is one of those swept and reaches the floor alone. -/
def Alone (pred : T → ActorStats → Bool) (thresholds : List T) (o : Option T) : Prop :=
  ∀ t ∈ o, t ∈ thresholds ∧ Reaches stats labels lab p (pred t)

/-- It has the most true positives of those, and is absent only if none does. -/
structure Most (pred : T → ActorStats → Bool) (thresholds : List T) (o : Option T) : Prop where
  alone : Alone stats labels lab p pred thresholds o
  most : ∀ t ∈ thresholds, Reaches stats labels lab p (pred t) →
    ∃ t' ∈ o, (confusion stats labels lab (pred t)).tp ≤ (confusion stats labels lab (pred t')).tp

variable {stats labels lab p}

/-- What a sweep has found after the thresholds it has `seen`. -/
structure Found (stats : List ActorStats) (labels : List (ℤ × ActorLabel)) (lab : Label) (p : ℚ)
    (pred : T → ActorStats → Bool) (seen : List T) (best : Option (T × ℕ × ℕ)) : Prop where
  counts : ∀ b ∈ best, b.2 =
    ((confusion stats labels lab (pred b.1)).tp, (confusion stats labels lab (pred b.1)).fp)
  alone : Alone stats labels lab p pred seen (best.map Prod.fst)
  beaten : ∀ t ∈ seen, Reaches stats labels lab p (pred t) → ∃ b ∈ best,
    (confusion stats labels lab (pred t)).tp < b.2.1 ∨
      (confusion stats labels lab (pred t)).tp = b.2.1 ∧
        b.2.2 ≤ (confusion stats labels lab (pred t)).fp

theorem pickerPrefers_iff {b : T × ℕ × ℕ} {tp fp : ℕ} :
    pickerPrefers (some b) tp fp = true ↔ b.2.1 < tp ∨ tp = b.2.1 ∧ fp < b.2.2 := by
  obtain ⟨t, bestTp, bestFp⟩ := b
  simp only [pickerPrefers]
  split_ifs with h
  · simp [h]
  · simp [h]

theorem Found.step {pred : T → ActorStats → Bool} {seen : List T} {best : Option (T × ℕ × ℕ)}
    (h : Found stats labels lab p pred seen best) (t : T) :
    Found stats labels lab p pred (seen ++ [t])
      (sweepStep stats labels lab p pred best t) := by
  simp only [sweepStep]
  split_ifs with hpick
  · rw [Bool.and_eq_true, decide_eq_true_eq] at hpick
    obtain ⟨hfloor, hprefers⟩ := hpick
    refine ⟨?_, ?_, ?_⟩
    · rintro b ⟨⟩
      rfl
    · rintro t' ⟨⟩
      exact ⟨List.mem_append_right seen List.mem_cons_self, hfloor⟩
    · intro t' ht' hreach
      refine ⟨_, rfl, ?_⟩
      rcases List.mem_append.mp ht' with hseen | hlast
      · obtain ⟨b, hb, hbeaten⟩ := h.beaten t' hseen hreach
        rw [Option.mem_def] at hb
        rw [hb, pickerPrefers_iff] at hprefers
        simp only
        omega
      · rw [List.mem_singleton.mp hlast]
        exact Or.inr ⟨rfl, le_rfl⟩
  · refine ⟨h.counts, ?_, ?_⟩
    · intro t' ht'
      obtain ⟨hseen, hreach⟩ := h.alone t' ht'
      exact ⟨List.mem_append_left [t] hseen, hreach⟩
    · intro t' ht' hreach
      rcases List.mem_append.mp ht' with hseen | hlast
      · exact h.beaten t' hseen hreach
      · rw [List.mem_singleton.mp hlast] at hreach ⊢
        rw [Reaches] at hreach
        rw [Bool.and_eq_true, decide_eq_true_eq, not_and] at hpick
        have hkept := hpick hreach
        cases best with
        | none => exact absurd rfl hkept
        | some b =>
          rw [pickerPrefers_iff] at hkept
          refine ⟨b, rfl, ?_⟩
          omega

theorem sweep_found (stats : List ActorStats) (labels : List (ℤ × ActorLabel)) (lab : Label) (p : ℚ)
    (pred : T → ActorStats → Bool) (thresholds : List T) :
    Found stats labels lab p pred thresholds (sweep stats labels lab p pred thresholds) := by
  rw [sweep]
  induction thresholds using List.reverseRecOn with
  | nil => exact ⟨by simp, by simp [Alone], by simp⟩
  | append_singleton seen t ih =>
    rw [List.foldl_append, List.foldl_cons, List.foldl_nil]
    exact ih.step t

/-- A sweep returns the threshold of most true positives, and of fewest false ones among those. -/
theorem sweep_chosen (stats : List ActorStats) (labels : List (ℤ × ActorLabel)) (lab : Label)
    (p : ℚ) (pred : T → ActorStats → Bool) (thresholds : List T) :
    Most stats labels lab p pred thresholds
        ((sweep stats labels lab p pred thresholds).map Prod.fst) ∧
      ∀ t ∈ (sweep stats labels lab p pred thresholds).map Prod.fst, ∀ t' ∈ thresholds,
        Reaches stats labels lab p (pred t') →
        (confusion stats labels lab (pred t)).tp ≤ (confusion stats labels lab (pred t')).tp →
        (confusion stats labels lab (pred t)).fp ≤ (confusion stats labels lab (pred t')).fp := by
  have hfound := sweep_found stats labels lab p pred thresholds
  cases hsweep : sweep stats labels lab p pred thresholds with
  | none =>
    rw [hsweep] at hfound
    refine ⟨⟨hfound.alone, ?_⟩, by simp⟩
    intro t ht hreach
    obtain ⟨b, hb, -⟩ := hfound.beaten t ht hreach
    exact absurd hb (Option.not_mem_none b)
  | some b =>
    rw [hsweep] at hfound
    have hcounts := hfound.counts b rfl
    constructor
    · refine ⟨hfound.alone, ?_⟩
      intro t ht hreach
      obtain ⟨b', hb, hbeaten⟩ := hfound.beaten t ht hreach
      obtain rfl := Option.mem_some_iff.mp hb
      refine ⟨b.1, rfl, ?_⟩
      rw [hcounts] at hbeaten
      omega
    · rintro t ⟨⟩ t' ht' hreach htp
      obtain ⟨b', hb, hbeaten⟩ := hfound.beaten t' ht' hreach
      obtain rfl := Option.mem_some_iff.mp hb
      rw [hcounts] at hbeaten
      omega

end Sweep

/-! ## The union of the patterns -/

/-- The two patterns at these thresholds, either of them possibly absent. -/
def union (a b : Option ℚ) (s : ActorStats) : Bool :=
  a.any (fun t => predA t s) || b.any fun t => predB t s

section Joint

variable (stats : List ActorStats) (labels : List (ℤ × ActorLabel)) (p : ℚ)

/-- A recipe is as a joint sweep would return it: at the floor, and no pair of thresholds at the
floor has more true positives. -/
structure JointlyOptimal (rc : RecipeCalibration) : Prop where
  floor : rc.groups = [] ∨ Reaches stats labels .lurker p rc.Matches
  best : ∀ a b : Option ℚ, (∀ t ∈ a, t ∈ thresholdsA) → (∀ t ∈ b, t ∈ thresholdsB) →
    Reaches stats labels .lurker p (union a b) →
    (confusion stats labels .lurker (union a b)).tp ≤
      (confusion stats labels .lurker rc.Matches).tp

/-- The labelled actors on which the patterns can be swept apart. -/
structure Separable : Prop where
  /-- Thresholds that have the most true positives alone reach the floor together. -/
  floor : ((∀ t ∈ thresholdsA, ¬Reaches stats labels .lurker p (predA t)) ∧
      ∀ t ∈ thresholdsB, ¬Reaches stats labels .lurker p (predB t)) ∨
    ∃ a b, Most stats labels .lurker p predA thresholdsA a ∧
      Most stats labels .lurker p predB thresholdsB b ∧
      Reaches stats labels .lurker p (union a b)
  /-- Two thresholds that reach the floor only together find no more than two that do alone. -/
  best : ∀ a b : Option ℚ, (∀ t ∈ a, t ∈ thresholdsA) → (∀ t ∈ b, t ∈ thresholdsB) →
    Reaches stats labels .lurker p (union a b) →
    ∃ a' b', Alone stats labels .lurker p predA thresholdsA a' ∧
      Alone stats labels .lurker p predB thresholdsB b' ∧
      (confusion stats labels .lurker (union a b)).tp ≤
        (confusion stats labels .lurker (union a' b')).tp

variable {stats labels p}

theorem predA_mono {t t' : ℚ} (h : t ≤ t') (s : ActorStats) (hs : predA t s = true) :
    predA t' s = true := by
  simp only [predA, decide_eq_true_eq] at hs ⊢
  exact hs.trans h

theorem predB_mono {t t' : ℚ} (h : t ≤ t') (s : ActorStats) (hs : predB t s = true) :
    predB t' s = true := by
  simp only [predB, Bool.and_eq_true, decide_eq_true_eq] at hs ⊢
  exact ⟨hs.1.trans h, hs.2⟩

/-- Along a pattern whose thresholds are nested, more of a kind is all of that kind. -/
theorem nested {pred : ℚ → ActorStats → Bool}
    (hmono : ∀ {t t' : ℚ}, t ≤ t' → ∀ s, pred t s = true → pred t' s = true)
    (kind : ActorStats → Bool) {t t' : ℚ}
    (hle : stats.countP (fun s => kind s && pred t' s) ≤
      stats.countP (fun s => kind s && pred t s)) :
    ∀ s ∈ stats, kind s = true → pred t' s = true → pred t s = true := by
  intro s hs hkind hpred
  rcases le_total t' t with h | h
  · exact hmono h s hpred
  · have himp := imp_of_countP_le (P := fun s => kind s && pred t s)
      (Q := fun s => kind s && pred t' s) ?_ hle s hs (by simp [hkind, hpred])
    · simp only [Bool.and_eq_true] at himp
      exact himp.2
    · intro s' _ hs'
      simp only [Bool.and_eq_true] at hs' ⊢
      exact ⟨hs'.1, hmono h s' hs'.2⟩

section Pattern

variable {pred : ℚ → ActorStats → Bool} {thresholds : List ℚ} {o o' : Option ℚ}

/-- Thresholds that reach the floor alone find no lurker that the one of most does not. -/
theorem Most.positives (h : Most stats labels .lurker p pred thresholds o)
    (hmono : ∀ {t t' : ℚ}, t ≤ t' → ∀ s, pred t s = true → pred t' s = true)
    (h' : Alone stats labels .lurker p pred thresholds o') :
    ∀ s ∈ stats, positive labels .lurker s = true → o'.any (fun t => pred t s) = true →
      o.any (fun t => pred t s) = true := by
  intro s hs hpos hany
  obtain ⟨t', ht', hpred⟩ := (Option.any_eq_true _ _).mp hany
  obtain ⟨hmem, hreach⟩ := h' t' ht'
  obtain ⟨t, ht, hle⟩ := h.most t' hmem hreach
  rw [(confusion_counts _).1, (confusion_counts _).1] at hle
  exact (Option.any_eq_true _ _).mpr ⟨t, ht, nested hmono _ hle s hs hpos hpred⟩

/-- What a sweep returns accepts no other actor that a threshold of most lurkers does not. -/
theorem sweep_negatives
    (hmono : ∀ {t t' : ℚ}, t ≤ t' → ∀ s, pred t s = true → pred t' s = true)
    (h' : Most stats labels .lurker p pred thresholds o') :
    ∀ s ∈ stats, negative labels .lurker s = true →
      ((sweep stats labels .lurker p pred thresholds).map Prod.fst).any (fun t => pred t s) = true →
      o'.any (fun t => pred t s) = true := by
  intro s hs hneg hany
  obtain ⟨hmost, hfewest⟩ := sweep_chosen stats labels .lurker p pred thresholds
  obtain ⟨t, ht, hpred⟩ := (Option.any_eq_true _ _).mp hany
  obtain ⟨hmem, hreach⟩ := hmost.alone t ht
  obtain ⟨t', ht', hle⟩ := h'.most t hmem hreach
  obtain ⟨hmem', hreach'⟩ := h'.alone t' ht'
  have hfp := hfewest t ht t' hmem' hreach' hle
  rw [(confusion_counts _).2, (confusion_counts _).2] at hfp
  exact (Option.any_eq_true _ _).mpr ⟨t', ht', nested hmono _ hfp s hs hneg hpred⟩

end Pattern

/-- What the search returns matches the union of the two sweeps' thresholds. -/
theorem search_matches (stats : List ActorStats) (labels : List (ℤ × ActorLabel)) (p : ℚ) :
    (searchLurkerOrObserver stats labels p).Matches =
        union ((sweep stats labels .lurker p predA thresholdsA).map Prod.fst)
          ((sweep stats labels .lurker p predB thresholdsB).map Prod.fst) ∧
      ((searchLurkerOrObserver stats labels p).groups = [] ↔
        sweep stats labels .lurker p predA thresholdsA = none ∧
          sweep stats labels .lurker p predB thresholdsB = none) := by
  rw [searchLurkerOrObserver]
  cases sweep stats labels .lurker p predA thresholdsA with
  | none =>
    cases sweep stats labels .lurker p predB thresholdsB with
    | none => exact ⟨rfl, by simp [populateMetrics]⟩
    | some b =>
      refine ⟨?_, by simp [populateMetrics]⟩
      funext s
      rw [Bool.eq_iff_iff]
      simp [RecipeCalibration.Matches, populateMetrics, AxisGroup.evaluate, ActorStats.feature,
        union, predB]
  | some a =>
    cases sweep stats labels .lurker p predB thresholdsB with
    | none =>
      refine ⟨?_, by simp [populateMetrics]⟩
      funext s
      rw [Bool.eq_iff_iff]
      simp [RecipeCalibration.Matches, populateMetrics, AxisGroup.evaluate, ActorStats.feature,
        union, predA]
    | some b =>
      refine ⟨?_, by simp [populateMetrics]⟩
      funext s
      rw [Bool.eq_iff_iff]
      simp [RecipeCalibration.Matches, populateMetrics, AxisGroup.evaluate, ActorStats.feature,
        union, predA, predB]

/-- The union of what the sweeps return finds every lurker that thresholds at the floor find. -/
theorem union_tp_le {a b : Option ℚ} (ha : Alone stats labels .lurker p predA thresholdsA a)
    (hb : Alone stats labels .lurker p predB thresholdsB b) :
    (confusion stats labels .lurker (union a b)).tp ≤
      (confusion stats labels .lurker (searchLurkerOrObserver stats labels p).Matches).tp := by
  rw [(search_matches stats labels p).1, (confusion_counts _).1, (confusion_counts _).1]
  apply List.countP_mono_left
  intro s hs hcount
  simp only [Bool.and_eq_true, union, Bool.or_eq_true] at hcount ⊢
  obtain ⟨hpos, hany⟩ := hcount
  refine ⟨hpos, hany.imp ?_ ?_⟩
  · obtain ⟨hmost, -⟩ := sweep_chosen stats labels .lurker p predA thresholdsA
    exact hmost.positives predA_mono ha s hs hpos
  · obtain ⟨hmost, -⟩ := sweep_chosen stats labels .lurker p predB thresholdsB
    exact hmost.positives predB_mono hb s hs hpos

/-- It accepts no other actor that thresholds of most lurkers do not. -/
theorem union_fp_le {a b : Option ℚ} (ha : Most stats labels .lurker p predA thresholdsA a)
    (hb : Most stats labels .lurker p predB thresholdsB b) :
    (confusion stats labels .lurker (searchLurkerOrObserver stats labels p).Matches).fp ≤
      (confusion stats labels .lurker (union a b)).fp := by
  rw [(search_matches stats labels p).1, (confusion_counts _).2, (confusion_counts _).2]
  apply List.countP_mono_left
  intro s hs hcount
  simp only [Bool.and_eq_true, union, Bool.or_eq_true] at hcount ⊢
  obtain ⟨hneg, hany⟩ := hcount
  refine ⟨hneg, hany.imp ?_ ?_⟩
  · exact sweep_negatives predA_mono ha s hs hneg
  · exact sweep_negatives predB_mono hb s hs hneg

theorem sweep_eq_none_iff {T : Type} {lab : Label} {pred : T → ActorStats → Bool}
    {thresholds : List T} : sweep stats labels lab p pred thresholds = none ↔
      ∀ t ∈ thresholds, ¬Reaches stats labels lab p (pred t) := by
  obtain ⟨hmost, -⟩ := sweep_chosen stats labels lab p pred thresholds
  constructor
  · intro hnone t ht hreach
    rw [hnone] at hmost
    obtain ⟨t', ht', -⟩ := hmost.most t ht hreach
    exact absurd ht' (Option.not_mem_none t')
  · intro hnot
    by_contra hsome
    obtain ⟨b, hb⟩ := Option.ne_none_iff_exists'.mp hsome
    rw [hb] at hmost
    obtain ⟨hmem, hreach⟩ := hmost.alone b.1 rfl
    exact hnot b.1 hmem hreach

end Joint

/-- The search returns what a joint sweep would exactly on the actors whose patterns can be swept
apart. -/
theorem search_jointly_optimal_iff (stats : List ActorStats) (labels : List (ℤ × ActorLabel))
    (p : ℚ) : JointlyOptimal stats labels p (searchLurkerOrObserver stats labels p) ↔
      Separable stats labels p := by
  have hmostA := (sweep_chosen stats labels .lurker p predA thresholdsA).1
  have hmostB := (sweep_chosen stats labels .lurker p predB thresholdsB).1
  obtain ⟨hmatches, hgroups⟩ := search_matches stats labels p
  constructor
  · rintro ⟨hfloor, hbest⟩
    constructor
    · rcases hfloor with hnone | hreach
      · rw [hgroups, sweep_eq_none_iff, sweep_eq_none_iff] at hnone
        exact Or.inl hnone
      · rw [hmatches] at hreach
        exact Or.inr ⟨_, _, hmostA, hmostB, hreach⟩
    · intro a b ha hb hreach
      have hle := hbest a b ha hb hreach
      rw [hmatches] at hle
      exact ⟨_, _, hmostA.alone, hmostB.alone, hle⟩
  · rintro ⟨hfloor, hbest⟩
    constructor
    · rcases hfloor with hnone | ⟨a, b, ha, hb, hreach⟩
      · rw [← sweep_eq_none_iff, ← sweep_eq_none_iff, ← hgroups] at hnone
        exact Or.inl hnone
      · right
        exact hreach.trans (ratio_le_ratio (union_tp_le ha.alone hb.alone) (union_fp_le ha hb))
    · intro a b ha hb hreach
      obtain ⟨a', b', ha', hb', hle⟩ := hbest a b ha hb hreach
      exact hle.trans (union_tp_le ha' hb')

/-- Three lurkers that both patterns find, and one other actor that each finds: both patterns reach
the floor of 0.70, their union does not. -/
def overlapping : List ActorStats × List (ℤ × ActorLabel) :=
  let lurker (senderId : ℤ) : ActorStats := ⟨senderId, 10, 20, 1 / 2, 1 / 2⟩
  ([lurker 1, lurker 2, lurker 3, ⟨4, 100, 20, 5, 1 / 2⟩, ⟨5, 10, 20, 1 / 2, 1⟩],
    [(1, ⟨.lurker⟩), (2, ⟨.lurker⟩), (3, ⟨.lurker⟩), (4, ⟨.normal⟩), (5, ⟨.normal⟩)])

theorem union_below_floor :
    ¬JointlyOptimal overlapping.1 overlapping.2 (7 / 10)
      (searchLurkerOrObserver overlapping.1 overlapping.2 (7 / 10)) := by
  rintro ⟨hfloor, -⟩
  rcases hfloor with hnone | hreach
  · revert hnone
    decide +kernel
  · revert hreach
    rw [Reaches]
    decide +kernel

/-- A recipe of one threshold is swept as the recipe of two should be. -/
theorem chatty_optimal (stats : List ActorStats) (labels : List (ℤ × ActorLabel)) (p : ℚ) :
    ((searchChattyMember stats labels p).groups = [] ∨
        Reaches stats labels .chattyMember p (searchChattyMember stats labels p).Matches) ∧
      ∀ s ∈ stats, Reaches stats labels .chattyMember p (predChatty s.msgCount) →
        (confusion stats labels .chattyMember (predChatty s.msgCount)).tp ≤
          (confusion stats labels .chattyMember
            (searchChattyMember stats labels p).Matches).tp := by
  obtain ⟨hmost, -⟩ := sweep_chosen stats labels .chattyMember p predChatty
    ((stats.map (·.msgCount)).dedup).mergeSort
  have hswept : ∀ s ∈ stats, s.msgCount ∈ ((stats.map (·.msgCount)).dedup).mergeSort := by
    intro s hs
    rw [List.mem_mergeSort, List.mem_dedup]
    exact List.mem_map_of_mem hs
  rw [searchChattyMember]
  cases hsweep : sweep stats labels .chattyMember p predChatty
      ((stats.map (·.msgCount)).dedup).mergeSort with
  | none =>
    refine ⟨Or.inl rfl, ?_⟩
    intro s hs hreach
    exact absurd hreach (sweep_eq_none_iff.mp hsweep _ (hswept s hs))
  | some b =>
    rw [hsweep] at hmost
    have hmatches : RecipeCalibration.Matches (populateMetrics ⟨"chatty_member", "0.1",
        .chattyMember, [⟨[⟨.msgCount, .ge, b.1⟩]⟩], 0, 0, 0, 0, 0, 0, 0,
        [.msgCountMin b.1 b.2.1 b.2.2]⟩ stats labels) = predChatty b.1 := by
      funext s
      rw [Bool.eq_iff_iff]
      simp [RecipeCalibration.Matches, populateMetrics, AxisGroup.evaluate, ActorStats.feature,
        predChatty]
    simp only [hmatches]
    refine ⟨Or.inr (hmost.alone b.1 rfl).2, ?_⟩
    intro s hs hreach
    obtain ⟨t, ht, hle⟩ := hmost.most _ (hswept s hs) hreach
    obtain rfl := Option.mem_some_iff.mp ht
    exact hle

end RecipesGrid

end Eyenet
