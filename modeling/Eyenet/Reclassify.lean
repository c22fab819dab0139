import Eyenet.Enums
import Eyenet.Machine

/-!
# Classifier tiers and operator overrides

An attachment, a document or an observation carries the classifier's tier and an optional
operator override; the effective tier is the override when there is one. The classifier settles
its tier and operators promote, each by reading the row and writing it back in a second statement
(`sqlmodel_repo/attachments.py`, `documents.py`, `observations.py`).

* `TierRow` — a row together with the table's `CHECK` on it.
* `TierState.step_monotone` — one step, off the three ways a write can lower the effective tier.
* `effective_tier_monotone` — every interleaving of such steps.
-/

namespace Eyenet

open Machine

/-! ## One row -/

/-- What kind of row is reclassified. -/
inductive SubjectKind where
  | attachment
  | document
  | observation
  deriving DecidableEq, Repr

/-- The word for the kind in messages. -/
def SubjectKind.value : SubjectKind → String
  | attachment => "attachment"
  | document => "document"
  | observation => "observation"

/-- The two tier columns of a row, under the table's `CHECK` (`TIER_MONOTONE_CK`): an override
ranks at least as high as the classifier's tier. -/
structure TierRow where
  classifierTier : SensitivityTier
  operatorTierOverride : Option SensitivityTier
  monotone : ∀ o ∈ operatorTierOverride, classifierTier ≤ o
  deriving DecidableEq

namespace TierRow

/-- `COALESCE(operator_tier_override, classifier_tier)` -/
def effectiveTier (r : TierRow) : SensitivityTier := r.operatorTierOverride.getD r.classifierTier

/-- `UPDATE … SET classifier_tier`; `none` when the `CHECK` rejects it. -/
def setClassifierTier (r : TierRow) (tier : SensitivityTier) : Option TierRow :=
  if h : ∀ o ∈ r.operatorTierOverride, tier ≤ o then some ⟨tier, r.operatorTierOverride, h⟩
  else none

/-- `UPDATE … SET operator_tier_override`; `none` when the `CHECK` rejects it. -/
def setOverride (r : TierRow) (tier : SensitivityTier) : Option TierRow :=
  if h : r.classifierTier ≤ tier then
    some ⟨r.classifierTier, some tier, fun o ho => by
      obtain rfl : tier = o := Option.some.inj ho
      exact h⟩
  else none

/-- The classifier's tier is a lower bound, by the `CHECK`. -/
theorem classifierTier_le (r : TierRow) : r.classifierTier ≤ r.effectiveTier := by
  rw [effectiveTier]
  cases h : r.operatorTierOverride with
  | none => exact le_rfl
  | some o => exact r.monotone o h

theorem setOverride_eq_some {r r' : TierRow} {tier : SensitivityTier}
    (h : r.setOverride tier = some r') :
    r'.classifierTier = r.classifierTier ∧ r'.operatorTierOverride = some tier ∧
      r'.effectiveTier = tier := by
  rw [setOverride] at h
  split_ifs at h
  cases h
  exact ⟨rfl, rfl, rfl⟩

theorem setClassifierTier_eq_some {r r' : TierRow} {tier : SensitivityTier}
    (h : r.setClassifierTier tier = some r') :
    r'.classifierTier = tier ∧ r'.operatorTierOverride = r.operatorTierOverride ∧
      r'.effectiveTier = r.operatorTierOverride.getD tier := by
  rw [setClassifierTier] at h
  split_ifs at h
  cases h
  exact ⟨rfl, rfl, rfl⟩

end TierRow

/-! ## The decision of a reclassify call -/

/-- `_MIN_REASON_LEN` -/
def minReasonLen : ℕ := 16

/-- Why a reclassify call raises. -/
inductive ReclassifyError where
  /-- `ValueError`: the reason is too short -/
  | reasonTooShort
  /-- `ReclassifyDemotionError` -/
  | demotion (kind : SubjectKind) (subjectId : String) (current attempted : SensitivityTier)
  deriving DecidableEq, Repr

/-- The text of the error. -/
def ReclassifyError.message : ReclassifyError → String
  | reasonTooShort => "reclassify reason must be at least 16 characters"
  | demotion kind subjectId current attempted =>
    kind.value ++ " " ++ subjectId ++ ": cannot demote " ++ current.value ++ " -> " ++
      attempted.value

/-- What a reclassify call does after it has read the row. -/
inductive ReclassifyDecision where
  /-- the tier is already effective: return without a write -/
  | noChange
  /-- write the override -/
  | promote
  deriving DecidableEq, Repr

/-- The part of a reclassify call up to its write. -/
def reclassify (kind : SubjectKind) (subjectId : String) (row : TierRow)
    (newTier : SensitivityTier) (reason : String) : Except ReclassifyError ReclassifyDecision :=
  if reason.length < minReasonLen then .error .reasonTooShort
  else if newTier.rank < row.effectiveTier.rank then
    .error (.demotion kind subjectId row.effectiveTier newTier)
  else if newTier = row.effectiveTier then .ok .noChange
  else .ok .promote

/-- `reclassify_attachment` -/
def reclassifyAttachment := reclassify .attachment

/-- `reclassify_document` -/
def reclassifyDocument := reclassify .document

/-- `reclassify_observation` -/
def reclassifyObservation := reclassify .observation

/-- The reclassify call for a row of the kind. -/
def reclassifyFor : SubjectKind → String → TierRow → SensitivityTier → String →
    Except ReclassifyError ReclassifyDecision
  | .attachment => reclassifyAttachment
  | .document => reclassifyDocument
  | .observation => reclassifyObservation

theorem reclassifyFor_eq (kind : SubjectKind) : reclassifyFor kind = reclassify kind := by
  cases kind <;> rfl

/-- A call that does not raise asks for at least the effective tier it has read. -/
theorem reclassify_ok {kind : SubjectKind} {subjectId reason : String} {row : TierRow}
    {newTier : SensitivityTier} {d : ReclassifyDecision}
    (h : reclassify kind subjectId row newTier reason = .ok d) :
    row.effectiveTier ≤ newTier ∧ (d = .noChange → newTier = row.effectiveTier) := by
  rw [reclassify] at h
  split_ifs at h with hreason hrank heq
  · cases h
    exact ⟨heq.ge, fun _ => heq⟩
  · cases h
    exact ⟨not_lt.mp hrank, fun hd => nomatch hd⟩

/-! ## Interleaved calls on one row -/

/-- Where a call stands between its statements. -/
inductive TierCall where
  /-- a reclassify call is about to write its override -/
  | promoting (newTier : SensitivityTier)
  /-- a reclassify call has committed its override and is about to audit it -/
  | promoted (newTier : SensitivityTier)
  /-- the classifier has read the row and is about to write its tier -/
  | settling (tier readTier : SensitivityTier)
  deriving DecidableEq

/-- The row, the calls on it, whether it is settled, and the tiers that calls have accepted. -/
structure TierState where
  kind : SubjectKind
  row : TierRow
  calls : List (ℕ × TierCall)
  settled : Bool
  accepted : List SensitivityTier

/-- One statement of one call. -/
inductive TierStep where
  /-- a reclassify call reads the row -/
  | readForReclassify (id : ℕ) (newTier : SensitivityTier) (reason : String)
  /-- it writes the override -/
  | writeOverride (id : ℕ)
  /-- it returns; or raises, when the audit row could not be written -/
  | finishReclassify (id : ℕ) (audited : Bool)
  /-- `set_attachment_classification` or `settle_document_classification` reads the row -/
  | readForSettle (id : ℕ) (tier : SensitivityTier)
  /-- it writes the classifier's tier -/
  | writeClassifierTier (id : ℕ)

namespace TierState

/-- A row as it is inserted. An observation comes with its final tier. -/
def initial (kind : SubjectKind) (tier : SensitivityTier) : TierState :=
  ⟨kind, ⟨tier, none, fun _ h => nomatch h⟩, [], kind == .observation, []⟩

/-- The call with this id. -/
def call (s : TierState) (id : ℕ) : Option TierCall :=
  (s.calls.find? fun c => c.1 == id).map Prod.snd

/-- The other calls. -/
def others (s : TierState) (id : ℕ) : List (ℕ × TierCall) := s.calls.filter fun c => c.1 != id

/-- One statement of one call. A write that the `CHECK` rejects ends its call. The session sends
no `UPDATE` for a classifier tier that equals the one it has read. -/
def step (s : TierState) : TierStep → Option TierState
  | .readForReclassify id newTier reason =>
    if (s.call id).isSome then none
    else match reclassifyFor s.kind "row" s.row newTier reason with
      | .error _ => some s
      | .ok .noChange => some { s with accepted := newTier :: s.accepted }
      | .ok .promote => some { s with calls := (id, .promoting newTier) :: s.calls }
  | .writeOverride id =>
    match s.call id with
    | some (.promoting newTier) =>
      match s.row.setOverride newTier with
      | none => some { s with calls := s.others id }
      | some row => some { s with row := row, calls := (id, .promoted newTier) :: s.others id }
    | _ => none
  | .finishReclassify id audited =>
    match s.call id with
    | some (.promoted newTier) =>
      if audited then some { s with calls := s.others id, accepted := newTier :: s.accepted }
      else some { s with calls := s.others id }
    | _ => none
  | .readForSettle id tier =>
    if (s.call id).isSome ∨ s.kind = .observation then none
    else some { s with calls := (id, .settling tier s.row.classifierTier) :: s.calls }
  | .writeClassifierTier id =>
    match s.call id with
    | some (.settling tier readTier) =>
      if tier = readTier then some { s with calls := s.others id, settled := true }
      else match s.row.setClassifierTier tier with
        | none => some { s with calls := s.others id }
        | some row => some { s with row := row, calls := s.others id, settled := true }
    | _ => none

/-- The write about to happen does not lower the effective tier below what is promised: an
override that lands is not below the tier effective by then; and a classifier tier that lands on a
row without an override is not below a tier accepted before, nor, on a settled row, below the
classifier's own tier. -/
def Promising (s : TierState) : TierStep → Prop
  | .writeOverride id => ∀ newTier, s.call id = some (.promoting newTier) →
      s.row.classifierTier ≤ newTier → s.row.effectiveTier ≤ newTier
  | .writeClassifierTier id => ∀ tier readTier, s.call id = some (.settling tier readTier) →
      tier ≠ readTier → s.row.operatorTierOverride = none →
        (∀ t ∈ s.accepted, t ≤ tier) ∧ (s.settled = true → s.row.classifierTier ≤ tier)
  | _ => True

/-! ## The invariant -/

variable {s s' : TierState} {a : TierStep}

/-- Accepted tiers, and the overrides of calls about to return, are below the effective tier. -/
structure Kept (s : TierState) : Prop where
  accepted : ∀ t ∈ s.accepted, t ≤ s.row.effectiveTier
  promoted : ∀ id t, (id, TierCall.promoted t) ∈ s.calls →
    ∃ o, s.row.operatorTierOverride = some o ∧ t ≤ o

theorem mem_of_call {id : ℕ} {c : TierCall} (h : s.call id = some c) : (id, c) ∈ s.calls := by
  obtain ⟨⟨id', c'⟩, hfind, rfl⟩ := Option.map_eq_some_iff.mp h
  obtain rfl : id' = id := by simpa using List.find?_some hfind
  exact List.mem_of_find?_eq_some hfind

theorem Kept.others (h : s.Kept) (id : ℕ) : ∀ id' t, (id', TierCall.promoted t) ∈ s.others id →
    ∃ o, s.row.operatorTierOverride = some o ∧ t ≤ o :=
  fun id' t hmem => h.promoted id' t (List.mem_of_mem_filter hmem)

/-- **One step.** Under the condition a step keeps what is accepted, and on a settled row it does
not lower the effective tier. -/
theorem step_monotone (h : s.Kept) (hC : s.Promising a) (hstep : s.step a = some s') :
    s'.Kept ∧ (s.settled = true → s'.settled = true ∧
      s.row.effectiveTier ≤ s'.row.effectiveTier) := by
  cases a with
  | readForReclassify id newTier reason =>
    simp only [step] at hstep
    split_ifs at hstep
    cases hd : reclassifyFor s.kind "row" s.row newTier reason with
    | error e =>
      rw [hd] at hstep
      cases hstep
      exact ⟨h, fun hs => ⟨hs, le_rfl⟩⟩
    | ok d =>
      rw [hd] at hstep
      rw [reclassifyFor_eq] at hd
      obtain ⟨-, hsame⟩ := reclassify_ok hd
      cases d with
      | noChange =>
        cases hstep
        refine ⟨⟨?_, h.promoted⟩, fun hs => ⟨hs, le_rfl⟩⟩
        intro t ht
        rcases List.mem_cons.mp ht with rfl | ht
        · exact (hsame rfl).le
        · exact h.accepted t ht
      | promote =>
        cases hstep
        refine ⟨⟨h.accepted, ?_⟩, fun hs => ⟨hs, le_rfl⟩⟩
        intro id' t hmem
        rcases List.mem_cons.mp hmem with heq | hmem
        · cases heq
        · exact h.promoted id' t hmem
  | writeOverride id =>
    simp only [step] at hstep
    split at hstep
    · next newTier hcall =>
      cases hrow : s.row.setOverride newTier with
      | none =>
        rw [hrow] at hstep
        cases hstep
        exact ⟨⟨h.accepted, h.others id⟩, fun hs => ⟨hs, le_rfl⟩⟩
      | some row =>
        rw [hrow] at hstep
        cases hstep
        obtain ⟨hclassifier, hoverride, heffective⟩ := TierRow.setOverride_eq_some hrow
        have hcheck : s.row.classifierTier ≤ newTier := by
          have := row.classifierTier_le
          rwa [hclassifier, heffective] at this
        have hup : s.row.effectiveTier ≤ row.effectiveTier := by
          rw [heffective]
          exact hC newTier hcall hcheck
        refine ⟨⟨fun t ht => (h.accepted t ht).trans hup, ?_⟩, fun hs => ⟨hs, hup⟩⟩
        intro id' t hmem
        refine ⟨newTier, hoverride, ?_⟩
        rcases List.mem_cons.mp hmem with heq | hmem
        · cases heq
          exact le_rfl
        · obtain ⟨o, ho, hto⟩ := h.others id id' t hmem
          have heff : s.row.effectiveTier = o := by rw [TierRow.effectiveTier, ho]; rfl
          rw [← heffective]
          exact (hto.trans heff.ge).trans hup
    · cases hstep
  | finishReclassify id audited =>
    simp only [step] at hstep
    split at hstep
    · next newTier hcall =>
      split_ifs at hstep
      · cases hstep
        refine ⟨⟨?_, h.others id⟩, fun hs => ⟨hs, le_rfl⟩⟩
        intro t ht
        rcases List.mem_cons.mp ht with rfl | ht
        · obtain ⟨o, ho, hto⟩ := h.promoted id t (mem_of_call hcall)
          have heff : s.row.effectiveTier = o := by rw [TierRow.effectiveTier, ho]; rfl
          exact hto.trans heff.ge
        · exact h.accepted t ht
      · cases hstep
        exact ⟨⟨h.accepted, h.others id⟩, fun hs => ⟨hs, le_rfl⟩⟩
    · cases hstep
  | readForSettle id tier =>
    simp only [step] at hstep
    split_ifs at hstep
    cases hstep
    refine ⟨⟨h.accepted, ?_⟩, fun hs => ⟨hs, le_rfl⟩⟩
    intro id' t hmem
    rcases List.mem_cons.mp hmem with heq | hmem
    · cases heq
    · exact h.promoted id' t hmem
  | writeClassifierTier id =>
    simp only [step] at hstep
    split at hstep
    · next tier readTier hcall =>
      split_ifs at hstep with hsame
      · cases hstep
        exact ⟨⟨h.accepted, h.others id⟩, fun _ => ⟨rfl, le_rfl⟩⟩
      · cases hrow : s.row.setClassifierTier tier with
        | none =>
          rw [hrow] at hstep
          cases hstep
          exact ⟨⟨h.accepted, h.others id⟩, fun hs => ⟨hs, le_rfl⟩⟩
        | some row =>
          rw [hrow] at hstep
          cases hstep
          obtain ⟨-, hoverride, heffective⟩ := TierRow.setClassifierTier_eq_some hrow
          have hpromoted : ∀ id' t, (id', TierCall.promoted t) ∈ s.others id →
              ∃ o, row.operatorTierOverride = some o ∧ t ≤ o := by
            rw [hoverride]
            exact h.others id
          cases hnone : s.row.operatorTierOverride with
          | none =>
            -- without an override the classifier's tier is the effective one
            obtain ⟨haccepted, hsettled⟩ := hC tier readTier hcall hsame hnone
            rw [hnone, Option.getD_none] at heffective
            have heff : s.row.effectiveTier = s.row.classifierTier := by
              rw [TierRow.effectiveTier, hnone]
              rfl
            refine ⟨⟨?_, hpromoted⟩, fun hs => ⟨rfl, ?_⟩⟩
            · rw [heffective]
              exact haccepted
            · rw [heff, heffective]
              exact hsettled hs
          | some o =>
            have hsameTier : row.effectiveTier = s.row.effectiveTier := by
              rw [heffective, TierRow.effectiveTier, hnone]
              rfl
            refine ⟨⟨?_, hpromoted⟩, fun _ => ⟨rfl, hsameTier.ge⟩⟩
            rw [hsameTier]
            exact h.accepted
    · cases hstep

/-! ## Runs -/

/-- The run condition, one step at a time, with the first part of the run cut off. -/
theorem run_monotone {steps : List TierStep} (h : s.Kept) (hC : Along step Promising s steps)
    (hrun : run step s steps = some s') :
    s'.Kept ∧ (s.settled = true → s.row.effectiveTier ≤ s'.row.effectiveTier) := by
  have hinv : s'.Kept ∧ (s.settled = true → s'.settled = true ∧
      s.row.effectiveTier ≤ s'.row.effectiveTier) := by
    refine run_preserves_along (I := fun t => t.Kept ∧ (s.settled = true → t.settled = true ∧
      s.row.effectiveTier ≤ t.row.effectiveTier)) ?_ ⟨h, fun hs => ⟨hs, le_rfl⟩⟩ hC hrun
    rintro t a t' ⟨hkept, hup⟩ hcond hstep
    obtain ⟨hkept', hup'⟩ := step_monotone hkept hcond hstep
    refine ⟨hkept', fun hs => ?_⟩
    obtain ⟨ht, hle⟩ := hup hs
    obtain ⟨ht', hle'⟩ := hup' ht
    exact ⟨ht', hle.trans hle'⟩
  exact ⟨hinv.1, fun hs => (hinv.2 hs).2⟩

theorem Kept.initial (kind : SubjectKind) (tier : SensitivityTier) :
    (TierState.initial kind tier).Kept :=
  ⟨fun _ h => absurd h List.not_mem_nil, fun _ _ h => absurd h List.not_mem_nil⟩

instance (s : TierState) (a : TierStep) : Decidable (s.Promising a) :=
  match a with
  | .writeOverride id =>
    match h : s.call id with
    | some (.promoting newTier) =>
      decidable_of_iff (s.row.classifierTier ≤ newTier → s.row.effectiveTier ≤ newTier)
        (by simp [Promising, h])
    | some (.promoted _) | some (.settling _ _) | none => .isTrue (by simp [Promising, h])
  | .writeClassifierTier id =>
    match h : s.call id with
    | some (.settling tier readTier) =>
      decidable_of_iff (tier ≠ readTier → s.row.operatorTierOverride = none →
        (∀ t ∈ s.accepted, t ≤ tier) ∧ (s.settled = true → s.row.classifierTier ≤ tier))
        (by simp [Promising, h])
    | some (.promoting _) | some (.promoted _) | none => .isTrue (by simp [Promising, h])
  | .readForReclassify _ _ _ | .finishReclassify _ _ | .readForSettle _ _ => .isTrue trivial

/-- An attachment is born classified, settled as restricted, and promoted to classified. -/
def settleThenPromote : List TierStep :=
  [.readForSettle 0 .restricted, .writeClassifierTier 0,
    .readForReclassify 1 .classified "names a real victim", .writeOverride 1,
    .finishReclassify 1 true]

end TierState

end Eyenet
