import Eyenet.Calls
import Eyenet.Linkage
import Eyenet.Machine

/-!
# Verifying a proposed linkage

The verifier (`verifier/service.py`) scores the pair of every proposed linkage with each verifier
that is enabled, records the composite, and, where it reaches the floor, makes the linkage suspected
and announces it. It handles every proposal in a task of its own, while operators decide linkages;
`transition_linkage` reads a row, checks the transition, and writes in a second statement.

* `VerifierRun.stands_iff` — exactly when what was decided of a linkage stands.
* `VerifierRun.announced` — if no write is stale, a linkage is announced at most once, by what the
  verifiers reported.
-/

namespace Eyenet

open Machine

/-! ## Scores -/

/-- `VerificationResult`, without its evidence. -/
structure VerificationResult where
  method : String
  score : ℚ
  confidence : ℚ
  skipped : Bool
  skipReason : Option String
  deriving DecidableEq

/-- `Verifier`, as the service looks at it. -/
structure Verifier where
  name : String
  requiresLanguage : Bool
  deriving DecidableEq

/-- `VerifierThresholds`; the dicts are by their items. -/
structure VerifierThresholds where
  generalImpostors : ℚ
  compressionDistance : ℚ
  generalImpostorsPerLang : List (String × Option ℚ)
  compressionDistancePerLang : List (String × Option ℚ)
  compositeFloor : ℚ
  deriving DecidableEq

namespace VerifierThresholds

/-- The dict under the name of a verifier, if there is one. -/
def perLang (th : VerifierThresholds) (name : String) : List (String × Option ℚ) :=
  if name = "general_impostors" then th.generalImpostorsPerLang
  else if name = "compression_distance" then th.compressionDistancePerLang
  else []

/-- `for_verifier`; `none` is a verifier that is disabled for the language. -/
def forVerifier (th : VerifierThresholds) (name : String) (language : Option String) : Option ℚ :=
  match language.bind fun lang => (th.perLang name).lookup lang with
  | some floor => floor
  | none =>
    if name = "general_impostors" then some th.generalImpostors
    else if name = "compression_distance" then some th.compressionDistance
    else some (1 / 2)

end VerifierThresholds

/-- `VerifierService`: its thresholds, its verifiers, and the mean of scores as floats have it. -/
structure VerifierService where
  thresholds : VerifierThresholds
  verifiers : List Verifier
  mean : List ℚ → ℚ

/-- `LinkageProposedEnvelope`, as far as it is looked at. -/
structure LinkageProposed where
  linkageId : Uuid
  language : Option String
  deriving DecidableEq

/-- A row of `linkage_verifier_result`. -/
structure VerifierRecord where
  composite : ℚ
  floor : ℚ
  state : String
  results : List VerificationResult
  deriving DecidableEq

namespace VerifierService

variable (svc : VerifierService)

/-- The verifiers that the loop does not pass over. -/
def enabled (language : Option String) : List Verifier :=
  svc.verifiers.filter fun v =>
    (svc.thresholds.forVerifier v.name language).isSome &&
      !(v.requiresLanguage && language.isNone)

/-- `scored` -/
def qualified (results : List VerificationResult) : List VerificationResult :=
  results.filter fun r => !r.skipped && decide (0 < r.confidence)

/-- `composite` -/
def composite (results : List VerificationResult) : ℚ :=
  svc.mean ((qualified results).map (·.score))

/-- `promoted` -/
def promotes (results : List VerificationResult) : Bool :=
  decide (svc.thresholds.compositeFloor ≤ svc.composite results)

/-- What `record_verifier_result` is called with. -/
def record (results : List VerificationResult) : VerifierRecord where
  composite := svc.composite results
  floor := svc.thresholds.compositeFloor
  state := if svc.promotes results then "suspected" else "below_floor"
  results := results

end VerifierService

/-! ## Interleavings -/

/-- The columns of a linkage that a transition writes. -/
structure LinkageDecision where
  state : LinkageState
  decidedBy : Option String
  deriving DecidableEq

/-- The `UPDATE` of `transition_linkage`: the session sends the columns that differ from what was
loaded. -/
def LinkageDecision.update (loaded : LinkageDecision) (target : LinkageState) (decidedBy : String)
    (current : LinkageDecision) : LinkageDecision where
  state := if target ≠ loaded.state then target else current.state
  decidedBy := if some decidedBy ≠ loaded.decidedBy then some decidedBy else current.decidedBy

/-- Where a task of the verifier, or a call of `transition_linkage`, stands. -/
inductive VerifierPhase where
  | scoring (env : LinkageProposed) (rest : List Verifier) (results : List VerificationResult)
  /-- before the `SELECT` and the write of `record_verifier_result` -/
  | selecting (linkageId : Uuid) (results : List VerificationResult)
  | recording (linkageId : Uuid) (results : List VerificationResult) (exists_ : Bool)
  /-- before the read and the write of `transition_linkage` -/
  | reading (linkageId : Uuid) (results : List VerificationResult)
  | promoting (linkageId : Uuid) (results : List VerificationResult) (loaded : LinkageDecision)
  | publishing (linkageId : Uuid) (results : List VerificationResult)
  | auditing (linkageId : Uuid) (results : List VerificationResult)
  /-- an operator's call has read the row -/
  | deciding (linkageId : Uuid) (target : LinkageState) (decidedBy : String)
      (loaded : LinkageDecision)
  | ended
  deriving DecidableEq

/-- An announcement, or its audit event: the linkage and the composite. -/
abbrev Announcement := Uuid × ℚ

/-- The rows, the records, the calls, and what was announced and audited. -/
structure VerifierRun where
  rows : Uuid → Option LinkageDecision
  records : Uuid → Option VerifierRecord
  calls : Calls VerifierPhase
  published : List Announcement
  audited : List Announcement

/-- One statement of one call. -/
inductive VerifierStep where
  /-- the linker proposes a linkage -/
  | propose (linkageId : Uuid)
  | receive (call : ℕ) (env : LinkageProposed)
  /-- a verifier reports, and its audit event is emitted, unless either raises -/
  | score (call : ℕ) (result : Option VerificationResult) (audited : Bool)
  | conclude (call : ℕ)
  | select (call : ℕ)
  | record (call : ℕ)
  | read (call : ℕ)
  | decide (call : ℕ) (linkageId : Uuid) (target : LinkageState) (decidedBy : String)
  | write (call : ℕ)
  | publish (call : ℕ) (ok : Bool)
  | audit (call : ℕ) (ok : Bool)

namespace VerifierRun

/-- A database, before any call. -/
def init (rows : Uuid → Option LinkageDecision) (records : Uuid → Option VerifierRecord) :
    VerifierRun := ⟨rows, records, [], [], []⟩

/-- A call moves on. -/
def put (s : VerifierRun) (call : ℕ) (phase : VerifierPhase) : VerifierRun :=
  { s with calls := s.calls.put call phase }

/-- `transition_linkage` up to its write. -/
def load (s : VerifierRun) (linkageId : Uuid) (target : LinkageState) : Option LinkageDecision :=
  (s.rows linkageId).filter fun row => target ∈ row.state.legalTransitions

/-- The write of `transition_linkage`. -/
def update (s : VerifierRun) (linkageId : Uuid) (loaded : LinkageDecision) (target : LinkageState)
    (decidedBy : String) : VerifierRun :=
  { s with
    rows := Function.update s.rows linkageId
      ((s.rows linkageId).map (loaded.update target decidedBy)) }

/-- `record_verifier_result` after its `SELECT`; `none` where the database refuses the row. -/
def storeRecord (s : VerifierRun) (linkageId : Uuid) (record : VerifierRecord) (exists_ : Bool) :
    Option VerifierRun :=
  if exists_ || (s.rows linkageId).isSome && (s.records linkageId).isNone then
    some { s with records := Function.update s.records linkageId (some record) }
  else none

/-- One statement of one call; `none` where the call is not there. -/
def step (svc : VerifierService) (s : VerifierRun) : VerifierStep → Option VerifierRun
  | .propose linkageId =>
    match s.rows linkageId with
    | none => some { s with rows := Function.update s.rows linkageId (some ⟨.proposed, none⟩) }
    | some _ => none
  | .receive call env =>
    match s.calls.phase call with
    | none => some (s.put call (.scoring env (svc.enabled env.language) []))
    | some _ => none
  | .score call result audited =>
    match s.calls.phase call with
    | some (.scoring env (_ :: rest) results) =>
      match result with
      | none => some (s.put call (.scoring env rest results))
      | some result =>
        if audited then some (s.put call (.scoring env rest (results ++ [result])))
        else some (s.put call .ended)
    | _ => none
  | .conclude call =>
    match s.calls.phase call with
    | some (.scoring env [] results) =>
      if VerifierService.qualified results = [] then some (s.put call .ended)
      else some (s.put call (.selecting env.linkageId results))
    | _ => none
  | .select call =>
    match s.calls.phase call with
    | some (.selecting linkageId results) =>
      some (s.put call (.recording linkageId results (s.records linkageId).isSome))
    | _ => none
  | .record call =>
    match s.calls.phase call with
    | some (.recording linkageId results exists_) =>
      match s.storeRecord linkageId (svc.record results) exists_ with
      | none => some (s.put call .ended)
      | some s' =>
        if svc.promotes results then some (s'.put call (.reading linkageId results))
        else some (s'.put call .ended)
    | _ => none
  | .read call =>
    match s.calls.phase call with
    | some (.reading linkageId results) =>
      match s.load linkageId .suspected with
      | none => some (s.put call .ended)
      | some loaded => some (s.put call (.promoting linkageId results loaded))
    | _ => none
  | .decide call linkageId target decidedBy =>
    match s.calls.phase call with
    | none =>
      match s.load linkageId target with
      | none => some (s.put call .ended)
      | some loaded => some (s.put call (.deciding linkageId target decidedBy loaded))
    | some _ => none
  | .write call =>
    match s.calls.phase call with
    | some (.promoting linkageId results loaded) =>
      some ((s.update linkageId loaded .suspected "verifier").put call
        (.publishing linkageId results))
    | some (.deciding linkageId target decidedBy loaded) =>
      some ((s.update linkageId loaded target decidedBy).put call .ended)
    | _ => none
  | .publish call ok =>
    match s.calls.phase call with
    | some (.publishing linkageId results) =>
      if ok then
        some { s with
          calls := s.calls.put call (.auditing linkageId results)
          published := s.published ++ [(linkageId, svc.composite results)] }
      else some (s.put call .ended)
    | _ => none
  | .audit call ok =>
    match s.calls.phase call with
    | some (.auditing linkageId results) =>
      if ok then
        some { s with
          calls := s.calls.put call .ended
          audited := s.audited ++ [(linkageId, svc.composite results)] }
      else some (s.put call .ended)
    | _ => none

/-! ## What a statement does -/

/-- A write that a call is about to make. -/
structure Write where
  linkageId : Uuid
  target : LinkageState
  decidedBy : String
  loaded : LinkageDecision

/-- The write that is next. -/
def nextWrite : VerifierPhase → Option Write
  | .promoting linkageId _ loaded => some ⟨linkageId, .suspected, "verifier", loaded⟩
  | .deciding linkageId target decidedBy loaded => some ⟨linkageId, target, decidedBy, loaded⟩
  | _ => none

/-- The write that a statement makes. -/
def pending (s : VerifierRun) : VerifierStep → Option Write
  | .write call => (s.calls.phase call).bind nextWrite
  | _ => none

/-- The linkage that a task evaluates, and what the verifiers have reported. -/
def evaluated : VerifierPhase → Option (Uuid × List VerificationResult)
  | .scoring env _ results => some (env.linkageId, results)
  | .selecting linkageId results | .recording linkageId results _ | .reading linkageId results
  | .promoting linkageId results _ | .publishing linkageId results
  | .auditing linkageId results => some (linkageId, results)
  | .deciding .. | .ended => none

/-- A verifier may still report to the task. -/
def scoring : VerifierPhase → Bool
  | .scoring .. => true
  | _ => false

/-- The announcement that a task is about to publish or to audit. -/
def announcing : VerifierPhase → Option (Uuid × List VerificationResult)
  | .publishing linkageId results | .auditing linkageId results => some (linkageId, results)
  | _ => none

/-- A task goes on after its scores. -/
def Scored (svc : VerifierService) : VerifierPhase → Prop
  | .selecting _ results | .recording _ results _ => VerifierService.qualified results ≠ []
  | .reading _ results | .promoting _ results _ | .publishing _ results | .auditing _ results =>
    VerifierService.qualified results ≠ [] ∧ svc.promotes results = true
  | _ => True

variable {svc : VerifierService} {s s' : VerifierRun} {a : VerifierStep}

/-- What one statement does. -/
inductive Effect (svc : VerifierService) (s : VerifierRun) (a : VerifierStep) : VerifierRun → Prop
  | propose {linkageId} (hnew : s.rows linkageId = none) :
      Effect svc s a { s with rows := Function.update s.rows linkageId (some ⟨.proposed, none⟩) }
  | receive {call env} (ha : a = .receive call env) (hfree : s.calls.phase call = none) :
      Effect svc s a (s.put call (.scoring env (svc.enabled env.language) []))
  | score {call env v rest results result} (ha : a = .score call (some result) true)
      (hphase : s.calls.phase call = some (.scoring env (v :: rest) results)) :
      Effect svc s a (s.put call (.scoring env rest (results ++ [result])))
  | move {call phase phase'} (hphase : s.calls.phase call = some phase)
      (hevaluated : ∀ x ∈ evaluated phase', x ∈ evaluated phase)
      (hscored : Scored svc phase → Scored svc phase')
      (hscoring : scoring phase' = true → scoring phase = true)
      (hwrite : ∀ w ∈ nextWrite phase',
        s.load w.linkageId w.target = some w.loaded ∧ w.target = .suspected)
      (hannouncing : announcing phase' = none) :
      Effect svc s a (s.put call phase')
  | record {call linkageId results exists_ records phase'}
      (hphase : s.calls.phase call = some (.recording linkageId results exists_))
      (hphase' : phase' = .ended ∨ svc.promotes results = true ∧
        phase' = .reading linkageId results) :
      Effect svc s a ({ s with records }.put call phase')
  | refuse {call} (hfree : s.calls.phase call = none) : Effect svc s a (s.put call .ended)
  | decide {call linkageId target decidedBy loaded} (hfree : s.calls.phase call = none)
      (hload : s.load linkageId target = some loaded) :
      Effect svc s a (s.put call (.deciding linkageId target decidedBy loaded))
  | promote {call linkageId results loaded} (ha : a = .write call)
      (hphase : s.calls.phase call = some (.promoting linkageId results loaded)) :
      Effect svc s a ((s.update linkageId loaded .suspected "verifier").put call
        (.publishing linkageId results))
  | decided {call linkageId target decidedBy loaded} (ha : a = .write call)
      (hphase : s.calls.phase call = some (.deciding linkageId target decidedBy loaded)) :
      Effect svc s a ((s.update linkageId loaded target decidedBy).put call .ended)
  | publish {call linkageId results}
      (hphase : s.calls.phase call = some (.publishing linkageId results)) :
      Effect svc s a
        { s with
          calls := s.calls.put call (.auditing linkageId results)
          published := s.published ++ [(linkageId, svc.composite results)] }
  | audit {call linkageId results}
      (hphase : s.calls.phase call = some (.auditing linkageId results)) :
      Effect svc s a
        { s with
          calls := s.calls.put call .ended
          audited := s.audited ++ [(linkageId, svc.composite results)] }

/-- A call that ends does nothing more. -/
theorem Effect.stop {call : ℕ} {phase : VerifierPhase}
    (hphase : s.calls.phase call = some phase) : Effect svc s a (s.put call .ended) :=
  .move hphase (fun _ hx => absurd hx (Option.not_mem_none _)) (fun _ => trivial)
    (fun h => absurd h Bool.false_ne_true) (fun _ hw => absurd hw (Option.not_mem_none _)) rfl

theorem step_effect (h : s.step svc a = some s') : Effect svc s a s' := by
  cases a with
  | propose linkageId =>
    rw [step] at h
    split at h
    · next hnew =>
      obtain rfl := Option.some.inj h
      exact .propose hnew
    · cases h
  | receive call env =>
    rw [step] at h
    split at h
    · next hfree =>
      obtain rfl := Option.some.inj h
      exact .receive rfl hfree
    · cases h
  | score call result audited =>
    rw [step] at h
    split at h
    · next env v rest results hphase =>
      split at h
      · obtain rfl := Option.some.inj h
        exact .move hphase (fun _ hx => hx) (fun _ => trivial) (fun _ => rfl)
          (fun _ hw => absurd hw (Option.not_mem_none _)) rfl
      · split_ifs at h with haudited
        · obtain rfl := Option.some.inj h
          rw [haudited]
          exact .score rfl hphase
        · obtain rfl := Option.some.inj h
          exact .stop hphase
    · cases h
  | conclude call =>
    rw [step] at h
    split at h
    · next env results hphase =>
      split_ifs at h with hqualified
      · obtain rfl := Option.some.inj h
        exact .stop hphase
      · obtain rfl := Option.some.inj h
        exact .move hphase (fun _ hx => hx) (fun _ => hqualified) (fun _ => rfl)
          (fun _ hw => absurd hw (Option.not_mem_none _)) rfl
    · cases h
  | select call =>
    rw [step] at h
    split at h
    · next linkageId results hphase =>
      obtain rfl := Option.some.inj h
      exact .move hphase (fun _ hx => hx) id id
        (fun _ hw => absurd hw (Option.not_mem_none _)) rfl
    · cases h
  | record call =>
    rw [step] at h
    split at h
    · next linkageId results exists_ hphase =>
      split at h
      · obtain rfl := Option.some.inj h
        exact .stop hphase
      · next hstored =>
        rw [storeRecord] at hstored
        split_ifs at hstored
        obtain rfl := Option.some.inj hstored
        split_ifs at h with hpromotes
        · obtain rfl := Option.some.inj h
          exact .record hphase (Or.inr ⟨hpromotes, rfl⟩)
        · obtain rfl := Option.some.inj h
          exact .record hphase (Or.inl rfl)
    · cases h
  | read call =>
    rw [step] at h
    split at h
    · next linkageId results hphase =>
      split at h
      · obtain rfl := Option.some.inj h
        exact .stop hphase
      · next loaded hload =>
        obtain rfl := Option.some.inj h
        refine .move hphase (fun _ hx => hx) id id ?_ rfl
        intro w hw
        cases hw
        exact ⟨hload, rfl⟩
    · cases h
  | decide call linkageId target decidedBy =>
    rw [step] at h
    split at h
    · next hfree =>
      split at h
      · obtain rfl := Option.some.inj h
        exact .refuse hfree
      · next loaded hload =>
        obtain rfl := Option.some.inj h
        exact .decide hfree hload
    · cases h
  | write call =>
    rw [step] at h
    split at h
    · next linkageId results loaded hphase =>
      obtain rfl := Option.some.inj h
      exact .promote rfl hphase
    · next linkageId target decidedBy loaded hphase =>
      obtain rfl := Option.some.inj h
      exact .decided rfl hphase
    · cases h
  | publish call ok =>
    rw [step] at h
    split at h
    · next linkageId results hphase =>
      split_ifs at h
      · obtain rfl := Option.some.inj h
        exact .publish hphase
      · obtain rfl := Option.some.inj h
        exact .stop hphase
    · cases h
  | audit call ok =>
    rw [step] at h
    split at h
    · next linkageId results hphase =>
      split_ifs at h
      · obtain rfl := Option.some.inj h
        exact .audit hphase
      · obtain rfl := Option.some.inj h
        exact .stop hphase
    · cases h

/-! ## Decisions that stand -/

/-- The state leads to another by legal transitions. -/
def Reaches : LinkageState → LinkageState → Prop :=
  Relation.ReflTransGen fun state target => target ∈ state.legalTransitions

/-- Every linkage is still there, in a state to which its state led. -/
def Stands (s s' : VerifierRun) : Prop :=
  ∀ linkageId row, s.rows linkageId = some row →
    ∃ row', s'.rows linkageId = some row' ∧ Reaches row.state row'.state

/-- A write is legal from the state that it finds. -/
def Legal (s : VerifierRun) (a : VerifierStep) : Prop :=
  ∀ w ∈ s.pending a, ∀ row ∈ s.rows w.linkageId, Reaches row.state w.target

/-- A write finds the state that its call read. -/
def Current (s : VerifierRun) (a : VerifierStep) : Prop :=
  ∀ w ∈ s.pending a, ∀ row ∈ s.rows w.linkageId, row.state = w.loaded.state

instance (s : VerifierRun) (a : VerifierStep) : Decidable (Current s a) :=
  inferInstanceAs (Decidable (∀ w ∈ s.pending a, ∀ row ∈ s.rows w.linkageId,
    row.state = w.loaded.state))

/-- A call that is about to write has passed the check, on a row that there is. -/
def Checked (rows : Uuid → Option LinkageDecision) (calls : Calls VerifierPhase) : Prop :=
  ∀ call phase, calls.phase call = some phase → ∀ w ∈ nextWrite phase,
    w.target ∈ w.loaded.state.legalTransitions ∧ (rows w.linkageId).isSome = true

section Checked

variable {rows rows' : Uuid → Option LinkageDecision} {calls : Calls VerifierPhase} {call : ℕ}
  {phase : VerifierPhase} {linkageId : Uuid} {loaded row : LinkageDecision}
  {target : LinkageState} {decidedBy : String}

theorem Checked.put (h : Checked rows calls)
    (hrows : ∀ linkageId, (rows linkageId).isSome = true → (rows' linkageId).isSome = true)
    (hphase : ∀ w ∈ nextWrite phase,
      w.target ∈ w.loaded.state.legalTransitions ∧ (rows w.linkageId).isSome = true) :
    Checked rows' (calls.put call phase) := by
  intro c p hp w hw
  rw [Calls.phase_put] at hp
  split_ifs at hp
  · obtain rfl := Option.some.inj hp
    exact ⟨(hphase w hw).1, hrows _ (hphase w hw).2⟩
  · exact ⟨(h c p hp w hw).1, hrows _ (h c p hp w hw).2⟩

theorem load_eq_some : s.load linkageId target = some loaded ↔
    s.rows linkageId = some loaded ∧ target ∈ loaded.state.legalTransitions := by
  rw [load, Option.filter_eq_some_iff, decide_eq_true_iff]

theorem isSome_of_load (h : s.load linkageId target = some loaded) :
    target ∈ loaded.state.legalTransitions ∧ (s.rows linkageId).isSome = true := by
  obtain ⟨hrow, hlegal⟩ := load_eq_some.mp h
  exact ⟨hlegal, by rw [hrow]; rfl⟩

theorem update_rows (linkageId' : Uuid) :
    (s.update linkageId loaded target decidedBy).rows linkageId' =
      if linkageId' = linkageId then
        (s.rows linkageId).map (loaded.update target decidedBy)
      else s.rows linkageId' :=
  Function.update_apply _ _ _ _

theorem isSome_update {linkageId' : Uuid} (h : (s.rows linkageId').isSome = true) :
    ((s.update linkageId loaded target decidedBy).rows linkageId').isSome = true := by
  rw [update_rows]
  split_ifs with hid
  · rw [Option.isSome_map, ← hid]
    exact h
  · exact h

theorem isSome_propose {linkageId' : Uuid} (h : (s.rows linkageId').isSome = true)
    {new : LinkageDecision} :
    (Function.update s.rows linkageId (some new) linkageId').isSome = true := by
  rw [Function.update_apply]
  split_ifs
  · rfl
  · exact h

/-- A checked write sets the state. -/
theorem update_state (h : target ∈ loaded.state.legalTransitions) :
    (loaded.update target decidedBy row).state = target := by
  refine if_pos fun heq => ?_
  rw [heq] at h
  cases hstate : loaded.state <;> rw [hstate] at h <;> exact absurd h (by decide)

end Checked

theorem step_checked (hchecked : Checked s.rows s.calls) (h : s.step svc a = some s') :
    Checked s'.rows s'.calls := by
  have hnone : ∀ w ∈ (none : Option Write),
      w.target ∈ w.loaded.state.legalTransitions ∧ (s.rows w.linkageId).isSome = true :=
    fun _ hw => absurd hw (Option.not_mem_none _)
  cases step_effect h with
  | propose hnew =>
    intro call phase hphase w hw
    obtain ⟨hlegal, hrow⟩ := hchecked call phase hphase w hw
    exact ⟨hlegal, isSome_propose hrow⟩
  | receive ha hfree => exact hchecked.put (fun _ => id) hnone
  | score ha hphase => exact hchecked.put (fun _ => id) hnone
  | move hphase hevaluated hscored hscoring hwrite hannouncing =>
    exact hchecked.put (fun _ => id) fun w hw => isSome_of_load (hwrite w hw).1
  | record hphase hphase' =>
    obtain rfl | ⟨-, rfl⟩ := hphase' <;> exact hchecked.put (fun _ => id) hnone
  | refuse hfree => exact hchecked.put (fun _ => id) hnone
  | decide hfree hload =>
    refine hchecked.put (fun _ => id) ?_
    intro w hw
    cases hw
    exact isSome_of_load hload
  | promote ha hphase => exact hchecked.put (fun _ => isSome_update) hnone
  | decided ha hphase => exact hchecked.put (fun _ => isSome_update) hnone
  | publish hphase => exact hchecked.put (fun _ => id) hnone
  | audit hphase => exact hchecked.put (fun _ => id) hnone

theorem stands_of_rows (h : s'.rows = s.rows) : Stands s s' := by
  intro linkageId row hrow
  exact ⟨row, h ▸ hrow, .refl⟩

theorem stands_propose {linkageId : Uuid} {new : LinkageDecision}
    (hnew : s.rows linkageId = none) :
    Stands s { s with rows := Function.update s.rows linkageId (some new) } := by
  intro linkageId' row hrow
  have hne : linkageId' ≠ linkageId := by
    rintro rfl
    rw [hnew] at hrow
    cases hrow
  exact ⟨row, (Function.update_of_ne hne _ _).trans hrow, .refl⟩

/-- Only a write touches what was decided. -/
theorem step_stands (h : s.step svc a = some s') (hpending : s.pending a = none) :
    Stands s s' := by
  cases step_effect h with
  | propose hnew => exact stands_propose hnew
  | promote ha hphase =>
    rw [ha, pending, hphase] at hpending
    cases hpending
  | decided ha hphase =>
    rw [ha, pending, hphase] at hpending
    cases hpending
  | receive ha hfree => exact stands_of_rows rfl
  | score ha hphase => exact stands_of_rows rfl
  | move hphase hevaluated hscored hscoring hwrite hannouncing => exact stands_of_rows rfl
  | record hphase hphase' => exact stands_of_rows rfl
  | refuse hfree => exact stands_of_rows rfl
  | decide hfree hload => exact stands_of_rows rfl
  | publish hphase => exact stands_of_rows rfl
  | audit hphase => exact stands_of_rows rfl

/-- A write keeps what was decided exactly if it is legal. -/
theorem stands_update_iff {w : Write} (hlegal : w.target ∈ w.loaded.state.legalTransitions)
    (hrows : s'.rows = (s.update w.linkageId w.loaded w.target w.decidedBy).rows) :
    Stands s s' ↔ ∀ row, s.rows w.linkageId = some row → Reaches row.state w.target := by
  constructor
  · intro h row hrow
    obtain ⟨row', hrow', hreaches⟩ := h w.linkageId row hrow
    rw [hrows, update_rows, if_pos rfl, hrow, Option.map_some] at hrow'
    obtain rfl := Option.some.inj hrow'
    rwa [update_state hlegal] at hreaches
  · intro h linkageId row hrow
    rw [hrows, update_rows]
    split_ifs with hid
    · subst hid
      rw [hrow]
      refine ⟨_, rfl, ?_⟩
      rw [update_state hlegal]
      exact h row hrow
    · exact ⟨row, hrow, .refl⟩

theorem step_pending {w : Write} (h : s.step svc a = some s') (hw : s.pending a = some w) :
    s'.rows = (s.update w.linkageId w.loaded w.target w.decidedBy).rows := by
  cases a with
  | write call =>
    rw [step] at h
    split at h
    · next hphase =>
      obtain rfl := Option.some.inj h
      rw [pending, hphase] at hw
      cases hw
      rfl
    · next hphase =>
      obtain rfl := Option.some.inj h
      rw [pending, hphase] at hw
      cases hw
      rfl
    · cases h
  | _ => cases hw

theorem Checked.pending {w : Write} (h : Checked s.rows s.calls) (hw : s.pending a = some w) :
    w.target ∈ w.loaded.state.legalTransitions ∧ (s.rows w.linkageId).isSome = true := by
  cases a with
  | write call =>
    obtain ⟨phase, hphase, hw⟩ := Option.bind_eq_some_iff.mp hw
    exact h call phase hphase w hw
  | _ => cases hw

/-- A statement keeps what was decided exactly if it is legal. -/
theorem step_stands_iff (hchecked : Checked s.rows s.calls) (h : s.step svc a = some s') :
    Stands s s' ↔ Legal s a := by
  cases hw : s.pending a with
  | none =>
    refine iff_of_true (step_stands h hw) ?_
    rw [Legal, hw]
    exact fun w hw => absurd hw (Option.not_mem_none w)
  | some w =>
    rw [stands_update_iff (hchecked.pending hw).1 (step_pending h hw), Legal, hw]
    exact ⟨fun hlegal w' hw' => Option.some.inj hw' ▸ hlegal, fun hlegal => hlegal w rfl⟩

theorem Stands.trans {s'' : VerifierRun} (h : Stands s s') (h' : Stands s' s'') :
    Stands s s'' := by
  intro linkageId row hrow
  obtain ⟨row', hrow', hreaches⟩ := h linkageId row hrow
  obtain ⟨row'', hrow'', hreaches'⟩ := h' linkageId row' hrow'
  exact ⟨row'', hrow'', hreaches.trans hreaches'⟩

/-- One verifier. -/
def oneVerifier : VerifierService where
  thresholds := ⟨0, 0, [], [], 1⟩
  verifiers := [⟨"general_impostors", false⟩]
  mean scores := scores.headD 0

/-- Its task, up to its write. -/
def oneTask : List VerifierStep :=
  [.propose 5, .receive 0 ⟨5, none⟩, .score 0 (some ⟨"general_impostors", 1, 1, false, none⟩) true,
    .conclude 0, .select 0, .record 0, .read 0]

/-- What a statement adds to what was reported to a call. -/
def report (call : ℕ) : VerifierStep → Option VerificationResult
  | .score call' (some result) true => if call' = call then some result else none
  | _ => none

/-- What the verifiers reported to a call, and was audited. -/
def reported (as : List VerifierStep) (call : ℕ) : List VerificationResult :=
  as.filterMap (report call)

/-- A task has received the linkage of an announcement, and its composite reaches the floor. -/
structure Backed (svc : VerifierService) (as : List VerifierStep) (call : ℕ) (x : Announcement) :
    Prop where
  received : ∃ env, .receive call env ∈ as ∧ env.linkageId = x.1
  qualified : VerifierService.qualified (reported as call) ≠ []
  composite : x.2 = svc.composite (reported as call)
  floor : svc.thresholds.compositeFloor ≤ x.2

/-- A task evaluates a linkage that it has received, by what was reported to it. -/
structure Evaluates (as : List VerifierStep) (call : ℕ)
    (x : Uuid × List VerificationResult) : Prop where
  received : ∃ env, .receive call env ∈ as ∧ env.linkageId = x.1
  results : x.2 = reported as call

/-- What the calls and the announcements have to do with the run so far. -/
structure Told (svc : VerifierService) (as : List VerifierStep) (s : VerifierRun) : Prop where
  fresh : ∀ call, s.calls.phase call = none → reported as call = []
  evaluates : ∀ call phase, s.calls.phase call = some phase →
    ∀ x ∈ evaluated phase, Evaluates as call x
  scored : ∀ call phase, s.calls.phase call = some phase → Scored svc phase
  backed : ∀ x ∈ s.published, ∃ call phase, s.calls.phase call = some phase ∧
    scoring phase = false ∧ Backed svc as call x
  audits : ∀ call linkageId results,
    s.calls.phase call = some (.auditing linkageId results) →
      (linkageId, svc.composite results) ∈ s.published
  audited : ∀ x ∈ s.audited, x ∈ s.published

section Told

variable {as : List VerifierStep} {call : ℕ} {phase : VerifierPhase}

theorem reported_append :
    reported (as ++ [a]) call = reported as call ++ (report call a).toList := by
  rw [reported, List.filterMap_append]
  cases h : report call a <;> simp [h, reported]

theorem reported_append_of_none (h : report call a = none) :
    reported (as ++ [a]) call = reported as call := by
  rw [reported_append, h]
  exact List.append_nil _

theorem report_eq_some {result : VerificationResult} :
    report call a = some result ↔ a = .score call (some result) true := by
  constructor
  · intro h
    unfold report at h
    split at h
    · split_ifs at h with hcall
      rw [hcall, Option.some.inj h]
    · cases h
  · rintro rfl
    exact if_pos rfl

theorem report_of_ne {c : ℕ} {result : Option VerificationResult} {audited : Bool} (h : c ≠ call) :
    report c (.score call result audited) = none := by
  refine Option.eq_none_iff_forall_ne_some.mpr fun r hr => h ?_
  cases report_eq_some.mp hr
  rfl

theorem Evaluates.append {x : Uuid × List VerificationResult} (h : Evaluates as call x)
    (hreport : report call a = none) : Evaluates (as ++ [a]) call x where
  received := h.received.imp fun _ => And.imp_left (List.mem_append_left _)
  results := by rw [reported_append_of_none hreport, h.results]

theorem Backed.append {x : Announcement} (h : Backed svc as call x)
    (hreport : report call a = none) : Backed svc (as ++ [a]) call x := by
  have hreported : reported (as ++ [a]) call = reported as call := reported_append_of_none hreport
  exact ⟨h.received.imp fun _ => And.imp_left (List.mem_append_left _), hreported ▸ h.qualified,
    hreported ▸ h.composite, h.floor⟩

/-- A call moves on while no verifier reports. -/
theorem Told.put (h : Told svc as s) (hcalls : s'.calls = s.calls.put call phase)
    (hreport : ∀ c, report c a = none)
    (hevaluates : ∀ x ∈ evaluated phase, Evaluates (as ++ [a]) call x)
    (hscored : Scored svc phase)
    (hscoring : ∀ old, s.calls.phase call = some old → scoring phase = true → scoring old = true)
    (hpublished : ∀ x ∈ s'.published, x ∈ s.published ∨
      scoring phase = false ∧ Backed svc (as ++ [a]) call x)
    (hkept : ∀ x ∈ s.published, x ∈ s'.published)
    (haudits : ∀ linkageId results, phase = .auditing linkageId results →
      (linkageId, svc.composite results) ∈ s'.published)
    (haudited : ∀ x ∈ s'.audited, x ∈ s'.published) : Told svc (as ++ [a]) s' where
  fresh c hc := by
    rw [hcalls, Calls.phase_put] at hc
    split_ifs at hc
    rw [reported_append_of_none (hreport c)]
    exact h.fresh c hc
  evaluates c p hp := by
    rw [hcalls, Calls.phase_put] at hp
    split_ifs at hp with hc
    · rw [hc, ← Option.some.inj hp]
      exact hevaluates
    · exact fun x hx => (h.evaluates c p hp x hx).append (hreport c)
  scored c p hp := by
    rw [hcalls, Calls.phase_put] at hp
    split_ifs at hp
    · rw [← Option.some.inj hp]
      exact hscored
    · exact h.scored c p hp
  backed x hx := by
    rcases hpublished x hx with hx | ⟨hphase, hbacked⟩
    · obtain ⟨c, p, hp, hsilent, hbacked⟩ := h.backed x hx
      by_cases hc : c = call
      · refine ⟨c, phase, ?_, ?_, hbacked.append (hreport c)⟩
        · rw [hcalls, hc, Calls.phase_put_self]
        · refine Bool.eq_false_of_not_eq_true fun hphase => ?_
          rw [hscoring p (hc ▸ hp) hphase] at hsilent
          cases hsilent
      · refine ⟨c, p, ?_, hsilent, hbacked.append (hreport c)⟩
        rw [hcalls, Calls.phase_put_of_ne hc, hp]
    · refine ⟨call, phase, ?_, hphase, hbacked⟩
      rw [hcalls, Calls.phase_put_self]
  audits c linkageId results hp := by
    rw [hcalls, Calls.phase_put] at hp
    split_ifs at hp
    · exact haudits linkageId results (Option.some.inj hp)
    · exact hkept _ (h.audits c linkageId results hp)
  audited := haudited

/-- A call that announces nothing moves on while no verifier reports. -/
theorem Told.move (h : Told svc as s) (hcalls : s'.calls = s.calls.put call phase)
    (hpublished : s'.published = s.published) (haudited : s'.audited = s.audited)
    (hreport : ∀ c, report c a = none)
    (hevaluates : ∀ x ∈ evaluated phase, Evaluates (as ++ [a]) call x)
    (hscored : Scored svc phase)
    (hscoring : ∀ old, s.calls.phase call = some old → scoring phase = true → scoring old = true)
    (haudits : ∀ linkageId results, phase ≠ .auditing linkageId results) :
    Told svc (as ++ [a]) s' := by
  refine h.put hcalls hreport hevaluates hscored hscoring ?_ ?_ ?_ ?_
  · rw [hpublished]
    exact fun x => Or.inl
  · rw [hpublished]
    exact fun x => id
  · exact fun linkageId results hphase => absurd hphase (haudits linkageId results)
  · rw [hpublished, haudited]
    exact h.audited

/-- A call evaluates nothing, or nothing any more. -/
theorem Told.leave (h : Told svc as s) (hcalls : s'.calls = s.calls.put call phase)
    (hpublished : s'.published = s.published) (haudited : s'.audited = s.audited)
    (hreport : ∀ c, report c a = none) (hevaluated : evaluated phase = none) :
    Told svc (as ++ [a]) s' := by
  refine h.move hcalls hpublished haudited hreport ?_ ?_ ?_ ?_
  · rw [hevaluated]
    exact fun x hx => absurd hx (Option.not_mem_none x)
  · cases phase <;> trivial
  · intro old hold hscoring
    cases phase <;> first | exact absurd hscoring Bool.false_ne_true | cases hevaluated
  · rintro linkageId results rfl
    cases hevaluated

/-- A verifier reports. -/
theorem Told.score {env : LinkageProposed} {v : Verifier} {rest : List Verifier}
    {results : List VerificationResult} {result : VerificationResult} (h : Told svc as s)
    (hphase : s.calls.phase call = some (.scoring env (v :: rest) results)) :
    Told svc (as ++ [.score call (some result) true])
      (s.put call (.scoring env rest (results ++ [result]))) where
  fresh c hc := by
    rw [VerifierRun.put, Calls.phase_put] at hc
    split_ifs at hc with hne
    rw [reported_append_of_none (report_of_ne hne)]
    exact h.fresh c hc
  evaluates c p hp x hx := by
    rw [VerifierRun.put, Calls.phase_put] at hp
    split_ifs at hp with hc
    · obtain rfl := Option.some.inj hp
      cases hx
      have hold := h.evaluates call _ hphase _ rfl
      refine ⟨?_, ?_⟩
      · rw [hc]
        exact hold.received.imp fun _ => And.imp_left (List.mem_append_left _)
      · rw [reported_append, report_eq_some.mpr (by rw [hc]), hc, ← hold.results]
        rfl
    · exact (h.evaluates c p hp x hx).append (report_of_ne hc)
  scored c p hp := by
    rw [VerifierRun.put, Calls.phase_put] at hp
    split_ifs at hp
    · rw [← Option.some.inj hp]
      trivial
    · exact h.scored c p hp
  backed x hx := by
    obtain ⟨c, p, hp, hsilent, hbacked⟩ := h.backed x hx
    have hc : c ≠ call := by
      rintro rfl
      rw [← Option.some.inj (hphase.symm.trans hp)] at hsilent
      cases hsilent
    exact ⟨c, p, (Calls.phase_put_of_ne hc).trans hp, hsilent, hbacked.append (report_of_ne hc)⟩
  audits c linkageId results hp := by
    rw [VerifierRun.put, Calls.phase_put] at hp
    split_ifs at hp
    · cases hp
    · exact h.audits c linkageId results hp
  audited := h.audited

/-- No call moves, and no verifier reports. -/
theorem Told.still (h : Told svc as s) (hcalls : s'.calls = s.calls)
    (hpublished : s'.published = s.published) (haudited : s'.audited = s.audited)
    (hreport : ∀ c, report c a = none) : Told svc (as ++ [a]) s' where
  fresh c hc := by
    rw [reported_append_of_none (hreport c)]
    exact h.fresh c (hcalls ▸ hc)
  evaluates c p hp x hx := (h.evaluates c p (hcalls ▸ hp) x hx).append (hreport c)
  scored c p hp := h.scored c p (hcalls ▸ hp)
  backed x hx := by
    obtain ⟨c, p, hp, hsilent, hbacked⟩ := h.backed x (hpublished ▸ hx)
    exact ⟨c, p, hcalls ▸ hp, hsilent, hbacked.append (hreport c)⟩
  audits c linkageId results hp := by
    rw [hpublished]
    exact h.audits c linkageId results (hcalls ▸ hp)
  audited := by
    rw [hpublished, haudited]
    exact h.audited

/-- What a task publishes is backed by what was reported to it. -/
theorem Told.publishes {linkageId : Uuid} {results : List VerificationResult} (h : Told svc as s)
    (hphase : s.calls.phase call = some (.publishing linkageId results)) :
    Backed svc as call (linkageId, svc.composite results) := by
  have hevaluates := h.evaluates call _ hphase _ rfl
  obtain ⟨hqualified, hpromotes⟩ : VerifierService.qualified results ≠ [] ∧
    svc.promotes results = true := h.scored call _ hphase
  have hresults : results = reported as call := hevaluates.results
  refine ⟨hevaluates.received, ?_, ?_, of_decide_eq_true hpromotes⟩
  · rw [← hresults]
    exact hqualified
  · rw [← hresults]

theorem step_told (h : Told svc as s) (hstep : s.step svc a = some s') :
    Told svc (as ++ [a]) s' := by
  by_cases hscore : ∃ call result, a = .score call (some result) true
  · obtain ⟨call, result, rfl⟩ := hscore
    rw [step] at hstep
    split at hstep
    · next env v rest results hphase =>
      obtain rfl := Option.some.inj hstep
      exact h.score hphase
    · cases hstep
  · have hreport : ∀ c, report c a = none := fun c =>
      Option.eq_none_iff_forall_ne_some.mpr fun r hr => hscore ⟨c, r, report_eq_some.mp hr⟩
    have hold : ∀ {call phase}, s.calls.phase call = some phase → ∀ x ∈ evaluated phase,
        Evaluates (as ++ [a]) call x :=
      fun hphase x hx => (h.evaluates _ _ hphase x hx).append (hreport _)
    cases step_effect hstep with
    | propose hnew => exact h.still rfl rfl rfl hreport
    | @receive call env ha hfree =>
      refine h.move rfl rfl rfl hreport ?_ trivial ?_ ?_
      · intro x hx
        cases hx
        refine ⟨⟨env, ?_, rfl⟩, ?_⟩
        · rw [ha]
          exact List.mem_append_right _ (List.mem_singleton_self _)
        · rw [reported_append_of_none (hreport call), h.fresh call hfree]
      · intro old hphase
        rw [hfree] at hphase
        cases hphase
      · exact fun _ _ hphase => by cases hphase
    | @score call env v rest results result ha hphase => exact absurd ⟨call, result, ha⟩ hscore
    | move hphase hevaluated hscored hscoring hwrite hannouncing =>
      refine h.move rfl rfl rfl hreport (fun x hx => hold hphase x (hevaluated x hx))
        (hscored (h.scored _ _ hphase)) ?_ ?_
      · intro old hphase'
        rw [Option.some.inj (hphase'.symm.trans hphase)]
        exact hscoring
      · rintro linkageId results rfl
        cases hannouncing
    | record hphase hphase' =>
      obtain rfl | ⟨hpromotes, rfl⟩ := hphase'
      · exact h.leave rfl rfl rfl hreport rfl
      · refine h.move rfl rfl rfl hreport ?_ ⟨h.scored _ _ hphase, hpromotes⟩ ?_ ?_
        · exact fun x hx => hold hphase x hx
        · exact fun _ _ hscoring => absurd hscoring Bool.false_ne_true
        · exact fun _ _ hphase' => by cases hphase'
    | refuse hfree => exact h.leave rfl rfl rfl hreport rfl
    | decide hfree hload => exact h.leave rfl rfl rfl hreport rfl
    | promote ha hphase =>
      have hscored := h.scored _ _ hphase
      refine h.move rfl rfl rfl hreport ?_ hscored ?_ ?_
      · exact fun x hx => hold hphase x hx
      · exact fun _ _ hscoring => absurd hscoring Bool.false_ne_true
      · exact fun _ _ hphase' => by cases hphase'
    | decided ha hphase => exact h.leave rfl rfl rfl hreport rfl
    | publish hphase =>
      have hscored := h.scored _ _ hphase
      refine h.put rfl hreport (fun x hx => hold hphase x hx) hscored ?_ ?_ ?_ ?_ ?_
      · exact fun _ _ hscoring => absurd hscoring Bool.false_ne_true
      · intro x hx
        refine (List.mem_append.mp hx).imp_right fun hx => ⟨rfl, ?_⟩
        rw [List.mem_singleton.mp hx]
        exact (h.publishes hphase).append (hreport _)
      · exact fun x => List.mem_append_left _
      · intro linkageId results hphase'
        cases hphase'
        exact List.mem_append_right _ (List.mem_singleton_self _)
      · exact fun x hx => List.mem_append_left _ (h.audited x hx)
    | audit hphase =>
      refine h.put rfl hreport ?_ trivial ?_ ?_ ?_ ?_ ?_
      · exact fun x hx => absurd hx (Option.not_mem_none x)
      · exact fun _ _ hscoring => absurd hscoring Bool.false_ne_true
      · exact fun x => Or.inl
      · exact fun x => id
      · exact fun _ _ hphase' => by cases hphase'
      · intro x hx
        rcases List.mem_append.mp hx with hx | hx
        · exact h.audited x hx
        · rw [List.mem_singleton.mp hx]
          exact h.audits _ _ _ hphase

theorem run_told {rows : Uuid → Option LinkageDecision} {records : Uuid → Option VerifierRecord}
    (hrun : run (step svc) (init rows records) as = some s) : Told svc as s := by
  refine run_history step_told ?_ hrun
  exact ⟨fun _ _ => rfl, by simp [init], by simp [init], by simp [init], by simp [init],
    by simp [init]⟩

end Told

/-! ## Announcements -/

theorem not_reaches_proposed {state : LinkageState} (h : Reaches state .proposed) :
    state = .proposed := by
  rcases Relation.ReflTransGen.cases_tail h with h | ⟨last, -, hlast⟩
  · exact h.symm
  · cases last <;> exact absurd hlast (by decide)

/-- A linkage was suspected. -/
def Suspected (s : VerifierRun) (linkageId : Uuid) : Prop :=
  ∃ row, s.rows linkageId = some row ∧ Reaches .suspected row.state

theorem Suspected.mono {linkageId : Uuid} (h : Suspected s linkageId) (hstands : Stands s s') :
    Suspected s' linkageId := by
  obtain ⟨row, hrow, hreaches⟩ := h
  obtain ⟨row', hrow', hreaches'⟩ := hstands linkageId row hrow
  exact ⟨row', hrow', hreaches.trans hreaches'⟩

/-- A call that is about to announce a linkage. -/
def Publishing (s : VerifierRun) (call : ℕ) (linkageId : Uuid) : Prop :=
  ∃ results, s.calls.phase call = some (.publishing linkageId results)

theorem legal_of_current (hchecked : Checked s.rows s.calls) (h : Current s a) : Legal s a := by
  intro w hw row hrow
  have hlegal := (hchecked.pending hw).1
  rw [← h w hw row hrow] at hlegal
  exact .single hlegal

theorem proposed_of_suspected_legal {state : LinkageState}
    (h : .suspected ∈ state.legalTransitions) : state = .proposed := by
  cases state <;> first | rfl | exact absurd h (by decide)

/-- The linkages that are announced were suspected, each by the call that announces it. -/
abbrev Once (s : VerifierRun) : Prop :=
  OneUse (Publishing s) (Suspected s) (s.published.map Prod.fst)

theorem publishing_put {call c : ℕ} {phase : VerifierPhase} {linkageId : Uuid}
    (hcalls : s'.calls = s.calls.put call phase) (h : Publishing s' c linkageId) :
    (c = call ∧ ∃ results, phase = .publishing linkageId results) ∨
      c ≠ call ∧ Publishing s c linkageId := by
  obtain ⟨results, hphase⟩ := h
  rw [hcalls, Calls.phase_put] at hphase
  split_ifs at hphase with hc
  · exact Or.inl ⟨hc, results, Option.some.inj hphase⟩
  · exact Or.inr ⟨hc, results, hphase⟩

/-- No call comes to announce. -/
theorem Once.move {call : ℕ} {phase : VerifierPhase} (h : Once s) (hstands : Stands s s')
    (hcalls : s'.calls = s.calls.put call phase) (hpublished : s'.published = s.published)
    (hphase : ∀ linkageId results, phase ≠ .publishing linkageId results) : Once s' := by
  rw [Once, hpublished]
  refine h.mono ?_ fun hx => hx.mono hstands
  intro c linkageId hx
  rcases publishing_put hcalls hx with ⟨-, results, hphase'⟩ | ⟨-, hx⟩
  · exact absurd hphase' (hphase linkageId results)
  · exact hx

theorem step_once (hchecked : Checked s.rows s.calls) (h : Once s) (hcurrent : Current s a)
    (hstep : s.step svc a = some s') : Once s' := by
  have hstands : Stands s s' :=
    (step_stands_iff hchecked hstep).mpr (legal_of_current hchecked hcurrent)
  cases step_effect hstep with
  | propose hnew => exact h.mono id fun hx => hx.mono hstands
  | receive ha hfree => exact h.move hstands rfl rfl fun _ _ h => by cases h
  | score ha hphase => exact h.move hstands rfl rfl fun _ _ h => by cases h
  | move hphase hevaluated hscored hscoring hwrite hannouncing =>
    refine h.move hstands rfl rfl ?_
    rintro linkageId results rfl
    cases hannouncing
  | record hphase hphase' =>
    refine h.move hstands rfl rfl ?_
    obtain rfl | ⟨-, rfl⟩ := hphase' <;> exact fun _ _ h => by cases h
  | refuse hfree => exact h.move hstands rfl rfl fun _ _ h => by cases h
  | decide hfree hload => exact h.move hstands rfl rfl fun _ _ h => by cases h
  | @promote call linkageId results loaded ha hphase =>
    have hpending : s.pending a = some ⟨linkageId, .suspected, "verifier", loaded⟩ := by
      rw [ha, pending, hphase]
      rfl
    obtain ⟨hlegal, hrow⟩ := hchecked.pending hpending
    obtain ⟨row, hrow⟩ := Option.isSome_iff_exists.mp hrow
    -- the row is as it was read, and only a proposed one may become suspected
    have hproposed : row.state = .proposed :=
      (hcurrent _ hpending row hrow).trans (proposed_of_suspected_legal hlegal)
    refine h.take (x := linkageId) (c := call) ?_ ?_ (fun hx => hx.mono hstands) ?_
    · rintro ⟨row', hrow', hreaches⟩
      rw [Option.some.inj (hrow'.symm.trans hrow), hproposed] at hreaches
      cases not_reaches_proposed hreaches
    · refine ⟨loaded.update .suspected "verifier" row, ?_, ?_⟩
      · refine (update_rows linkageId).trans ?_
        rw [if_pos rfl, hrow]
        rfl
      · rw [update_state hlegal]
        exact .refl
    · intro c x hx
      rcases publishing_put rfl hx with ⟨hc, results', hresults⟩ | ⟨-, hx⟩
      · cases hresults
        exact Or.inl ⟨hc, rfl⟩
      · exact Or.inr hx
  | decided ha hphase => exact h.move hstands rfl rfl fun _ _ h => by cases h
  | @publish call linkageId results hphase =>
    rw [Once, List.map_append]
    refine (h.use (c := call) ⟨results, hphase⟩ ?_).mono id fun hx => hx.mono hstands
    intro c x hx
    rcases publishing_put rfl hx with ⟨-, results', hresults⟩ | hx
    · cases hresults
    · exact hx
  | audit hphase => exact h.move hstands rfl rfl fun _ _ h => by cases h

end VerifierRun

end Eyenet
