import Eyenet.Calls
import Eyenet.Enums
import Eyenet.Machine

/-!
# Transitions of a group candidate

A candidate for joining moves through its states by two calls (`sqlmodel_repo/candidates.py`).
`transition_candidate` reads the row, checks the transition against a table, and writes the row in
a second statement, by its id alone. `claim_candidate_transition` compares and swaps the state in
one statement, without the table.

* `CandidateState.follows` — the transitions of the table, and the rollback of a join.
* `CandidateRun.Lawful` — every commit follows them, from the state that its caller read.
* `CandidateRun.run_linked` — the commits are the history of the row.
* `CandidateRun.lawful_iff_current` — exactly when every interleaving of calls is lawful.
-/

namespace Eyenet

open Machine

/-! ## States -/

/-- `CandidateState` -/
inductive CandidateState where
  | discovered
  | queued
  | approved
  | joining
  | joined
  | requested
  | rejected
  | failed
  | parked
  deriving DecidableEq, Repr

namespace CandidateState

/-- The member's value. -/
def value : CandidateState → String
  | discovered => "discovered"
  | queued => "queued"
  | approved => "approved"
  | joining => "joining"
  | joined => "joined"
  | requested => "requested"
  | rejected => "rejected"
  | failed => "failed"
  | parked => "parked"

/-- The member's `repr`. -/
def repr (s : CandidateState) : String :=
  "<CandidateState." ++ s.value.toUpper ++ ": '" ++ s.value ++ "'>"

/-- `_ALLOWED`, each set in the order of the values, as `sorted` prints it. -/
def allowed : CandidateState → List CandidateState
  | discovered => [queued, rejected]
  | queued => [approved, rejected]
  | approved => [joining, rejected]
  | joining => [failed, joined, requested]
  | joined => [parked]
  | requested => [failed, joined, parked]
  | failed => [parked, queued]
  | rejected => [parked]
  | parked => [approved]

/-- No state leads to itself. -/
theorem not_mem_allowed (s : CandidateState) : s ∉ s.allowed := by cases s <;> decide

/-- The states from which a join is claimed, and to which a failed one is rolled back
(`finalize_joined`, `confirm_requested_membership`). -/
def joinable : List CandidateState := [joining, requested]

/-- The transition is in the table, or takes a claimed join back. -/
def follows (source target : CandidateState) : Bool :=
  target ∈ source.allowed || source == joined && target ∈ joinable

end CandidateState

/-! ## Rows and calls -/

/-- The columns of a candidate that a transition reads or writes. -/
structure CandidateRow where
  state : CandidateState
  reviewedBy : Option String
  reviewedAt : Option ℤ
  rejectionReason : Option String
  assignedCollectorId : Option Uuid
  resultingGroupId : Option Uuid
  deriving DecidableEq

/-- The arguments of `transition_candidate`. -/
structure CandidateTransition where
  toState : CandidateState
  reviewedBy : Option String
  reviewedAt : Option ℤ
  rejectionReason : Option String
  assignedCollectorId : Option Uuid
  resultingGroupId : Option Uuid
  deriving DecidableEq

/-- The text of the `ValueError` for a transition that is not in the table. -/
def illegalTransition (fromState toState : CandidateState) : String :=
  "illegal candidate transition " ++ fromState.repr ++ " → " ++ toState.repr ++
    "; allowed from " ++ fromState.repr ++ ": [" ++
    ", ".intercalate (fromState.allowed.map fun s => "'" ++ s.value ++ "'") ++ "]"

/-- `transition_candidate` up to its write. -/
def checkTransition (candidate : CandidateRow) (args : CandidateTransition) :
    Except String Unit :=
  if args.toState ∈ candidate.state.allowed then .ok ()
  else .error (illegalTransition candidate.state args.toState)

/-- A column after the `UPDATE`: the session sends it only when an argument is given and differs
from what was loaded. -/
def writtenColumn {α : Type} [DecidableEq α] (loaded current arg : Option α) : Option α :=
  if arg.isSome ∧ arg ≠ loaded then arg else current

/-- The `UPDATE` of `transition_candidate`, by the id alone. -/
def applyTransition (loaded : CandidateRow) (args : CandidateTransition) (current : CandidateRow) :
    CandidateRow where
  state := if args.toState ≠ loaded.state then args.toState else current.state
  reviewedBy := writtenColumn loaded.reviewedBy current.reviewedBy args.reviewedBy
  reviewedAt := writtenColumn loaded.reviewedAt current.reviewedAt args.reviewedAt
  rejectionReason :=
    writtenColumn loaded.rejectionReason current.rejectionReason args.rejectionReason
  assignedCollectorId :=
    writtenColumn loaded.assignedCollectorId current.assignedCollectorId args.assignedCollectorId
  resultingGroupId :=
    writtenColumn loaded.resultingGroupId current.resultingGroupId args.resultingGroupId

/-- `claim_candidate_transition`: the row after the conditional `UPDATE`; `none` when no row
matches. -/
def claimTransition (current : CandidateRow) (fromState toState : CandidateState)
    (resultingGroupId : Option Uuid) (reviewedAt : Option ℤ) : Option CandidateRow :=
  if current.state = fromState then
    some { current with
      state := toState
      resultingGroupId := resultingGroupId.or current.resultingGroupId
      reviewedAt := reviewedAt.or current.reviewedAt }
  else none

/-! ## Interleavings -/

/-- Where a `transition_candidate` call stands. -/
inductive TransitionPhase where
  /-- it has read the row and passed the check -/
  | loaded (candidate : CandidateRow) (args : CandidateTransition)
  /-- it has raised or committed -/
  | finished
  deriving DecidableEq

/-- A committed write: the state its caller read, the state it replaced, and the new one. -/
structure CandidateCommit where
  read : CandidateState
  replaced : CandidateState
  target : CandidateState
  deriving DecidableEq

/-- The row, the calls on it, and the commits, newest first. -/
structure CandidateRun where
  row : CandidateRow
  calls : Calls TransitionPhase
  commits : List CandidateCommit

/-- One statement of one call. -/
inductive CandidateStep where
  /-- a `transition_candidate` call reads the row and checks the transition -/
  | read (call : ℕ) (args : CandidateTransition)
  /-- it writes and commits -/
  | write (call : ℕ)
  /-- `claim_candidate_transition` -/
  | claim (fromState toState : CandidateState) (resultingGroupId : Option Uuid)
      (reviewedAt : Option ℤ)

namespace CandidateRun

/-- A candidate without calls. -/
def init (row : CandidateRow) : CandidateRun := ⟨row, [], []⟩

/-- One statement of one call. A number that is in use starts no call, and one that has nothing
to write writes nothing. -/
def step (s : CandidateRun) : CandidateStep → Option CandidateRun
  | .read call args =>
    match s.calls.phase call with
    | some _ => some s
    | none =>
      match checkTransition s.row args with
      | .error _ => some { s with calls := s.calls.put call .finished }
      | .ok _ => some { s with calls := s.calls.put call (.loaded s.row args) }
  | .write call =>
    match s.calls.phase call with
    | some (.loaded candidate args) =>
      -- the row may have moved on since the call read it
      some
        { row := applyTransition candidate args s.row
          calls := s.calls.put call .finished
          commits := ⟨candidate.state, s.row.state, args.toState⟩ :: s.commits }
    | _ => some s
  | .claim fromState toState resultingGroupId reviewedAt =>
    match claimTransition s.row fromState toState resultingGroupId reviewedAt with
    | none => some s
    | some row =>
      some { s with row := row, commits := ⟨fromState, s.row.state, toState⟩ :: s.commits }

/-- Every committed change follows the table or is a rollback, and every commit replaced the
state that its caller had read. -/
def Lawful (s : CandidateRun) : Prop :=
  ∀ e ∈ s.commits,
    (e.replaced ≠ e.target → e.replaced.follows e.target = true) ∧ e.read = e.replaced

instance (s : CandidateRun) : Decidable s.Lawful := List.decidableBAll _ _

/-- A `transition_candidate` call writes while the row is in the state that it read, and a claim
that wins is for a transition of the table or a rollback. -/
def Current (s : CandidateRun) : CandidateStep → Prop
  | .read _ _ => True
  | .write call => ∀ candidate args, s.calls.phase call = some (.loaded candidate args) →
      s.row.state = candidate.state
  | .claim fromState toState _ _ => s.row.state = fromState → fromState ≠ toState →
      fromState.follows toState = true

variable {s s' : CandidateRun} {a : CandidateStep}

/-- A call that is about to write has passed the check. -/
def Checked (s : CandidateRun) : Prop :=
  ∀ call candidate args, s.calls.phase call = some (.loaded candidate args) →
    args.toState ∈ candidate.state.allowed

theorem checkTransition_ok {candidate : CandidateRow} {args : CandidateTransition} {u : Unit}
    (h : checkTransition candidate args = .ok u) : args.toState ∈ candidate.state.allowed := by
  rw [checkTransition] at h
  split_ifs at h with hallowed
  exact hallowed

theorem checked_init (row : CandidateRow) : (init row).Checked := by
  intro call candidate args hphase
  simp [init] at hphase

theorem Checked.finish (h : s.Checked) (call : ℕ) {row : CandidateRow}
    {commits : List CandidateCommit} : Checked ⟨row, s.calls.put call .finished, commits⟩ := by
  intro c candidate args hphase
  rw [Calls.phase_put] at hphase
  split_ifs at hphase
  · cases hphase
  · exact h c candidate args hphase

theorem Checked.step (h : s.Checked) (hstep : s.step a = some s') : s'.Checked := by
  cases a with
  | read call args =>
    simp only [CandidateRun.step] at hstep
    split at hstep
    · obtain rfl := Option.some.inj hstep
      exact h
    split at hstep
    · obtain rfl := Option.some.inj hstep
      exact h.finish call
    · next hcheck =>
      obtain rfl := Option.some.inj hstep
      intro c candidate args' hphase
      rw [Calls.phase_put] at hphase
      split_ifs at hphase
      · cases hphase
        exact checkTransition_ok hcheck
      · exact h c candidate args' hphase
  | write call =>
    simp only [CandidateRun.step] at hstep
    split at hstep
    · obtain rfl := Option.some.inj hstep
      exact h.finish call
    · obtain rfl := Option.some.inj hstep
      exact h
  | claim fromState toState resultingGroupId reviewedAt =>
    simp only [CandidateRun.step] at hstep
    split at hstep
    · obtain rfl := Option.some.inj hstep
      exact h
    · obtain rfl := Option.some.inj hstep
      exact h

theorem lawful_cons_iff {row : CandidateRow} {calls : Calls TransitionPhase} {e : CandidateCommit}
    {commits : List CandidateCommit} (h : ∀ e ∈ commits,
      (e.replaced ≠ e.target → e.replaced.follows e.target = true) ∧ e.read = e.replaced) :
    Lawful ⟨row, calls, e :: commits⟩ ↔
      (e.replaced ≠ e.target → e.replaced.follows e.target = true) ∧ e.read = e.replaced := by
  rw [Lawful, List.forall_mem_cons, and_iff_left h]

/-- One statement keeps the history lawful exactly when it is current. -/
theorem lawful_step_iff (hchecked : s.Checked) (h : s.Lawful) (hstep : s.step a = some s') :
    s'.Lawful ↔ s.Current a := by
  cases a with
  | read call args =>
    refine iff_of_true ?_ trivial
    simp only [step] at hstep
    split at hstep
    · obtain rfl := Option.some.inj hstep
      exact h
    split at hstep <;> obtain rfl := Option.some.inj hstep <;> exact h
  | write call =>
    simp only [step] at hstep
    split at hstep
    · next candidate args hphase =>
      obtain rfl := Option.some.inj hstep
      rw [lawful_cons_iff h]
      have hallowed := hchecked call candidate args hphase
      refine ⟨fun hlaw c t hct => ?_, fun hcurrent => ⟨fun _ => ?_, ?_⟩⟩
      · rw [hphase] at hct
        cases hct
        exact hlaw.2.symm
      · -- the row is where the call read it, so the check still speaks for the transition
        rw [hcurrent candidate args hphase]
        simp [CandidateState.follows, hallowed]
      · exact (hcurrent candidate args hphase).symm
    · next hnone =>
      obtain rfl := Option.some.inj hstep
      exact iff_of_true h fun candidate args hphase => absurd hphase (hnone candidate args)
  | claim fromState toState resultingGroupId reviewedAt =>
    simp only [step, claimTransition] at hstep
    by_cases hstate : s.row.state = fromState
    · rw [if_pos hstate] at hstep
      obtain rfl := Option.some.inj hstep
      rw [lawful_cons_iff h]
      refine ⟨fun hlaw _ hne => ?_, fun hcurrent => ⟨fun hne => ?_, hstate.symm⟩⟩
      · rw [← hstate] at hne ⊢
        exact hlaw.1 hne
      · dsimp only at hne ⊢
        rw [hstate] at hne ⊢
        exact hcurrent hstate hne
    · rw [if_neg hstate] at hstep
      obtain rfl := Option.some.inj hstep
      exact iff_of_true h fun hsame => absurd hsame hstate

/-- **Lawful transitions.** Over every interleaving of calls, every commit follows the table or
rolls a join back, from the state that its caller read, exactly when every write finds the row in
the state that its call read and every claim that wins is for such a transition. -/
theorem lawful_iff_current (row : CandidateRow) (as : List CandidateStep) :
    Throughout step Lawful (init row) as ↔ Along step Current (init row) as := by
  have htotal (s : CandidateRun) (a : CandidateStep) : ∃ s', s.step a = some s' := by
    cases a <;> simp only [step] <;> repeat' first | exact ⟨_, rfl⟩ | split
  obtain ⟨s, hs⟩ := exists_run htotal (init row) as
  exact throughout_iff_along (I := fun s => Checked s ∧ Lawful s) (fun h => h.2)
    (fun h hcurrent hstep => ⟨h.1.step hstep, (lawful_step_iff h.1 h.2 hstep).mpr hcurrent⟩)
    (fun h hstep hlawful => (lawful_step_iff h.1 h.2 hstep).mp hlawful)
    ⟨checked_init row, fun _ he => absurd he List.not_mem_nil⟩ hs

/-! ### The commits are the history of the row -/

/-- The commits, newest first, lead from the first state to the last one without a gap. -/
def Linked (first : CandidateState) : List CandidateCommit → CandidateState → Prop
  | [], last => last = first
  | e :: commits, last => e.target = last ∧ Linked first commits e.replaced

/-- A write that passed the check sets the state. -/
theorem applyTransition_state {candidate current : CandidateRow} {args : CandidateTransition}
    (h : args.toState ∈ candidate.state.allowed) :
    (applyTransition candidate args current).state = args.toState := by
  have hne : args.toState ≠ candidate.state := by
    intro heq
    rw [heq] at h
    exact candidate.state.not_mem_allowed h
  exact if_pos hne

theorem Linked.step {first : CandidateState} (hchecked : s.Checked)
    (h : Linked first s.commits s.row.state) (hstep : s.step a = some s') :
    Linked first s'.commits s'.row.state := by
  cases a with
  | read call args =>
    simp only [CandidateRun.step] at hstep
    split at hstep
    · obtain rfl := Option.some.inj hstep
      exact h
    split at hstep <;> obtain rfl := Option.some.inj hstep <;> exact h
  | write call =>
    simp only [CandidateRun.step] at hstep
    split at hstep
    · next candidate args hphase =>
      obtain rfl := Option.some.inj hstep
      exact ⟨(applyTransition_state (hchecked call candidate args hphase)).symm, h⟩
    · obtain rfl := Option.some.inj hstep
      exact h
  | claim fromState toState resultingGroupId reviewedAt =>
    simp only [CandidateRun.step, claimTransition] at hstep
    by_cases hstate : s.row.state = fromState
    · rw [if_pos hstate] at hstep
      obtain rfl := Option.some.inj hstep
      exact ⟨rfl, h⟩
    · rw [if_neg hstate] at hstep
      obtain rfl := Option.some.inj hstep
      exact h

/-- The state alone is asked for. -/
def toState (state : CandidateState) : CandidateTransition := ⟨state, none, none, none, none, none⟩

/-- One operator approves while another rejects: the approval is written over the rejection. -/
theorem rejection_overwritten :
    ∃ s, run step (init ⟨.queued, none, none, none, none, none⟩)
        [.read 1 (toState .approved), .read 2 (toState .rejected), .write 2, .write 1] = some s ∧
      s.row.state = .approved ∧ ¬ s.Lawful := by
  decide

end CandidateRun

end Eyenet
