import Eyenet.Candidate
import Eyenet.Identity

/-!
# Dispatching approved candidates

The supervisor's `dispatch_approved` (`services/collector_supervisor.py`) goes over the approved
and the joining candidates. For one that discovery found it leases a scout, moves the candidate
to joining, audits that, and publishes a join command to the collector that runs the scout; for
one that an operator chose it does the same with the identity of the collector, and without a
lease. What came of the join is recorded by the collector (`collectors/telegram/_join.py`), while
operators move candidates too.

* `DispatchRun.Sound` — every leased scout is held for one candidate whose command went out, and
  no longer than until that candidate has failed.
* `DispatchRun.sound_of_careful` — on which runs this is so.
-/

namespace Eyenet

open Machine

/-! ## Candidates and commands -/

/-- A row of the candidate table. -/
structure GroupCandidate where
  id : Uuid
  sourceId : Uuid
  platformGroupid : String
  row : CandidateRow
  deriving DecidableEq

/-- `JoinGroupCommand` -/
structure JoinGroupCommand where
  candidateId : Uuid
  platformGroupid : String
  scoutIdentityId : Uuid
  accessArtifactId : Option Uuid
  deriving DecidableEq

/-- `_APPROVED_BATCH` -/
def approvedBatch : ℕ := 1000

/-- `list_candidates` by state; the ranking has the ids in the order of their scores. -/
def listCandidates (candidates : Table GroupCandidate.id) (ranking : List Uuid)
    (state : CandidateState) : List GroupCandidate :=
  ((ranking.filterMap candidates.get).filter fun c => c.row.state = state).take approvedBatch

/-- An `UPDATE` of the candidate with the id, if there is one. -/
def updateCandidate (candidates : Table GroupCandidate.id) (id : Uuid)
    (f : CandidateRow → CandidateRow) : Table GroupCandidate.id :=
  match candidates.get id with
  | none => candidates
  | some c => candidates.put { c with row := f c.row }

/-! ## The supervisor's tick -/

/-- A scout, and the candidate that it was leased for. -/
structure Lease where
  scoutId : Uuid
  candidateId : Uuid
  deriving DecidableEq

/-- A candidate on its way to a command, as it was listed, and the identity that is to join. -/
structure Dispatch where
  candidate : GroupCandidate
  identity : IdentityRow
  /-- the identity was leased for it -/
  leased : Bool
  deriving DecidableEq

namespace Dispatch

/-- The command, with the artifact that `select_access_artifact` picked. -/
def command (d : Dispatch) (accessArtifactId : Option Uuid) : JoinGroupCommand :=
  ⟨d.candidate.id, d.candidate.platformGroupid, d.identity.id, accessArtifactId⟩

/-- The scout and the candidate. -/
def lease (d : Dispatch) : Lease := ⟨d.identity.id, d.candidate.id⟩

end Dispatch

/-- What is next for a candidate that has its identity. -/
inductive DispatchStage where
  | choosing
  /-- `transition_candidate` is to read the candidate -/
  | moving (accessArtifactId : Option Uuid)
  /-- it has read it, and is to write -/
  | writing (accessArtifactId : Option Uuid) (loaded : CandidateRow)
  | auditing (accessArtifactId : Option Uuid)
  | publishing (accessArtifactId : Option Uuid)
  deriving DecidableEq

/-- The candidates still to come, each with the state under which it was listed. -/
abbrev DispatchQueue := List (GroupCandidate × CandidateState)

/-- Where the tick stands. -/
inductive DispatchPhase where
  | idle
  /-- the approved candidates are listed, the joining ones are not -/
  | listed (approved : List GroupCandidate)
  | ready (queue : DispatchQueue)
  /-- `collector_eligibility` is asked -/
  | judging (c : GroupCandidate) (queue : DispatchQueue)
  | leasing (c : GroupCandidate) (queue : DispatchQueue)
  /-- the identity of the operator's collector is looked up -/
  | identifying (c : GroupCandidate) (queue : DispatchQueue)
  | dispatching (stage : DispatchStage) (d : Dispatch) (queue : DispatchQueue)
  deriving DecidableEq

namespace DispatchPhase

/-- The lease of the dispatch in progress. -/
def lease : DispatchPhase → Option Lease
  | dispatching _ d _ => if d.leased then some d.lease else none
  | _ => none

/-- The same, while its candidate has not been read for the transition. -/
def unmoved : DispatchPhase → Option Lease
  | dispatching .choosing d _ => if d.leased then some d.lease else none
  | dispatching (.moving _) d _ => if d.leased then some d.lease else none
  | _ => none

theorem lease_of_unmoved {p : DispatchPhase} {l : Lease} (h : p.unmoved = some l) :
    p.lease = some l := by
  cases p with
  | dispatching stage d queue => cases stage <;> first | exact h | cases h
  | _ => cases h

end DispatchPhase

/-! ## Operators and outcomes -/

/-- The targets of the transitions that operators ask for. -/
def operatorTargets : List CandidateState :=
  [.queued, .approved, .rejected, .parked, .joining, .joined]

/-- A call that moves a candidate by `transition_candidate`. -/
inductive CandidateCall where
  | operator (candidateId : Uuid) (args : CandidateTransition)
  | failCandidate (command : JoinGroupCommand) (reason : String)
  | markJoinRequested (command : JoinGroupCommand) (reason : String)
  | quarantineOnBan (command : JoinGroupCommand) (reason : String) (identityName : String)
  deriving DecidableEq

namespace CandidateCall

/-- The candidate that the call is on. -/
def candidateId : CandidateCall → Uuid
  | operator candidateId _ => candidateId
  | failCandidate command _ => command.candidateId
  | markJoinRequested command _ => command.candidateId
  | quarantineOnBan command _ _ => command.candidateId

/-- The arguments of its (first) transition. -/
def args : CandidateCall → CandidateTransition
  | operator _ args => args
  | failCandidate _ reason => ⟨.failed, none, none, some reason, none, none⟩
  | markJoinRequested _ reason => ⟨.requested, none, none, some reason, none, none⟩
  | quarantineOnBan _ reason _ => ⟨.failed, none, none, some reason, none, none⟩

/-- The scout that the call goes on to burn. -/
def burns : CandidateCall → Option Uuid
  | quarantineOnBan command _ _ => some command.scoutIdentityId
  | _ => none

/-- The arguments with which `quarantine_scout` parks the candidate, for the same reason. -/
def parkArgs (c : CandidateCall) : CandidateTransition :=
  ⟨.parked, none, none, c.args.rejectionReason, none, none⟩

end CandidateCall

/-- What is next for a call. -/
inductive CallStage where
  | reading
  | writing (loaded : CandidateRow)
  | auditing
  /-- `quarantine_scout` -/
  | burning
  | inspecting
  | parkReading
  | parkWriting (loaded : CandidateRow)
  | burnAuditing
  | releasing
  | finished
  deriving DecidableEq

/-- The candidate has failed and the scout is not burned yet. -/
def CallStage.beforeBurn : CallStage → Bool
  | auditing => true
  | burning => true
  | _ => false

/-! ## Runs -/

/-- The tables, the supervisor's tick, the calls of operators and collectors, and the commands
that went out. The last two fields record the leases, and the states of the scouts that dispatches
left behind when they failed. -/
structure DispatchRun where
  identities : IdentityStore
  candidates : Table GroupCandidate.id
  tick : DispatchPhase
  calls : Calls (CandidateCall × CallStage)
  published : List JoinGroupCommand
  leases : List Lease
  abandoned : List (Option IdentityState)

namespace DispatchRun

/-- One step of the supervisor or of a call. -/
inductive Step where
  | listApproved (ranking : List Uuid)
  | listJoining (ranking : List Uuid)
  /-- the next candidate: whether it has mentions, and whether its collector is alive -/
  | next (mentioned alive : Bool)
  | judge (eligible : Bool)
  | lease
  /-- the identity of the operator's collector, if there is one -/
  | identify (identityId : Option Uuid)
  | choose (accessArtifactId : Option Uuid)
  /-- `transition_candidate` reads the candidate -/
  | move
  /-- and writes it -/
  | write
  | audit
  | publish
  /-- an await of the tick raises -/
  | abort
  | start (call : ℕ) (c : CandidateCall)
  | proceed (call : ℕ) (now : ℤ)
  /-- an await of the call raises -/
  | callFails (call : ℕ)
  /-- the compare-and-swap of `finalize_joined` -/
  | finalize (candidateId groupId : Uuid)
  /-- and the one that takes it back -/
  | rollback (candidateId : Uuid)

/-- Tables before any tick or call. -/
def init (identities : IdentityStore) (candidates : Table GroupCandidate.id) : DispatchRun :=
  ⟨identities, candidates, .idle, [], [], [], []⟩

/-- The tick raises; nothing puts the scout back. -/
def abandon (s : DispatchRun) : DispatchRun :=
  { s with
    tick := .idle
    abandoned :=
      match s.tick.lease with
      | none => s.abandoned
      | some l => (s.identities.getIdentity l.scoutId).map IdentityRow.state :: s.abandoned }

/-- `_dispatch_candidate` up to its first await after the mentions. -/
def nextPhase (c : GroupCandidate) (state : CandidateState) (queue : DispatchQueue)
    (mentioned alive : Bool) : DispatchPhase :=
  if c.row.assignedCollectorId = none then .ready queue
  else if mentioned = false then if alive then .identifying c queue else .ready queue
  else if state ≠ .approved then .ready queue
  else .judging c queue

/-- `claim_candidate_transition` -/
def claimCandidate (s : DispatchRun) (candidateId : Uuid) (fromState toState : CandidateState)
    (groupId : Option Uuid) : DispatchRun :=
  { s with candidates := updateCandidate s.candidates candidateId fun row =>
      (claimTransition row fromState toState groupId none).getD row }

/-- The read of `transition_candidate`; `none` when it raises. -/
def loadCandidate (s : DispatchRun) (candidateId : Uuid) (args : CandidateTransition) :
    Option CandidateRow :=
  match s.candidates.get candidateId with
  | none => none
  | some c =>
    match checkTransition c.row args with
    | .error _ => none
    | .ok _ => some c.row

/-- The arguments with which the supervisor moves a candidate. -/
def joiningArgs : CandidateTransition := ⟨.joining, none, none, none, none, none⟩

/-- A call goes on to a stage. -/
def advance (s : DispatchRun) (call : ℕ) (c : CandidateCall) (stage : CallStage) : DispatchRun :=
  { s with calls := s.calls.put call (c, stage) }

/-- The next step of a call. -/
def proceed (s : DispatchRun) (call : ℕ) (c : CandidateCall) (now : ℤ) : CallStage → DispatchRun
  | .reading =>
    match s.loadCandidate c.candidateId c.args with
    | none => s.advance call c .finished
    | some loaded => s.advance call c (.writing loaded)
  | .writing loaded =>
    { s.advance call c .auditing with
      candidates := updateCandidate s.candidates c.candidateId (applyTransition loaded c.args) }
  | .auditing => s.advance call c (if c.burns.isSome then .burning else .finished)
  | .burning =>
    match c.burns with
    | none => s.advance call c .finished
    | some scoutId =>
      match s.identities.burnIdentity scoutId with
      | (_, .error _) => s.advance call c .finished
      | (identities, .ok _) => { s.advance call c .inspecting with identities := identities }
  | .inspecting =>
    match s.candidates.get c.candidateId with
    | none => s.advance call c .burnAuditing
    | some candidate =>
      s.advance call c (if candidate.row.state = .joined then .parkReading else .burnAuditing)
  | .parkReading =>
    match s.loadCandidate c.candidateId c.parkArgs with
    | none => s.advance call c .finished
    | some loaded => s.advance call c (.parkWriting loaded)
  | .parkWriting loaded =>
    { s.advance call c .burnAuditing with
      candidates := updateCandidate s.candidates c.candidateId (applyTransition loaded c.parkArgs) }
  | .burnAuditing => s.advance call c .releasing
  | .releasing =>
    match c with
    | .quarantineOnBan _ _ identityName =>
      -- a name that the pool does not know is logged
      { s.advance call c .finished with
        identities := (s.identities.release identityName .burned now).1 }
    | _ => s.advance call c .finished
  | .finished => s

/-- One step; a label that does not fit changes nothing. -/
def step (s : DispatchRun) : Step → Option DispatchRun
  | .listApproved ranking =>
    match s.tick with
    | .idle => some { s with tick := .listed (listCandidates s.candidates ranking .approved) }
    | _ => some s
  | .listJoining ranking =>
    match s.tick with
    | .listed approved =>
      let joining := listCandidates s.candidates ranking .joining
      let queue := approved.map (fun c => (c, .approved)) ++ joining.map fun c => (c, .joining)
      some { s with tick := .ready queue }
    | _ => some s
  | .next mentioned alive =>
    match s.tick with
    | .ready [] => some { s with tick := .idle }
    | .ready ((c, state) :: queue) =>
      some { s with tick := nextPhase c state queue mentioned alive }
    | _ => some s
  | .judge eligible =>
    match s.tick with
    | .judging c queue =>
      some { s with tick := if eligible then .leasing c queue else .ready queue }
    | _ => some s
  | .lease =>
    match s.tick with
    | .leasing c queue =>
      match s.identities.leaseScout c.sourceId with
      | (_, none) => some { s with tick := .ready queue }
      | (identities, some scout) =>
        let d : Dispatch := ⟨c, scout, true⟩
        some { s with
          identities := identities
          tick := .dispatching .choosing d queue
          leases := d.lease :: s.leases }
    | _ => some s
  | .identify identityId =>
    match s.tick with
    | .identifying c queue =>
      match identityId.bind s.identities.getIdentity with
      | none => some { s with tick := .ready queue }
      | some identity => some { s with tick := .dispatching .choosing ⟨c, identity, false⟩ queue }
    | _ => some s
  | .choose accessArtifactId =>
    match s.tick with
    | .dispatching .choosing d queue =>
      -- an operator's candidate that is joining already gets its command again
      if d.leased ∨ d.candidate.row.state = .approved then
        some { s with tick := .dispatching (.moving accessArtifactId) d queue }
      else some { s with tick := .dispatching (.publishing accessArtifactId) d queue }
    | _ => some s
  | .move =>
    match s.tick with
    | .dispatching (.moving artifact) d queue =>
      match s.loadCandidate d.candidate.id joiningArgs with
      | none => some s.abandon
      | some loaded => some { s with tick := .dispatching (.writing artifact loaded) d queue }
    | _ => some s
  | .write =>
    match s.tick with
    | .dispatching (.writing artifact loaded) d queue =>
      some { s with
        candidates :=
          updateCandidate s.candidates d.candidate.id (applyTransition loaded joiningArgs)
        tick := .dispatching (.auditing artifact) d queue }
    | _ => some s
  | .audit =>
    match s.tick with
    | .dispatching (.auditing artifact) d queue =>
      some { s with tick := .dispatching (.publishing artifact) d queue }
    | _ => some s
  | .publish =>
    match s.tick with
    | .dispatching (.publishing artifact) d queue =>
      match s.identities.sources.get d.identity.sourceId with
      -- logged, and not published
      | none => some { s with tick := .ready queue }
      | some _ =>
        some { s with tick := .ready queue, published := d.command artifact :: s.published }
    | _ => some s
  | .abort => some s.abandon
  | .start call c =>
    match s.calls.phase call with
    | some _ => some s
    | none =>
      match c with
      | .operator _ args =>
        if args.toState ∈ operatorTargets then some (s.advance call c .reading) else some s
      | _ => some (s.advance call c .reading)
  | .proceed call now =>
    match s.calls.phase call with
    | none => some s
    | some (c, stage) => some (s.proceed call c now stage)
  | .callFails call =>
    match s.calls.phase call with
    | none => some s
    | some (c, _) => some (s.advance call c .finished)
  | .finalize candidateId groupId =>
    some (s.claimCandidate candidateId .joining .joined (some groupId))
  | .rollback candidateId => some (s.claimCandidate candidateId .joined .joining none)

/-! ## Held scouts -/

/-- The identity is in use. -/
def InUse (s : DispatchRun) (id : Uuid) : Prop :=
  ∃ row, s.identities.getIdentity id = some row ∧ row.state = .inUse

/-- The candidate has failed. -/
def Failed (s : DispatchRun) (id : Uuid) : Prop :=
  ∃ c, s.candidates.get id = some c ∧ c.row.state = .failed

/-- The command of the lease went out. -/
def Commanded (s : DispatchRun) (l : Lease) : Prop :=
  ∃ command ∈ s.published,
    command.candidateId = l.candidateId ∧ command.scoutIdentityId = l.scoutId

/-- A call on the candidate is in progress. -/
def OnCandidate (s : DispatchRun) (id : Uuid) : Prop :=
  ∃ call c stage, s.calls.phase call = some (c, stage) ∧ stage ≠ .finished ∧ c.candidateId = id

/-- A scout is leased once. While its dispatch is not in progress, one that is in use has had its
command, and while no call on its candidate is in progress either, the candidate has not failed. A
dispatch that failed left its scout available. -/
structure Sound (s : DispatchRun) : Prop where
  one : (s.leases.map Lease.scoutId).Nodup
  commanded : ∀ l ∈ s.leases, s.InUse l.scoutId → s.tick.lease = some l ∨ s.Commanded l
  abandoned : ∀ state ∈ s.abandoned, state = some .available
  failed : ∀ l ∈ s.leases, s.Failed l.candidateId → s.InUse l.scoutId →
    s.tick.lease = some l ∨ s.OnCandidate l.candidateId

/-- A dispatch does not fail after its lease, nor is the source of its scout missing when the
command is due; a call that fails a candidate goes on to burn the scouts that are in use for it,
and does not fail before it has. -/
def Careful (s : DispatchRun) : Step → Prop
  | .abort => s.tick.lease = none
  | .move => ∀ artifact d queue, s.tick = .dispatching (.moving artifact) d queue →
      d.leased = true → ∃ c, s.candidates.get d.candidate.id = some c ∧
        .joining ∈ c.row.state.allowed
  | .publish => ∀ artifact d queue, s.tick = .dispatching (.publishing artifact) d queue →
      d.leased = true → s.InUse d.identity.id →
        s.identities.sources.get d.identity.sourceId ≠ none
  | .proceed call _ => ∀ c loaded, s.calls.phase call = some (c, .writing loaded) →
      c.args.toState = .failed → ∀ l ∈ s.leases, l.candidateId = c.candidateId →
        s.InUse l.scoutId → c.burns = some l.scoutId
  | .callFails call => ∀ c stage, s.calls.phase call = some (c, stage) →
      stage.beforeBurn = true → ∀ scoutId, c.burns = some scoutId → ¬ s.InUse scoutId
  | _ => True

variable {s s' : DispatchRun} {a : Step}

/-! ### Candidates -/

theorem get_updateCandidate (candidates : Table GroupCandidate.id) (id k : Uuid)
    (f : CandidateRow → CandidateRow) :
    (updateCandidate candidates id f).get k =
      if k = id then (candidates.get k).map fun c => { c with row := f c.row }
      else candidates.get k := by
  rw [updateCandidate]
  cases hget : candidates.get id with
  | none =>
    split_ifs with hk
    · rw [hk, hget]
      rfl
    · rfl
  | some c =>
    obtain ⟨hmem, rfl⟩ := Table.get_eq_some.mp hget
    dsimp only
    have hkey : GroupCandidate.id { c with row := f c.row } = c.id := rfl
    rw [Table.get_put hmem hkey]
    by_cases hk : k = c.id
    · rw [if_pos hk.symm, if_pos hk, hk, hget]
      rfl
    · rw [if_neg (Ne.symm hk), if_neg hk]

/-- A write makes no other candidate fail, and one by `transition_candidate` only when it is
for that. -/
theorem Failed.of_applyTransition {id k : Uuid} {loaded : CandidateRow}
    {args : CandidateTransition}
    (hcandidates :
      s'.candidates = updateCandidate s.candidates id (applyTransition loaded args))
    (h : s'.Failed k) : s.Failed k ∨ k = id ∧ args.toState = .failed := by
  obtain ⟨c', hc', hstate⟩ := h
  rw [hcandidates, get_updateCandidate] at hc'
  split_ifs at hc' with hk
  · obtain ⟨c, hc, rfl⟩ := Option.map_eq_some_iff.mp hc'
    dsimp only [applyTransition] at hstate
    split_ifs at hstate
    · exact Or.inr ⟨hk, hstate⟩
    · exact Or.inl ⟨c, hc, hstate⟩
  · exact Or.inl ⟨c', hc', hstate⟩

theorem Failed.of_claimCandidate {id k : Uuid} {fromState toState : CandidateState}
    {groupId : Option Uuid} (htarget : toState ≠ .failed)
    (h : (s.claimCandidate id fromState toState groupId).Failed k) : s.Failed k := by
  obtain ⟨c', hc', hstate⟩ := h
  rw [claimCandidate, get_updateCandidate] at hc'
  split_ifs at hc' with hk
  · obtain ⟨c, hc, rfl⟩ := Option.map_eq_some_iff.mp hc'
    dsimp only [claimTransition] at hstate
    split_ifs at hstate
    · exact absurd hstate htarget
    · exact ⟨c, hc, hstate⟩
  · exact ⟨c', hc', hstate⟩

/-- A candidate that can move to a state from which it came is not one that has failed. -/
theorem not_failed_of_load {id : Uuid} {loaded : CandidateRow}
    (h : s.loadCandidate id joiningArgs = some loaded) : ¬ s.Failed id := by
  rintro ⟨c, hc, hstate⟩
  rw [loadCandidate, hc] at h
  dsimp only [checkTransition, joiningArgs] at h
  rw [hstate] at h
  cases h

/-! ### Scouts -/

/-- What a step without a lease does. -/
structure Quiet (s s' : DispatchRun) : Prop where
  leases : s'.leases = s.leases
  identities : ∀ id row, s'.identities.getIdentity id = some row →
    row.state = .burned ∨ s.identities.getIdentity id = some row
  tick : ∀ l, s'.tick.lease = some l → s.tick.lease = some l

theorem Quiet.inUse (h : s.Quiet s') {id : Uuid} (huse : s'.InUse id) : s.InUse id := by
  obtain ⟨row, hrow, hstate⟩ := huse
  rcases h.identities id row hrow with hburned | hsame
  · rw [hstate] at hburned
    cases hburned
  · exact ⟨row, hsame, hstate⟩

/-- Where the identities stay, only the tick matters. -/
theorem Quiet.of_identities (hidentities : s'.identities = s.identities)
    (hleases : s'.leases = s.leases)
    (htick : ∀ l, s'.tick.lease = some l → s.tick.lease = some l) : s.Quiet s' :=
  ⟨hleases, fun _ _ hrow => Or.inr (hidentities ▸ hrow), htick⟩

theorem quiet_abandon : s.Quiet s.abandon :=
  .of_identities rfl rfl (by rintro _ ⟨⟩)

theorem getIdentity_burn {identities : IdentityStore} {scoutId : Uuid} {id : Uuid}
    {row : IdentityRow} (h : (identities.burnIdentity scoutId).1.getIdentity id = some row) :
    row.state = .burned ∨ id ≠ scoutId ∧ identities.getIdentity id = some row := by
  rw [IdentityStore.burnIdentity_fst] at h
  obtain ⟨old, hold, rfl⟩ := IdentityStore.exists_of_get_writeTarget h
  split_ifs with htarget
  · exact Or.inl rfl
  · refine Or.inr ⟨?_, hold⟩
    rintro rfl
    exact htarget hold

theorem getIdentity_release {identities : IdentityStore} {name : String} {now : ℤ} {id : Uuid}
    {row : IdentityRow}
    (h : (identities.release name .burned now).1.getIdentity id = some row) :
    row.state = .burned ∨ identities.getIdentity id = some row := by
  rw [IdentityStore.release_fst] at h
  obtain ⟨old, hold, rfl⟩ := IdentityStore.exists_of_get_writeTarget h
  split_ifs
  · exact Or.inl rfl
  · exact Or.inr hold

theorem quiet_proceed (call : ℕ) (c : CandidateCall) (now : ℤ) (stage : CallStage) :
    s.Quiet (s.proceed call c now stage) := by
  cases stage with
  | burning =>
    simp only [proceed]
    split
    · exact .of_identities rfl rfl fun _ h => h
    · next scoutId hburns =>
      split
      · exact .of_identities rfl rfl fun _ h => h
      · next identities row hburn =>
        refine ⟨rfl, fun id row hrow => ?_, fun _ h => h⟩
        have hfst : identities = (s.identities.burnIdentity scoutId).1 := by rw [hburn]
        dsimp only at hrow
        rw [hfst] at hrow
        exact (getIdentity_burn hrow).imp_right And.right
  | releasing =>
    simp only [proceed]
    split
    · exact ⟨rfl, fun id row hrow => getIdentity_release hrow, fun _ h => h⟩
    · exact .of_identities rfl rfl fun _ h => h
  | reading =>
    simp only [proceed]
    split <;> exact .of_identities rfl rfl fun _ h => h
  | inspecting =>
    simp only [proceed]
    split <;> exact .of_identities rfl rfl fun _ h => h
  | parkReading =>
    simp only [proceed]
    split <;> exact .of_identities rfl rfl fun _ h => h
  | _ => exact .of_identities rfl rfl fun _ h => h

/-- A call does not touch the tick. -/
theorem proceed_frame (call : ℕ) (c : CandidateCall) (now : ℤ) (stage : CallStage) :
    (s.proceed call c now stage).tick = s.tick ∧
      (s.proceed call c now stage).published = s.published ∧
        (s.proceed call c now stage).abandoned = s.abandoned := by
  refine ⟨?_, ?_, ?_⟩ <;> cases stage <;> simp only [proceed] <;> repeat' split
  all_goals rfl

theorem proceed_calls (call : ℕ) (c : CandidateCall) (now : ℤ) {stage : CallStage}
    (hstage : stage ≠ .finished) :
    ∃ stage', (s.proceed call c now stage).calls = s.calls.put call (c, stage') := by
  cases stage with
  | finished => exact absurd rfl hstage
  | _ =>
    simp only [proceed, advance]
    repeat' split
    all_goals exact ⟨_, rfl⟩

/-- A call fails its candidate by its first transition only. -/
theorem Failed.of_proceed {call : ℕ} {c : CandidateCall} {now : ℤ} {stage : CallStage} {k : Uuid}
    (h : (s.proceed call c now stage).Failed k) :
    s.Failed k ∨
      k = c.candidateId ∧ c.args.toState = .failed ∧ ∃ loaded, stage = .writing loaded := by
  cases stage with
  | writing loaded =>
    refine (Failed.of_applyTransition rfl h).imp_right fun hnew => ?_
    exact ⟨hnew.1, hnew.2, loaded, rfl⟩
  | parkWriting loaded =>
    refine (Failed.of_applyTransition rfl h).imp_right fun hnew => ?_
    cases hnew.2
  | reading =>
    refine Or.inl ?_
    simp only [proceed] at h
    split at h <;> exact h
  | burning =>
    refine Or.inl ?_
    simp only [proceed] at h
    split at h
    · exact h
    · split at h <;> exact h
  | inspecting =>
    refine Or.inl ?_
    simp only [proceed] at h
    split at h <;> exact h
  | parkReading =>
    refine Or.inl ?_
    simp only [proceed] at h
    split at h <;> exact h
  | releasing =>
    refine Or.inl ?_
    simp only [proceed] at h
    split at h <;> exact h
  | _ => exact Or.inl h

/-- After its burn, however that ended, the scout of a call is not in use. -/
theorem not_inUse_of_burning {call : ℕ} {c : CandidateCall} {now : ℤ} {scoutId : Uuid}
    (hburns : c.burns = some scoutId) : ¬ (s.proceed call c now .burning).InUse scoutId := by
  rintro ⟨row, hrow, hstate⟩
  simp only [proceed, hburns] at hrow
  split at hrow
  · next identities e hburn =>
    -- the identity is not there
    change s.identities.getIdentity scoutId = some row at hrow
    rw [IdentityStore.burnIdentity, hrow] at hburn
    cases hburn
  · next identities old hburn =>
    have hfst : identities = (s.identities.burnIdentity scoutId).1 := by rw [hburn]
    dsimp only at hrow
    rw [hfst] at hrow
    rcases getIdentity_burn hrow with hburned | ⟨hne, -⟩
    · rw [hstate] at hburned
      cases hburned
    · exact hne rfl

/-- What the step of a lease does. -/
structure Leased (s s' : DispatchRun) (c : GroupCandidate) (queue : DispatchQueue)
    (old : IdentityRow) : Prop where
  tick : s.tick = .leasing c queue
  mem : old ∈ s.identities.identities
  available : old.state = .available
  eq : s' = { s with
    identities := s.identities.write { old with state := .inUse }
    tick := .dispatching .choosing ⟨c, { old with state := .inUse }, true⟩ queue
    leases := ⟨old.id, c.id⟩ :: s.leases }

theorem Leased.getIdentity {c : GroupCandidate} {queue : DispatchQueue} {old : IdentityRow}
    (h : s.Leased s' c queue old) (id : Uuid) :
    s'.identities.getIdentity id =
      if old.id = id then some { old with state := .inUse } else s.identities.getIdentity id := by
  have hkey : IdentityRow.id { old with state := .inUse } = old.id := rfl
  rw [h.eq]
  exact Table.get_put h.mem hkey id

/-- **What a step does to scouts.** Only the step of a lease takes one. -/
theorem step_quiet (hstep : s.step a = some s') :
    s.Quiet s' ∨ a = .lease ∧ ∃ c queue old, s.Leased s' c queue old := by
  have hself : s.Quiet s := .of_identities rfl rfl fun _ h => h
  cases a with
  | lease =>
    simp only [step] at hstep
    split at hstep
    · next c queue htick =>
      split at hstep <;> obtain rfl := Option.some.inj hstep
      · exact Or.inl (.of_identities rfl rfl (by rintro _ ⟨⟩))
      · next identities scout hlease =>
        obtain ⟨old, hold, havailable, rfl, rfl⟩ := IdentityStore.leaseScout_eq_some hlease
        exact Or.inr ⟨rfl, c, queue, old, htick, hold, havailable, rfl⟩
    · obtain rfl := Option.some.inj hstep
      exact Or.inl hself
  | next mentioned alive =>
    refine Or.inl ?_
    simp only [step] at hstep
    split at hstep <;> obtain rfl := Option.some.inj hstep
    · exact .of_identities rfl rfl (by rintro _ ⟨⟩)
    · refine .of_identities rfl rfl fun l hl => ?_
      dsimp only [nextPhase] at hl
      split_ifs at hl <;> cases hl
    · exact hself
  | judge eligible =>
    refine Or.inl ?_
    simp only [step] at hstep
    split at hstep <;> obtain rfl := Option.some.inj hstep
    · refine .of_identities rfl rfl fun l hl => ?_
      dsimp only at hl
      split_ifs at hl <;> cases hl
    · exact hself
  | identify identityId =>
    refine Or.inl ?_
    simp only [step] at hstep
    split at hstep
    · split at hstep <;> obtain rfl := Option.some.inj hstep <;>
        exact .of_identities rfl rfl (by rintro _ ⟨⟩)
    · obtain rfl := Option.some.inj hstep
      exact hself
  | choose artifact =>
    refine Or.inl ?_
    simp only [step] at hstep
    split at hstep
    · next d queue htick =>
      split_ifs at hstep <;> obtain rfl := Option.some.inj hstep <;>
        exact .of_identities rfl rfl fun l hl => by rw [htick]; exact hl
    · obtain rfl := Option.some.inj hstep
      exact hself
  | move =>
    refine Or.inl ?_
    simp only [step] at hstep
    split at hstep
    · next artifact d queue htick =>
      split at hstep <;> obtain rfl := Option.some.inj hstep
      · exact quiet_abandon
      · exact .of_identities rfl rfl fun l hl => by rw [htick]; exact hl
    · obtain rfl := Option.some.inj hstep
      exact hself
  | write =>
    refine Or.inl ?_
    simp only [step] at hstep
    split at hstep <;> obtain rfl := Option.some.inj hstep
    · next artifact loaded d queue htick =>
      exact .of_identities rfl rfl fun l hl => by rw [htick]; exact hl
    · exact hself
  | audit =>
    refine Or.inl ?_
    simp only [step] at hstep
    split at hstep <;> obtain rfl := Option.some.inj hstep
    · next artifact d queue htick =>
      exact .of_identities rfl rfl fun l hl => by rw [htick]; exact hl
    · exact hself
  | publish =>
    refine Or.inl ?_
    simp only [step] at hstep
    split at hstep
    · split at hstep <;> obtain rfl := Option.some.inj hstep <;>
        exact .of_identities rfl rfl (by rintro _ ⟨⟩)
    · obtain rfl := Option.some.inj hstep
      exact hself
  | abort =>
    obtain rfl := Option.some.inj hstep
    exact Or.inl quiet_abandon
  | proceed call now =>
    refine Or.inl ?_
    simp only [step] at hstep
    split at hstep <;> obtain rfl := Option.some.inj hstep
    · exact hself
    · exact quiet_proceed _ _ _ _
  | listApproved ranking =>
    refine Or.inl ?_
    simp only [step] at hstep
    split at hstep <;> obtain rfl := Option.some.inj hstep
    · exact .of_identities rfl rfl (by rintro _ ⟨⟩)
    · exact hself
  | listJoining ranking =>
    refine Or.inl ?_
    simp only [step] at hstep
    split at hstep <;> obtain rfl := Option.some.inj hstep
    · exact .of_identities rfl rfl (by rintro _ ⟨⟩)
    · exact hself
  | start call c =>
    refine Or.inl ?_
    simp only [step] at hstep
    split at hstep
    · obtain rfl := Option.some.inj hstep
      exact hself
    split at hstep
    · split_ifs at hstep <;> obtain rfl := Option.some.inj hstep <;>
        exact .of_identities rfl rfl fun _ h => h
    · obtain rfl := Option.some.inj hstep
      exact .of_identities rfl rfl fun _ h => h
  | callFails call =>
    refine Or.inl ?_
    simp only [step] at hstep
    split at hstep <;> obtain rfl := Option.some.inj hstep <;>
      exact .of_identities rfl rfl fun _ h => h
  | finalize candidateId groupId =>
    obtain rfl := Option.some.inj hstep
    exact Or.inl (.of_identities rfl rfl fun _ h => h)
  | rollback candidateId =>
    obtain rfl := Option.some.inj hstep
    exact Or.inl (.of_identities rfl rfl fun _ h => h)

/-- A scout is abandoned by the tick alone, when it has a lease. -/
theorem step_abandoned (hstep : s.step a = some s') :
    s'.abandoned = s.abandoned ∨ ∃ l, s.tick.lease = some l ∧
      s'.abandoned = (s.identities.getIdentity l.scoutId).map IdentityRow.state :: s.abandoned := by
  have habandon : s.abandon.abandoned = s.abandoned ∨ ∃ l, s.tick.lease = some l ∧
      s.abandon.abandoned =
        (s.identities.getIdentity l.scoutId).map IdentityRow.state :: s.abandoned := by
    cases hlease : s.tick.lease with
    | none => exact Or.inl (by simp [abandon, hlease])
    | some l => exact Or.inr ⟨l, rfl, by simp [abandon, hlease]⟩
  cases a with
  | move =>
    simp only [step] at hstep
    split at hstep
    · split at hstep <;> obtain rfl := Option.some.inj hstep
      · exact habandon
      · exact Or.inl rfl
    · obtain rfl := Option.some.inj hstep
      exact Or.inl rfl
  | abort =>
    obtain rfl := Option.some.inj hstep
    exact habandon
  | proceed call now =>
    simp only [step] at hstep
    split at hstep <;> obtain rfl := Option.some.inj hstep
    · exact Or.inl rfl
    · exact Or.inl (proceed_frame _ _ _ _).2.2
  | _ =>
    refine Or.inl ?_
    simp only [step] at hstep
    repeat' split at hstep
    all_goals
      obtain rfl := Option.some.inj hstep
      rfl

/-! ### What holds whatever fails -/

/-- A leased scout is leased once, and never available again. -/
structure Inv (s : DispatchRun) : Prop where
  one : (s.leases.map Lease.scoutId).Nodup
  taken : ∀ l ∈ s.leases, ∀ row, s.identities.getIdentity l.scoutId = some row →
    row.state ≠ .available
  current : ∀ l, s.tick.lease = some l → l ∈ s.leases

theorem inv_init (identities : IdentityStore) (candidates : Table GroupCandidate.id) :
    (init identities candidates).Inv where
  one := List.nodup_nil
  taken l hl := absurd hl List.not_mem_nil
  current l hl := by cases hl

/-- The scout of a lease was available, so it is none of those that are leased. -/
theorem Inv.free (h : s.Inv) {c : GroupCandidate} {queue : DispatchQueue} {old : IdentityRow}
    (hleased : s.Leased s' c queue old) : ∀ l ∈ s.leases, old.id ≠ l.scoutId := by
  intro l hl hid
  refine h.taken l hl old ?_ hleased.available
  rw [← hid]
  exact IdentityStore.getIdentity_self hleased.mem

theorem Inv.step (h : s.Inv) (hstep : s.step a = some s') : s'.Inv := by
  rcases step_quiet hstep with hquiet | ⟨-, c, queue, old, hleased⟩
  · refine ⟨hquiet.leases ▸ h.one, fun l hl row hrow => ?_, fun l hl => ?_⟩
    · rw [hquiet.leases] at hl
      rcases hquiet.identities _ row hrow with hburned | hsame
      · rw [hburned]
        decide
      · exact h.taken l hl row hsame
    · rw [hquiet.leases]
      exact h.current l (hquiet.tick l hl)
  · have hget := hleased.getIdentity
    have hfree : old.id ∉ s.leases.map Lease.scoutId := by
      intro hin
      obtain ⟨l, hl, hid⟩ := List.mem_map.mp hin
      exact h.free hleased l hl hid.symm
    obtain ⟨-, -, -, rfl⟩ := hleased
    refine ⟨List.nodup_cons.mpr ⟨hfree, h.one⟩, fun l hl row hrow => ?_, fun l hl => ?_⟩
    · rw [hget] at hrow
      split_ifs at hrow with hid
      · obtain rfl := Option.some.inj hrow
        rintro ⟨⟩
      · rcases List.mem_cons.mp hl with rfl | hl
        · exact absurd rfl hid
        · exact h.taken l hl row hrow
    · obtain rfl := Option.some.inj hl
      exact List.mem_cons_self

/-- A dispatch that fails after its lease never leaves the scout available. -/
theorem abandoned_ne_available {identities : IdentityStore}
    {candidates : Table GroupCandidate.id} {as : List Step}
    (hrun : run step (init identities candidates) as = some s) :
    ∀ state ∈ s.abandoned, state ≠ some .available := by
  have h0 : (init identities candidates).Inv ∧
      ∀ state ∈ (init identities candidates).abandoned, state ≠ some .available :=
    ⟨inv_init identities candidates, fun state hstate => absurd hstate List.not_mem_nil⟩
  refine (run_preserves
    (I := fun s => Inv s ∧ ∀ state ∈ s.abandoned, state ≠ some .available)
    (fun h hstep => ⟨h.1.step hstep, fun state hstate => ?_⟩) h0 hrun).2
  rcases step_abandoned hstep with hsame | ⟨l, hlease, hnew⟩
  · exact h.2 state (hsame ▸ hstate)
  · rw [hnew] at hstate
    rcases List.mem_cons.mp hstate with rfl | hold
    · rw [ne_eq, Option.map_eq_some_iff]
      rintro ⟨row, hrow, havailable⟩
      exact h.1.taken l (h.1.current l hlease) row hrow havailable
    · exact h.2 state hold

/-! ### What holds of careful runs -/

/-- A call has failed the candidate of the lease and is still to burn its scout. -/
def BurnDue (s : DispatchRun) (l : Lease) : Prop :=
  ∃ call c stage, s.calls.phase call = some (c, stage) ∧ stage.beforeBurn = true ∧
    c.burns = some l.scoutId ∧ c.candidateId = l.candidateId

theorem BurnDue.onCandidate {l : Lease} (h : s.BurnDue l) : s.OnCandidate l.candidateId := by
  obtain ⟨call, c, stage, hphase, hbefore, -, hcandidate⟩ := h
  refine ⟨call, c, stage, hphase, ?_, hcandidate⟩
  rintro rfl
  cases hbefore

/-- What holds as long as the steps are careful. -/
structure Kept (s : DispatchRun) : Prop where
  commanded : ∀ l ∈ s.leases, s.InUse l.scoutId → s.tick.lease = some l ∨ s.Commanded l
  abandoned : s.abandoned = []
  failed : ∀ l ∈ s.leases, s.Failed l.candidateId → s.InUse l.scoutId →
    s.tick.unmoved = some l ∨ s.BurnDue l

theorem Kept.sound (h : s.Kept) (hinv : s.Inv) : s.Sound where
  one := hinv.one
  commanded := h.commanded
  abandoned state hstate := by
    rw [h.abandoned] at hstate
    cases hstate
  failed l hl hfailed huse :=
    (h.failed l hl hfailed huse).imp DispatchPhase.lease_of_unmoved BurnDue.onCandidate

/-- A step without a lease keeps it, if what it ends is in order. -/
theorem Kept.quiet (h : s.Kept) (hquiet : s.Quiet s') (habandoned : s'.abandoned = s.abandoned)
    (hcommanded : ∀ l, s.Commanded l → s'.Commanded l)
    (hlease : ∀ l, s.tick.lease = some l → s'.InUse l.scoutId →
      s'.tick.lease = some l ∨ s'.Commanded l)
    (hfailed : ∀ l ∈ s.leases, s'.Failed l.candidateId → s'.InUse l.scoutId →
      s.Failed l.candidateId ∨ s'.BurnDue l)
    (hunmoved : ∀ l, s.tick.unmoved = some l → s.Failed l.candidateId →
      s'.tick.unmoved = some l)
    (hburn : ∀ l, s.BurnDue l → s'.InUse l.scoutId → s'.BurnDue l) : s'.Kept where
  commanded l hl huse := by
    rw [hquiet.leases] at hl
    rcases h.commanded l hl (hquiet.inUse huse) with hcurrent | hdone
    · exact hlease l hcurrent huse
    · exact Or.inr (hcommanded l hdone)
  abandoned := habandoned.trans h.abandoned
  failed l hl hstate huse := by
    rw [hquiet.leases] at hl
    rcases hfailed l hl hstate huse with hbefore | hdue
    · rcases h.failed l hl hbefore (hquiet.inUse huse) with hcurrent | hdue
      · exact Or.inl (hunmoved l hcurrent hbefore)
      · exact Or.inr (hburn l hdue huse)
    · exact Or.inr hdue

/-- The tick moves on with the lease that it has. -/
theorem Kept.retick (h : s.Kept) {p : DispatchPhase} (hlease : p.lease = s.tick.lease)
    (hunmoved : ∀ l, s.tick.unmoved = some l → s.Failed l.candidateId → p.unmoved = some l) :
    Kept { s with tick := p } :=
  h.quiet (.of_identities rfl rfl fun _ hl => hlease.symm.trans hl) rfl (fun _ hl => hl)
    (fun _ hl _ => Or.inl (hlease.trans hl)) (fun _ _ hl _ => Or.inl hl) hunmoved
    fun _ hl _ => hl

/-- A call moves on, unless it leaves a scout that is in use unburned. -/
theorem BurnDue.advance {l : Lease} (h : s.BurnDue l) {call : ℕ} {c : CandidateCall}
    {stage stage' : CallStage} (hphase : ∀ p, s.calls.phase call = some p → p = (c, stage))
    (hstage : stage.beforeBurn = true → c.burns = some l.scoutId → stage'.beforeBurn = true)
    (hcalls : s'.calls = s.calls.put call (c, stage')) : s'.BurnDue l := by
  obtain ⟨call₀, c₀, stage₀, hphase₀, hbefore, hburns, hcandidate⟩ := h
  rw [BurnDue, hcalls]
  by_cases hcall : call₀ = call
  · subst hcall
    obtain ⟨rfl, rfl⟩ := Prod.mk.inj (hphase _ hphase₀)
    exact ⟨call₀, c₀, stage', Calls.phase_put_self, hstage hbefore hburns, hburns, hcandidate⟩
  · exact ⟨call₀, c₀, stage₀, (Calls.phase_put_of_ne hcall).trans hphase₀, hbefore, hburns,
      hcandidate⟩

theorem Kept.proceed (h : s.Kept) {call : ℕ} {now : ℤ} (hcareful : s.Careful (.proceed call now))
    {c : CandidateCall} {stage : CallStage} (hphase : s.calls.phase call = some (c, stage)) :
    (s.proceed call c now stage).Kept := by
  obtain ⟨htick, hpublished, habandoned⟩ := proceed_frame (s := s) call c now stage
  refine h.quiet (quiet_proceed call c now stage) habandoned (fun l hl => ?_) (fun l hl _ => ?_)
    (fun l hl hfailed huse => ?_) (fun l hl _ => ?_) (fun l hdue huse => ?_)
  · rw [Commanded, hpublished]
    exact hl
  · exact Or.inl (htick ▸ hl)
  · refine hfailed.of_proceed.imp_right ?_
    rintro ⟨hcandidate, htarget, loaded, rfl⟩
    have hbefore := (quiet_proceed call c now (.writing loaded)).inUse huse
    have hburns := hcareful c loaded hphase htarget l hl hcandidate hbefore
    exact ⟨call, c, .auditing, Calls.phase_put_self, rfl, hburns, hcandidate.symm⟩
  · exact htick ▸ hl
  · by_cases hfinished : stage = .finished
    · subst hfinished
      exact hdue
    · obtain ⟨stage', hcalls⟩ := proceed_calls (s := s) call c now hfinished
      refine hdue.advance (fun p hp => Option.some.inj (hp.symm.trans hphase)) ?_ hcalls
      intro hbefore hburns
      cases stage with
      | auditing =>
        have hstage : (s.proceed call c now .auditing).calls =
            s.calls.put call (c, .burning) := by
          simp only [DispatchRun.proceed, hburns]
          rfl
        have hsame := congrArg (fun calls => Calls.phase calls call) (hcalls.symm.trans hstage)
        simp only [Calls.phase_put_self, Option.some.injEq, Prod.mk.injEq, true_and] at hsame
        rw [hsame]
        rfl
      | burning => exact absurd huse (not_inUse_of_burning hburns)
      | _ => cases hbefore

/-- The scout that is leased has its dispatch in progress, and the others are as they were. -/
theorem Kept.lease (h : s.Kept) (hinv : s.Inv) {c : GroupCandidate} {queue : DispatchQueue}
    {old : IdentityRow} (hleased : s.Leased s' c queue old) : s'.Kept := by
  have hget := hleased.getIdentity
  have hfree := hinv.free hleased
  have huse : ∀ l ∈ s.leases, s'.InUse l.scoutId → s.InUse l.scoutId := by
    rintro l hl ⟨row, hrow, hstate⟩
    rw [hget, if_neg (hfree l hl)] at hrow
    exact ⟨row, hrow, hstate⟩
  obtain ⟨htick, -, -, rfl⟩ := hleased
  refine ⟨fun l hl hin => ?_, h.abandoned, fun l hl hfailed hin => ?_⟩
  · rcases List.mem_cons.mp hl with rfl | hl
    · exact Or.inl rfl
    · rcases h.commanded l hl (huse l hl hin) with hcurrent | hdone
      · rw [htick] at hcurrent
        cases hcurrent
      · exact Or.inr hdone
  · rcases List.mem_cons.mp hl with rfl | hl
    · exact Or.inl rfl
    · rcases h.failed l hl hfailed (huse l hl hin) with hcurrent | hdue
      · rw [htick] at hcurrent
        cases hcurrent
      · exact Or.inr hdue

/-- The lease of a dispatch, if its identity was leased. -/
theorem lease_dispatching {stage : DispatchStage} {d : Dispatch} {queue : DispatchQueue}
    {l : Lease} (h : (DispatchPhase.dispatching stage d queue).lease = some l) :
    d.leased = true ∧ l = d.lease := by
  rw [DispatchPhase.lease] at h
  split_ifs at h with hleased
  exact ⟨hleased, (Option.some.inj h).symm⟩

/-- Outside of a dispatch with a lease the tick goes on as it likes. -/
theorem Kept.retick_none (h : s.Kept) {p : DispatchPhase} (hold : s.tick.lease = none)
    (hnew : p.lease = none) : Kept { s with tick := p } := by
  refine h.retick (hnew.trans hold.symm) fun l hl => ?_
  rw [DispatchPhase.lease_of_unmoved hl] at hold
  cases hold

theorem Kept.abandon (h : s.Kept) (hnone : s.tick.lease = none) : s.abandon.Kept := by
  have hsame : s.abandon = { s with tick := .idle } := by rw [DispatchRun.abandon, hnone]
  rw [hsame]
  exact h.retick_none hnone rfl

/-- A call starts or ends with no burn of a scout in use before it. -/
theorem Kept.advance (h : s.Kept) {call : ℕ} {c : CandidateCall} (stage : CallStage)
    {stage' : CallStage}
    (hphase : ∀ p, s.calls.phase call = some p → p = (c, stage))
    (hburn : stage.beforeBurn = true → ∀ scoutId, c.burns = some scoutId → ¬ s.InUse scoutId) :
    (s.advance call c stage').Kept :=
  h.quiet (.of_identities rfl rfl fun _ hl => hl) rfl (fun _ hl => hl) (fun _ hl _ => Or.inl hl)
    (fun _ _ hl _ => Or.inl hl) (fun _ hl _ => hl) fun l hdue huse =>
      hdue.advance hphase (fun hbefore hburns => absurd huse (hburn hbefore l.scoutId hburns)) rfl

theorem Kept.claimCandidate (h : s.Kept) {candidateId : Uuid} {fromState toState : CandidateState}
    {groupId : Option Uuid} (htarget : toState ≠ .failed) :
    (s.claimCandidate candidateId fromState toState groupId).Kept :=
  h.quiet (.of_identities rfl rfl fun _ hl => hl) rfl (fun _ hl => hl) (fun _ hl _ => Or.inl hl)
    (fun _ _ hfailed _ => Or.inl (hfailed.of_claimCandidate htarget)) (fun _ hl _ => hl)
    fun _ hdue _ => hdue

/-- A dispatch ends with its command, or without an identity that was leased and is in use. -/
theorem Kept.publish (h : s.Kept) {artifact : Option Uuid} {d : Dispatch} {queue : DispatchQueue}
    {published : List JoinGroupCommand}
    (htick : s.tick = .dispatching (.publishing artifact) d queue)
    (hpublished : ∀ command ∈ s.published, command ∈ published)
    (hdone : d.leased = true → s.InUse d.identity.id → d.command artifact ∈ published) :
    Kept { s with tick := .ready queue, published := published } := by
  refine h.quiet (.of_identities rfl rfl (by rintro _ ⟨⟩)) rfl (fun l hl => ?_)
    (fun l hl huse => ?_)
    (fun _ _ hl _ => Or.inl hl) (fun l hl _ => ?_) fun _ hl _ => hl
  · obtain ⟨command, hmem, hcommand⟩ := hl
    exact ⟨command, hpublished command hmem, hcommand⟩
  · rw [htick] at hl
    obtain ⟨hleased, rfl⟩ := lease_dispatching hl
    exact Or.inr ⟨d.command artifact, hdone hleased huse, rfl, rfl⟩
  · rw [htick] at hl
    cases hl

theorem Kept.step (h : s.Kept) (hinv : s.Inv) (hcareful : s.Careful a)
    (hstep : s.step a = some s') : s'.Kept := by
  cases a with
  | lease =>
    rcases step_quiet hstep with hquiet | ⟨-, c, queue, old, hleased⟩
    · simp only [DispatchRun.step] at hstep
      split at hstep
      · next c queue htick =>
        split at hstep <;> obtain rfl := Option.some.inj hstep
        · exact h.retick (by rw [htick]; rfl) fun l hl => by rw [htick] at hl; cases hl
        · next identities scout hlease =>
          obtain ⟨old, hold, havailable, rfl, rfl⟩ := IdentityStore.leaseScout_eq_some hlease
          exact h.lease hinv ⟨htick, hold, havailable, rfl⟩
      · obtain rfl := Option.some.inj hstep
        exact h
    · exact h.lease hinv hleased
  | choose artifact =>
    simp only [DispatchRun.step] at hstep
    split at hstep
    · next d queue htick =>
      split_ifs at hstep with hmoves <;> obtain rfl := Option.some.inj hstep
      · exact h.retick (by rw [htick]; rfl) fun l hl _ => by rw [htick] at hl; exact hl
      · -- without a lease there is nothing to keep
        refine h.retick (by rw [htick]; rfl) fun l hl _ => ?_
        rw [htick] at hl
        exact absurd (Or.inl (lease_dispatching (DispatchPhase.lease_of_unmoved hl)).1) hmoves
    · obtain rfl := Option.some.inj hstep
      exact h
  | move =>
    simp only [DispatchRun.step] at hstep
    split at hstep
    · next artifact d queue htick =>
      split at hstep
      · next hload =>
        obtain rfl := Option.some.inj hstep
        refine h.abandon ?_
        by_contra hlease
        obtain ⟨l, hl⟩ := Option.ne_none_iff_exists'.mp hlease
        rw [htick] at hl
        obtain ⟨c, hc, hallowed⟩ := hcareful artifact d queue htick (lease_dispatching hl).1
        have hcheck : checkTransition c.row joiningArgs = .ok () := if_pos hallowed
        simp only [loadCandidate, hc, hcheck] at hload
        cases hload
      · next loaded hload =>
        obtain rfl := Option.some.inj hstep
        refine h.retick (by rw [htick]; rfl) fun l hl hfailed => ?_
        rw [htick] at hl
        obtain ⟨-, rfl⟩ := lease_dispatching (DispatchPhase.lease_of_unmoved hl)
        exact absurd hfailed (not_failed_of_load hload)
    · obtain rfl := Option.some.inj hstep
      exact h
  | write =>
    simp only [DispatchRun.step] at hstep
    split at hstep
    · next artifact loaded d queue htick =>
      obtain rfl := Option.some.inj hstep
      refine h.quiet (.of_identities rfl rfl fun l hl => ?_) rfl (fun _ hl => hl)
        (fun l hl _ => ?_) (fun l _ hfailed _ => ?_) (fun l hl _ => ?_) fun _ hl _ => hl
      · rw [htick]
        exact hl
      · rw [htick] at hl
        exact Or.inl hl
      · rcases Failed.of_applyTransition rfl hfailed with hbefore | ⟨-, htarget⟩
        · exact Or.inl hbefore
        · cases htarget
      · rw [htick] at hl
        cases hl
    · obtain rfl := Option.some.inj hstep
      exact h
  | audit =>
    simp only [DispatchRun.step] at hstep
    split at hstep <;> obtain rfl := Option.some.inj hstep
    · next artifact d queue htick =>
      exact h.retick (by rw [htick]; rfl) fun l hl => by rw [htick] at hl; cases hl
    · exact h
  | publish =>
    simp only [DispatchRun.step] at hstep
    split at hstep
    · next artifact d queue htick =>
      split at hstep <;> obtain rfl := Option.some.inj hstep
      · next hsource =>
        refine h.publish htick (fun _ hmem => hmem) fun hleased huse => ?_
        exact absurd hsource (hcareful artifact d queue htick hleased huse)
      · refine h.publish htick (fun _ hmem => List.mem_cons_of_mem _ hmem) fun _ _ => ?_
        exact List.mem_cons_self
    · obtain rfl := Option.some.inj hstep
      exact h
  | abort =>
    obtain rfl := Option.some.inj hstep
    exact h.abandon hcareful
  | proceed call now =>
    simp only [DispatchRun.step] at hstep
    split at hstep <;> obtain rfl := Option.some.inj hstep
    · exact h
    · next c stage hphase => exact h.proceed hcareful hphase
  | start call c =>
    simp only [DispatchRun.step] at hstep
    split at hstep
    · obtain rfl := Option.some.inj hstep
      exact h
    · next hphase =>
      have hstart : (s.advance call c .reading).Kept := by
        refine h.advance .finished (fun p hp => ?_) (by rintro ⟨⟩)
        rw [hphase] at hp
        cases hp
      split at hstep
      · split_ifs at hstep <;> obtain rfl := Option.some.inj hstep
        · exact hstart
        · exact h
      · obtain rfl := Option.some.inj hstep
        exact hstart
  | callFails call =>
    simp only [DispatchRun.step] at hstep
    split at hstep <;> obtain rfl := Option.some.inj hstep
    · exact h
    · next c stage hphase =>
      exact h.advance stage (fun p hp => Option.some.inj (hp.symm.trans hphase))
        (hcareful c stage hphase)
  | finalize candidateId groupId =>
    obtain rfl := Option.some.inj hstep
    exact h.claimCandidate (by rintro ⟨⟩)
  | rollback candidateId =>
    obtain rfl := Option.some.inj hstep
    exact h.claimCandidate (by rintro ⟨⟩)
  | next mentioned alive =>
    simp only [DispatchRun.step] at hstep
    split at hstep <;> obtain rfl := Option.some.inj hstep
    · next htick => exact h.retick_none (by rw [htick]; rfl) rfl
    · next c state queue htick =>
      refine h.retick_none (by rw [htick]; rfl) ?_
      rw [nextPhase]
      split_ifs <;> rfl
    · exact h
  | judge eligible =>
    simp only [DispatchRun.step] at hstep
    split at hstep <;> obtain rfl := Option.some.inj hstep
    · next c queue htick =>
      refine h.retick_none (by rw [htick]; rfl) ?_
      split_ifs <;> rfl
    · exact h
  | identify identityId =>
    simp only [DispatchRun.step] at hstep
    split at hstep
    · next c queue htick =>
      split at hstep <;> obtain rfl := Option.some.inj hstep <;>
        exact h.retick_none (by rw [htick]; rfl) rfl
    · obtain rfl := Option.some.inj hstep
      exact h
  | listApproved ranking =>
    simp only [DispatchRun.step] at hstep
    split at hstep <;> obtain rfl := Option.some.inj hstep
    · next htick => exact h.retick_none (by rw [htick]; rfl) rfl
    · exact h
  | listJoining ranking =>
    simp only [DispatchRun.step] at hstep
    split at hstep <;> obtain rfl := Option.some.inj hstep
    · next approved htick => exact h.retick_none (by rw [htick]; rfl) rfl
    · exact h

/-- **Held scouts.** Over every interleaving of the supervisor's ticks with operators and join
outcomes, whatever fails: as long as no dispatch fails after its lease and every call that fails a
candidate burns the scouts that are held for it, every scout in use by a lease is held for the
one candidate whose command went out, and for none that has failed. -/
theorem sound_of_careful {identities : IdentityStore} {candidates : Table GroupCandidate.id}
    {as : List Step} (hcareful : Along step Careful (init identities candidates) as) :
    Throughout step Sound (init identities candidates) as := by
  have hkept : (init identities candidates).Kept :=
    ⟨fun l hl => absurd hl List.not_mem_nil, rfl, fun l hl => absurd hl List.not_mem_nil⟩
  exact throughout_of_along (I := fun s => Inv s ∧ Kept s) (fun h => h.2.sound h.1)
    (fun h hc hstep => ⟨h.1.step hstep, h.2.step h.1 hc hstep⟩)
    ⟨inv_init identities candidates, hkept⟩ hcareful

/-! ### Scouts that stay in use -/

/-- One available scout of one source. -/
def scoutStore : IdentityStore where
  sources := ⟨[⟨1, .telegram, "telegram:s"⟩], by decide⟩
  identities := ⟨[⟨2, "s", 1, 0, none, .available, .scout, none⟩], by decide⟩

/-- One approved candidate of that source. -/
def approvedStore : Table GroupCandidate.id :=
  ⟨[⟨3, 1, "-100", ⟨.approved, none, none, none, some 4, none⟩⟩], by decide⟩

/-- A tick up to the point where its candidate is read. -/
def toMove : List Step :=
  [.listApproved [3], .listJoining [3], .next true true, .judge true, .lease, .choose none]

/-- The whole tick. -/
theorem sound_of_careful_dispatch :
    Throughout step Sound (init scoutStore approvedStore)
      (toMove ++ [.move, .write, .audit, .publish]) := by
  apply sound_of_careful
  refine ⟨trivial, trivial, trivial, trivial, trivial, trivial, ?_, trivial, trivial, ?_, trivial⟩
  · intro artifact d queue htick _
    cases htick
    exact ⟨_, rfl, by decide⟩
  · intro artifact d queue htick _ _
    cases htick
    rintro ⟨⟩

/-- The audit of a dispatch fails, and its scout stays in use without a command; and a candidate
fails whose command went out, and its scout stays in use without a candidate. -/
theorem scouts_stay_in_use :
    (∃ s, run step (init scoutStore approvedStore) (toMove ++ [.move, .write, .abort]) = some s ∧
      s.abandoned = [some .inUse] ∧ s.published = [] ∧ s.tick = .idle) ∧
    ∃ s, run step (init scoutStore approvedStore)
        (toMove ++ [.move, .write, .audit, .publish,
          .start 0 (.failCandidate ⟨3, "-100", 2, none⟩ "invite expired"), .proceed 0 0,
          .proceed 0 0, .proceed 0 0]) = some s ∧
      s.leases = [⟨2, 3⟩] ∧ s.calls.phase 0 = some
        (.failCandidate ⟨3, "-100", 2, none⟩ "invite expired", .finished) ∧
      (s.candidates.get 3).map (fun c => c.row.state) = some .failed ∧
      (s.identities.getIdentity 2).map IdentityRow.state = some .inUse := by
  decide

end DispatchRun

end Eyenet
