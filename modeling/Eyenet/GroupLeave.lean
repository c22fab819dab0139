import Eyenet.JoinDispatch
import Eyenet.Membership
import Eyenet.Sha256

/-!
# Leaving a group

`groups_leave` (`api/v1/groups/api_leave_group.py`) closes the memberships of a joined group one
after another, tells the collector of each to leave, and parks the candidate. Every storage call
and every publish is an await that may raise, before or after it took effect, and then the request
ends where it is; a later request starts over with the memberships that are still open.

* `LeaveRun.Left` — once a request for the group was answered and its candidate is parked, the
  memberships of the beginning are closed and their collectors were told.
* `LeaveRun.left_of_uninterrupted` — in which runs this is so.
-/

namespace Eyenet

open Machine Framing

/-! ## Commands -/

/-- `LeaveGroupCommand` -/
structure LeaveGroupCommand where
  groupId : Uuid
  reason : String
  deriving DecidableEq

/-- `LeaveGroupCommand.kind` -/
def LeaveGroupCommand.kind : String := "leave_group"

/-- A message on the bus. -/
structure LeaveMessage where
  subject : String
  payload : LeaveGroupCommand
  /-- the header `command-kind` -/
  commandKind : String
  deriving DecidableEq

/-- `compute_instance_id` -/
def computeInstanceId (identityName : String) (sourceKind : SourceKind) : String :=
  .ofList <| (hex (Sha256.digest (utf8 (identityName ++ "::" ++ sourceKind.value)))).toList.take 8

/-- `command_subject_for` -/
def commandSubjectFor (scoutInstanceId : String) : String :=
  "eyenet.control.collector." ++ scoutInstanceId ++ ".command"

/-- The tables that a departure only reads. -/
structure Fleet where
  collectors : Table FleetCollector.id
  identities : Table IdentityRow.id

/-- The collector is there, and so is its identity. -/
def Fleet.Present (fleet : Fleet) (collectorId : Uuid) : Prop :=
  ∃ collector, fleet.collectors.get collectorId = some collector ∧
    ∃ identity, fleet.identities.get collector.identityId = some identity

/-- The subject on which the collector with the id listens. -/
def Fleet.subjectOf (fleet : Fleet) (collectorId : Uuid) : Option String :=
  (fleet.collectors.get collectorId).bind fun collector =>
    (fleet.identities.get collector.identityId).map fun identity =>
      commandSubjectFor (computeInstanceId identity.name collector.kind)

/-- `transition_candidate` without another call between its read and its write; `none` is its
`ValueError`. -/
def transitionCandidate (candidates : Table GroupCandidate.id) (id : Uuid)
    (args : CandidateTransition) : Option (Table GroupCandidate.id × GroupCandidate) :=
  match candidates.get id with
  | none => none
  | some candidate =>
    match checkTransition candidate.row args with
    | .error _ => none
    | .ok _ =>
      let candidate := { candidate with row := applyTransition candidate.row args candidate.row }
      some (candidates.put candidate, candidate)

/-! ## Requests -/

/-- A request: its body, the operator, and the time that it reads. -/
structure LeaveRequest where
  candidateId : Uuid
  reason : String
  userId : Uuid
  now : ℤ
  deriving DecidableEq

namespace LeaveRequest

/-- How the request moves the candidate. -/
def args (c : LeaveRequest) : CandidateTransition :=
  ⟨.parked, some ("operator:" ++ uuidText c.userId), some c.now, none, none, none⟩

end LeaveRequest

/-- The audit event `eyenet.audit.group.left`. -/
structure GroupLeftEvent where
  candidateId : Uuid
  userId : Uuid
  groupId : Uuid
  reason : String
  deriving DecidableEq

/-- What a request does for a membership that it has closed. -/
inductive TellStage where
  /-- `get_collector` -/
  | collecting
  /-- `get_identity` -/
  | identifying (collector : FleetCollector)
  | publishing (collector : FleetCollector) (identity : IdentityRow)
  deriving DecidableEq

/-- The await that the request is at. -/
inductive LeavePhase where
  | idle
  /-- `get_candidate` -/
  | reading (c : LeaveRequest)
  /-- `list_active_memberships` -/
  | listing (c : LeaveRequest) (groupId : Uuid)
  /-- `close_membership`, with the memberships that come after -/
  | closing (c : LeaveRequest) (groupId : Uuid) (m : GroupMembership)
      (todo : List GroupMembership)
  | telling (stage : TellStage) (c : LeaveRequest) (groupId : Uuid) (m : GroupMembership)
      (todo : List GroupMembership)
  /-- `transition_candidate` -/
  | parking (c : LeaveRequest) (groupId : Uuid)
  | auditing (c : LeaveRequest) (groupId : Uuid) (row : GroupCandidate)
  deriving DecidableEq

/-- The head of the loop. -/
def LeavePhase.loop (c : LeaveRequest) (groupId : Uuid) : List GroupMembership → LeavePhase
  | [] => .parking c groupId
  | m :: todo => .closing c groupId m todo

/-! ## Runs -/

/-- The tables that departures write, the request in progress, the messages and audit events that
went out, and the candidates as requests answered with them. -/
structure LeaveRun where
  candidates : Table GroupCandidate.id
  memberships : Memberships
  phase : LeavePhase
  published : List LeaveMessage
  audited : List GroupLeftEvent
  responses : List GroupCandidate

namespace LeaveRun

/-- How an await ends. -/
inductive Reply where
  | returned
  /-- it raises, and did nothing -/
  | failed
  /-- it raises after it took effect -/
  | late
  deriving DecidableEq

/-- One step of a run. -/
inductive Step where
  | request (c : LeaveRequest)
  /-- the await of the request in progress ends -/
  | await (reply : Reply)
  deriving DecidableEq

/-- Tables before any request. -/
def init (candidates : Table GroupCandidate.id) (memberships : Memberships) : LeaveRun :=
  ⟨candidates, memberships, .idle, [], [], []⟩

/-- The await ends: `effect` is the run after it took effect, and `next` where the request goes
on. -/
def settle (s : LeaveRun) (effect : LeaveRun) (next : LeavePhase) : Reply → LeaveRun
  | .returned => { effect with phase := next }
  | .failed => { s with phase := .idle }
  | .late => { effect with phase := .idle }

/-- Where a request goes on with its candidate. -/
def afterRead (candidates : Table GroupCandidate.id) (c : LeaveRequest) : LeavePhase :=
  match candidates.get c.candidateId with
  -- `ResourceNotFound`
  | none => .idle
  | some candidate =>
    match candidate.row.resultingGroupId with
    -- `ConflictError`
    | none => .idle
    | some groupId => if candidate.row.state ≠ .joined then .idle else .listing c groupId

/-- The message for a collector. -/
def message (c : LeaveRequest) (groupId : Uuid) (collector : FleetCollector)
    (identity : IdentityRow) : LeaveMessage :=
  ⟨commandSubjectFor (computeInstanceId identity.name collector.kind), ⟨groupId, c.reason⟩,
    LeaveGroupCommand.kind⟩

/-- The await of the request in progress ends. -/
def await (fleet : Fleet) (s : LeaveRun) (reply : Reply) : LeaveRun :=
  match s.phase with
  | .idle => s
  | .reading c => s.settle s (afterRead s.candidates c) reply
  | .listing c groupId =>
    s.settle s (.loop c groupId (s.memberships.listActiveMemberships none (some groupId))) reply
  | .closing c groupId m todo =>
    match s.memberships.closeMembership m.collectorId groupId c.now c.reason with
    | none => { s with phase := .idle }
    | some memberships =>
      s.settle { s with memberships := memberships } (.telling .collecting c groupId m todo) reply
  | .telling .collecting c groupId m todo =>
    match fleet.collectors.get m.collectorId with
    | none => s.settle s (.loop c groupId todo) reply
    | some collector => s.settle s (.telling (.identifying collector) c groupId m todo) reply
  | .telling (.identifying collector) c groupId m todo =>
    match fleet.identities.get collector.identityId with
    | none => s.settle s (.loop c groupId todo) reply
    | some identity =>
      s.settle s (.telling (.publishing collector identity) c groupId m todo) reply
  | .telling (.publishing collector identity) c groupId _ todo =>
    s.settle { s with published := message c groupId collector identity :: s.published }
      (.loop c groupId todo) reply
  | .parking c groupId =>
    match transitionCandidate s.candidates c.candidateId c.args with
    | none => { s with phase := .idle }
    | some (candidates, row) =>
      s.settle { s with candidates := candidates } (.auditing c groupId row) reply
  | .auditing c groupId row =>
    let audited := ⟨c.candidateId, c.userId, groupId, c.reason⟩ :: s.audited
    match reply with
    | .returned =>
      { s with phase := .idle, audited := audited, responses := row :: s.responses }
    | .failed => { s with phase := .idle }
    | .late => { s with phase := .idle, audited := audited }

/-- One step; a request waits for the one before it. -/
def step (fleet : Fleet) (s : LeaveRun) : Step → Option LeaveRun
  | .request c =>
    match s.phase with
    | .idle => some { s with phase := .reading c }
    | _ => some s
  | .await reply => some (s.await fleet reply)

/-! ## Departures -/

/-- The membership has a departure. -/
def Closed (s : LeaveRun) (m : GroupMembership) : Prop :=
  ∃ x ∈ s.memberships, x.id = m.id ∧ x.leftAt ≠ none

/-- A command to leave the group went out to the collector of the membership. -/
def Told (fleet : Fleet) (s : LeaveRun) (m : GroupMembership) : Prop :=
  ∃ msg ∈ s.published, fleet.subjectOf m.collectorId = some msg.subject ∧
    msg.payload.groupId = m.groupId ∧ msg.commandKind = LeaveGroupCommand.kind

/-- The candidate is parked. -/
def Parked (s : LeaveRun) (id : Uuid) : Prop :=
  ∃ c ∈ s.candidates, c.id = id ∧ c.row.state = .parked

/-- Once a request for a candidate of the group was answered and the candidate is parked, every
membership of the group that was active at the beginning is closed, and its collector was told. -/
def Left (fleet : Fleet) (start : Memberships) (groupId : Uuid) (s : LeaveRun) : Prop :=
  ∀ c ∈ s.responses, c.row.resultingGroupId = some groupId → s.Parked c.id →
    ∀ m ∈ start, m.groupId = groupId ∧ m.leftAt = none → s.Closed m ∧ s.Told fleet m

/-- Between the commit of a departure and the publication of its command nothing fails. -/
def Uninterrupted (s : LeaveRun) : Step → Prop
  | .request _ => True
  | .await reply =>
    match s.phase with
    | .closing _ _ _ _ => reply ≠ .late
    | .telling .collecting _ _ _ _ => reply = .returned
    | .telling (.identifying _) _ _ _ _ => reply = .returned
    | .telling (.publishing _ _) _ _ _ _ => reply ≠ .failed
    | _ => True

instance (s : LeaveRun) (a : Step) : Decidable (s.Uninterrupted a) := by
  unfold Uninterrupted
  repeat' first | infer_instance | split

/-! ### What a request knows -/

variable {fleet : Fleet} {candidates : Table GroupCandidate.id} {start : Memberships}
variable {groupId : Uuid} {s s' : LeaveRun} {phase : LeavePhase}

/-- The candidate of the request leads to the group. -/
def Grouped (s : LeaveRun) (c : LeaveRequest) (groupId : Uuid) : Prop :=
  ∃ candidate, s.candidates.get c.candidateId = some candidate ∧
    candidate.row.resultingGroupId = some groupId

/-- The list has the active memberships of the group, each once. -/
def Remaining (s : LeaveRun) (groupId : Uuid) (todo : List GroupMembership) : Prop :=
  todo.Nodup ∧ ∀ m, m ∈ todo ↔ m ∈ s.memberships ∧ m.groupId = groupId ∧ m.leftAt = none

/-- What was looked up belongs to the membership. -/
def Found (fleet : Fleet) (m : GroupMembership) : TellStage → Prop
  | .collecting => True
  | .identifying collector => fleet.collectors.get m.collectorId = some collector
  | .publishing collector identity => fleet.collectors.get m.collectorId = some collector ∧
      fleet.identities.get collector.identityId = some identity

/-- What holds at each await of a request. -/
def Sound (fleet : Fleet) (s : LeaveRun) : LeavePhase → Prop
  | .idle => True
  | .reading _ => True
  | .listing c groupId => s.Grouped c groupId
  | .closing c groupId m todo => s.Grouped c groupId ∧ s.Remaining groupId (m :: todo)
  | .telling stage c groupId m todo => s.Grouped c groupId ∧ s.Remaining groupId todo ∧
      m.groupId = groupId ∧ Found fleet m stage ∧
      ∀ r ∈ s.responses, r.row.resultingGroupId ≠ some groupId
  | .parking c groupId => s.Grouped c groupId ∧ s.Remaining groupId []
  | .auditing _ groupId row => row.row.resultingGroupId = some groupId ∧ s.Remaining groupId []

/-- The membership that is closed and whose collector is being told. -/
def leaving : LeavePhase → Option GroupMembership
  | .telling _ _ _ m _ => some m
  | _ => none

/-- A membership of the beginning is as it was, or closed; if it is closed, its collector was told
or is being told. A group that was answered for has no active membership. -/
structure Inv (fleet : Fleet) (start : Memberships) (groupId : Uuid) (s : LeaveRun) : Prop where
  told : ∀ m ∈ start, m.groupId = groupId ∧ m.leftAt = none →
    m ∈ s.memberships ∨ s.Closed m ∧ (s.Told fleet m ∨ leaving s.phase = some m)
  sound : s.Sound fleet s.phase
  settled : ∀ r ∈ s.responses, ∀ m ∈ s.memberships, r.row.resultingGroupId = some m.groupId →
    m.leftAt ≠ none

theorem inv_init : Inv fleet start groupId (init candidates start) where
  told _ hm _ := Or.inl hm
  sound := trivial
  settled _ hr := absurd hr List.not_mem_nil

theorem sound_loop {c : LeaveRequest} {todo : List GroupMembership} (hgrouped : s.Grouped c groupId)
    (hremaining : s.Remaining groupId todo) : s.Sound fleet (.loop c groupId todo) := by
  cases todo <;> exact ⟨hgrouped, hremaining⟩

theorem leaving_loop (c : LeaveRequest) (groupId : Uuid) (todo : List GroupMembership) :
    leaving (.loop c groupId todo) = none := by
  cases todo <;> rfl

theorem remaining_listActive : s.Remaining groupId
    (s.memberships.listActiveMemberships none (some groupId)) := by
  refine ⟨Memberships.nodup_listActiveMemberships, fun m => ?_⟩
  rw [Memberships.mem_listActiveMemberships]
  simp [and_comm, eq_comm]

theorem sound_afterRead (c : LeaveRequest) : s.Sound fleet (afterRead s.candidates c) := by
  rw [afterRead]
  split
  · trivial
  · next candidate hcandidate =>
    split
    · trivial
    · next groupId hgroup =>
      split_ifs
      · trivial
      · exact ⟨candidate, hcandidate, hgroup⟩

theorem leaving_afterRead (candidates : Table GroupCandidate.id) (c : LeaveRequest) :
    leaving (afterRead candidates c) = none := by
  rw [afterRead]
  repeat' first | rfl | split

/-! ### One await -/

/-- A request goes on without writing anything. -/
theorem Inv.goto (h : s.Inv fleet start groupId) (hsound : s.Sound fleet phase)
    (hleaving : ∀ m ∈ start, m.groupId = groupId ∧ m.leftAt = none → leaving s.phase = some m →
      leaving phase = some m) :
    Inv fleet start groupId { s with phase := phase } where
  told m hm hactive := by
    rcases h.told m hm hactive with hopen | ⟨hclosed, htold | hnow⟩
    · exact Or.inl hopen
    · exact Or.inr ⟨hclosed, Or.inl htold⟩
    · exact Or.inr ⟨hclosed, Or.inr (hleaving m hm hactive hnow)⟩
  sound := by cases phase <;> exact hsound
  settled := h.settled

/-- A request that is telling no collector goes on, or ends. -/
theorem Inv.move (h : s.Inv fleet start groupId) (hnone : leaving s.phase = none)
    (hsound : s.Sound fleet phase) : Inv fleet start groupId { s with phase := phase } :=
  h.goto hsound fun _ _ _ hm => absurd (hnone.symm.trans hm) (by simp)

theorem Inv.idle (h : s.Inv fleet start groupId) (hnone : leaving s.phase = none) :
    Inv fleet start groupId { s with phase := .idle } := h.move hnone trivial

/-- An await that only reads. -/
theorem Inv.read (h : s.Inv fleet start groupId) (hnone : leaving s.phase = none)
    (hsound : s.Sound fleet phase) (reply : Reply) :
    Inv fleet start groupId (s.settle s phase reply) := by
  cases reply with
  | returned => exact h.move hnone hsound
  | failed => exact h.idle hnone
  | late => exact h.idle hnone

/-- A departure is written, and the request goes on to tell the collector. -/
theorem Inv.close (h : s.Inv fleet start groupId) {c : LeaveRequest} {g : Uuid}
    {m : GroupMembership} {todo : List GroupMembership} {memberships : Memberships}
    (hphase : s.phase = .closing c g m todo)
    (hclose : s.memberships.closeMembership m.collectorId g c.now c.reason = some memberships) :
    Inv fleet start groupId
      { s with memberships := memberships, phase := .telling .collecting c g m todo } := by
  have hsound := h.sound
  rw [hphase] at hsound
  obtain ⟨hgrouped, hnodup, htodo⟩ := hsound
  obtain ⟨hm, hgroup, hactive⟩ := (htodo m).mp List.mem_cons_self
  obtain ⟨m', -, honly, hmem⟩ := Memberships.mem_closeMembership hclose
  -- the row that is closed is the one that was listed
  obtain rfl : m = m' := by
    have hin : m ∈ s.memberships.activeIn m.collectorId g :=
      Memberships.mem_activeIn.mpr ⟨hm, rfl, hgroup, hactive⟩
    rwa [honly, List.mem_singleton] at hin
  exact {
    told := by
      intro x hx hxactive
      by_cases hxm : x = m
      · subst hxm
        exact Or.inr ⟨⟨_, (hmem _).mpr (Or.inl rfl), rfl, by simp⟩, Or.inr rfl⟩
      rcases h.told x hx hxactive with hopen | ⟨⟨y, hy, hyx, hyleft⟩, htold⟩
      · exact Or.inl ((hmem x).mpr (Or.inr ⟨hopen, hxm⟩))
      · have hym : y ≠ m := fun heq => hyleft (heq ▸ hactive)
        refine Or.inr ⟨⟨y, (hmem y).mpr (Or.inr ⟨hy, hym⟩), hyx, hyleft⟩, Or.inl ?_⟩
        rw [hphase] at htold
        exact htold.resolve_right (by simp [leaving])
    sound := by
      refine ⟨hgrouped, ⟨hnodup.of_cons, fun x => ?_⟩, hgroup, trivial, fun r hr heq => ?_⟩
      · have hx := htodo x
        rw [hmem]
        refine ⟨?_, ?_⟩
        · intro hxtodo
          obtain ⟨hxin, hxgroup, hxactive⟩ := hx.mp (List.mem_cons_of_mem m hxtodo)
          refine ⟨Or.inr ⟨hxin, ?_⟩, hxgroup, hxactive⟩
          rintro rfl
          exact (List.nodup_cons.mp hnodup).1 hxtodo
        · rintro ⟨rfl | ⟨hxin, hxm⟩, hxgroup, hxactive⟩
          · cases hxactive
          · exact (List.mem_cons.mp (hx.mpr ⟨hxin, hxgroup, hxactive⟩)).resolve_left hxm
      · exact h.settled r hr m hm (hgroup.symm ▸ heq) hactive
    settled := by
      intro r hr x hx hgroup'
      rcases (hmem x).mp hx with rfl | ⟨hxin, -⟩
      · simp
      · exact h.settled r hr x hxin hgroup' }

/-- The command goes out. -/
theorem Inv.publish (h : s.Inv fleet start groupId) {collector : FleetCollector}
    {identity : IdentityRow} {c : LeaveRequest} {g : Uuid} {m : GroupMembership}
    {todo : List GroupMembership}
    (hphase : s.phase = .telling (.publishing collector identity) c g m todo)
    (hsound : s.Sound fleet phase) :
    Inv fleet start groupId
      { s with published := message c g collector identity :: s.published, phase := phase } := by
  have hold := h.sound
  rw [hphase] at hold
  obtain ⟨-, -, hgroup, ⟨hcollector, hidentity⟩, -⟩ := hold
  exact {
    told := by
      intro x hx hxactive
      rcases h.told x hx hxactive with hopen | ⟨hclosed, ⟨msg, hmsg, hto⟩ | hnow⟩
      · exact Or.inl hopen
      · exact Or.inr ⟨hclosed, Or.inl ⟨msg, List.mem_cons_of_mem _ hmsg, hto⟩⟩
      · rw [hphase] at hnow
        obtain rfl : m = x := Option.some.inj hnow
        refine Or.inr ⟨hclosed, Or.inl ⟨_, List.mem_cons_self, ?_, hgroup.symm, rfl⟩⟩
        simp [Fleet.subjectOf, hcollector, hidentity, message]
    sound := by cases phase <;> exact hsound
    settled := h.settled }

/-- The candidate is moved. -/
theorem Inv.park (h : s.Inv fleet start groupId) {c : LeaveRequest} {g : Uuid}
    {candidates : Table GroupCandidate.id} {row : GroupCandidate}
    (hphase : s.phase = .parking c g)
    (hpark : transitionCandidate s.candidates c.candidateId c.args = some (candidates, row)) :
    Inv fleet start groupId { s with candidates := candidates, phase := .auditing c g row } := by
  have hsound := h.sound
  rw [hphase] at hsound
  obtain ⟨⟨candidate, hcandidate, hgroup⟩, hremaining⟩ := hsound
  have hrow : row.row.resultingGroupId = some g := by
    simp only [transitionCandidate, hcandidate] at hpark
    split at hpark
    · cases hpark
    · obtain ⟨-, rfl⟩ := Prod.mk.inj (Option.some.inj hpark)
      simpa [applyTransition, writtenColumn, LeaveRequest.args] using hgroup
  refine ⟨fun m hm hactive => ?_, ⟨hrow, hremaining⟩, h.settled⟩
  have htold := h.told m hm hactive
  rwa [hphase] at htold

/-- The request is answered. -/
theorem Inv.answer (h : s.Inv fleet start groupId) {c : LeaveRequest} {g : Uuid}
    {row : GroupCandidate} (hphase : s.phase = .auditing c g row) (audited : List GroupLeftEvent) :
    Inv fleet start groupId
      { s with phase := .idle, audited := audited, responses := row :: s.responses } := by
  have hsound := h.sound
  rw [hphase] at hsound
  obtain ⟨hrow, -, hnone⟩ := hsound
  refine ⟨fun m hm hactive => ?_, trivial, ?_⟩
  · have htold := h.told m hm hactive
    rwa [hphase] at htold
  · intro r hr m hm hgroup hactive
    rcases List.mem_cons.mp hr with rfl | hr
    · have hin : m ∈ [] := (hnone m).mpr ⟨hm, Option.some.inj (hgroup.symm.trans hrow), hactive⟩
      exact absurd hin List.not_mem_nil
    · exact h.settled r hr m hm hgroup hactive

/-- While a collector is being told, the request goes on. -/
theorem Inv.tell (h : s.Inv fleet start groupId)
    (hpresent : ∀ m ∈ start, m.groupId = groupId ∧ m.leftAt = none → fleet.Present m.collectorId)
    {stage : TellStage} {c : LeaveRequest} {g : Uuid} {m : GroupMembership}
    {todo : List GroupMembership} (hphase : s.phase = .telling stage c g m todo) {reply : Reply}
    (hcareful : s.Uninterrupted (.await reply)) :
    (s.await fleet reply).Inv fleet start groupId := by
  have hsound := h.sound
  rw [hphase] at hsound
  obtain ⟨hgrouped, hremaining, hgroup, hfound, hunanswered⟩ := hsound
  -- a membership of the beginning is skipped only if its collector or identity is gone
  have hskip (hgone : ¬ fleet.Present m.collectorId) : ∀ x ∈ start,
      x.groupId = groupId ∧ x.leftAt = none → leaving s.phase = some x →
        leaving (.loop c g todo) = some x := by
    intro x hx hactive hnow
    rw [hphase] at hnow
    obtain rfl : m = x := Option.some.inj hnow
    exact absurd (hpresent m hx hactive) hgone
  rw [Uninterrupted, hphase] at hcareful
  rw [await, hphase]
  cases stage with
  | collecting =>
    obtain rfl : reply = .returned := hcareful
    dsimp only
    cases hcollector : fleet.collectors.get m.collectorId with
    | none =>
      refine h.goto (sound_loop hgrouped hremaining) (hskip ?_)
      rintro ⟨collector, hsome, -⟩
      exact absurd (hcollector.symm.trans hsome) (by simp)
    | some collector =>
      refine h.goto ⟨hgrouped, hremaining, hgroup, hcollector, hunanswered⟩ fun x _ _ hnow => ?_
      rwa [hphase] at hnow
  | identifying collector =>
    obtain rfl : reply = .returned := hcareful
    dsimp only
    cases hidentity : fleet.identities.get collector.identityId with
    | none =>
      refine h.goto (sound_loop hgrouped hremaining) (hskip ?_)
      rintro ⟨collector', hcollector, identity, hsome⟩
      obtain rfl : collector = collector' := Option.some.inj (hfound.symm.trans hcollector)
      exact absurd (hidentity.symm.trans hsome) (by simp)
    | some identity =>
      refine h.goto ⟨hgrouped, hremaining, hgroup, ⟨hfound, hidentity⟩, hunanswered⟩
        fun x _ _ hnow => ?_
      rwa [hphase] at hnow
  | publishing collector identity =>
    cases reply with
    | returned => exact h.publish hphase (sound_loop hgrouped hremaining)
    | failed => exact absurd rfl hcareful
    | late => exact h.publish hphase trivial

/-- One await of a run in which nothing is interrupted. -/
theorem Inv.await (h : s.Inv fleet start groupId)
    (hpresent : ∀ m ∈ start, m.groupId = groupId ∧ m.leftAt = none → fleet.Present m.collectorId)
    {reply : Reply} (hcareful : s.Uninterrupted (.await reply)) :
    (s.await fleet reply).Inv fleet start groupId := by
  have hsound := h.sound
  cases hphase : s.phase with
  | idle =>
    rw [LeaveRun.await, hphase]
    exact h
  | reading c =>
    rw [LeaveRun.await, hphase]
    exact h.read (by rw [hphase]; rfl) (sound_afterRead c) reply
  | listing c g =>
    rw [LeaveRun.await, hphase]
    rw [hphase] at hsound
    exact h.read (by rw [hphase]; rfl) (sound_loop hsound remaining_listActive) reply
  | closing c g m todo =>
    rw [Uninterrupted, hphase] at hcareful
    rw [LeaveRun.await, hphase]
    dsimp only
    have hnone : leaving s.phase = none := by rw [hphase]; rfl
    cases hclose : s.memberships.closeMembership m.collectorId g c.now c.reason with
    | none => exact h.idle hnone
    | some memberships =>
      cases reply with
      | returned => exact h.close hphase hclose
      | failed => exact h.idle hnone
      | late => exact absurd rfl hcareful
  | telling stage c g m todo => exact h.tell hpresent hphase hcareful
  | parking c g =>
    rw [LeaveRun.await, hphase]
    dsimp only
    have hnone : leaving s.phase = none := by rw [hphase]; rfl
    cases hpark : transitionCandidate s.candidates c.candidateId c.args with
    | none => exact h.idle hnone
    | some moved =>
      obtain ⟨candidates, row⟩ := moved
      cases reply with
      | returned => exact h.park hphase hpark
      | failed => exact h.idle hnone
      | late => exact (h.park hphase hpark).idle rfl
  | auditing c g row =>
    rw [LeaveRun.await, hphase]
    have hidle := h.idle (by rw [hphase]; rfl)
    cases reply with
    | returned => exact h.answer hphase _
    | failed => exact hidle
    | late => exact ⟨hidle.told, trivial, hidle.settled⟩

theorem Inv.step (h : s.Inv fleet start groupId)
    (hpresent : ∀ m ∈ start, m.groupId = groupId ∧ m.leftAt = none → fleet.Present m.collectorId)
    {a : Step} (hcareful : s.Uninterrupted a) (hstep : s.step fleet a = some s') :
    s'.Inv fleet start groupId := by
  cases a with
  | await reply =>
    obtain rfl := Option.some.inj hstep
    exact h.await hpresent hcareful
  | request c =>
    rw [LeaveRun.step] at hstep
    split at hstep
    · next hphase =>
      obtain rfl := Option.some.inj hstep
      exact h.move (by rw [hphase]; rfl) trivial
    · obtain rfl := Option.some.inj hstep
      exact h

/-! ### Runs -/

/-- An active membership after an await was one before it. -/
theorem active_of_await {reply : Reply} {m : GroupMembership}
    (hm : m ∈ (s.await fleet reply).memberships) (hactive : m.leftAt = none) :
    m ∈ s.memberships := by
  have hread (phase : LeavePhase) (hm : m ∈ (s.settle s phase reply).memberships) :
      m ∈ s.memberships := by
    cases reply <;> exact hm
  cases hphase : s.phase with
  | idle =>
    rw [LeaveRun.await, hphase] at hm
    exact hm
  | reading c =>
    rw [LeaveRun.await, hphase] at hm
    exact hread _ hm
  | listing c g =>
    rw [LeaveRun.await, hphase] at hm
    exact hread _ hm
  | closing c g x todo =>
    rw [LeaveRun.await, hphase] at hm
    dsimp only at hm
    cases hclose : s.memberships.closeMembership x.collectorId g c.now c.reason with
    | none =>
      rw [hclose] at hm
      exact hm
    | some memberships =>
      rw [hclose] at hm
      have hclosed (hm : m ∈ memberships) : m ∈ s.memberships := by
        obtain ⟨x, -, -, hmem⟩ := Memberships.mem_closeMembership hclose
        rcases (hmem m).mp hm with rfl | ⟨hm, -⟩
        · cases hactive
        · exact hm
      cases reply with
      | returned => exact hclosed hm
      | failed => exact hm
      | late => exact hclosed hm
  | telling stage c g x todo =>
    rw [LeaveRun.await, hphase] at hm
    cases stage with
    | publishing collector identity => cases reply <;> exact hm
    | _ => dsimp only at hm; split at hm <;> exact hread _ hm
  | parking c g =>
    rw [LeaveRun.await, hphase] at hm
    dsimp only at hm
    split at hm
    · exact hm
    · cases reply <;> exact hm
  | auditing c g row =>
    rw [LeaveRun.await, hphase] at hm
    cases reply <;> exact hm

theorem active_of_step {a : Step} {m : GroupMembership} (hstep : s.step fleet a = some s')
    (hm : m ∈ s'.memberships) (hactive : m.leftAt = none) : m ∈ s.memberships := by
  cases a with
  | request c =>
    rw [LeaveRun.step] at hstep
    split at hstep <;> obtain rfl := Option.some.inj hstep <;> exact hm
  | await reply =>
    obtain rfl := Option.some.inj hstep
    exact active_of_await hm hactive

/-- Requests to leave open no membership. -/
theorem active_of_run {as : List Step} {m : GroupMembership}
    (hrun : run (step fleet) s as = some s') (hm : m ∈ s'.memberships)
    (hactive : m.leftAt = none) : m ∈ s.memberships :=
  run_preserves (I := fun t => m ∈ t.memberships → m ∈ s.memberships)
    (fun h hstep hin => h (active_of_step hstep hin hactive)) id hrun hm

theorem Inv.left (h : s.Inv fleet start groupId) : s.Left fleet start groupId := by
  intro r hr hgroup _ m hm hactive
  rcases h.told m hm hactive with hopen | ⟨hclosed, htold | hnow⟩
  · exact absurd hactive.2 (h.settled r hr m hopen (hactive.1.symm ▸ hgroup))
  · exact ⟨hclosed, htold⟩
  · have hsound := h.sound
    cases hphase : s.phase with
    | telling stage c g m' todo =>
      rw [hphase] at hnow hsound
      obtain rfl : m' = m := Option.some.inj hnow
      obtain ⟨-, -, hg, -, hunanswered⟩ := hsound
      exact absurd (hgroup.trans (congrArg some (hactive.1.symm.trans hg))) (hunanswered r hr)
    | _ =>
      rw [hphase] at hnow
      cases hnow

/-- **Departures.** In every run of requests in which nothing fails between the commit of a
departure and the publication of its command, a group is left whole: once a request was answered
and its candidate is parked, every membership that was active at the beginning is closed and its
collector was told, whatever else failed on the way. -/
theorem left_of_uninterrupted (fleet : Fleet) (candidates : Table GroupCandidate.id)
    (start : Memberships) (groupId : Uuid)
    (hpresent : ∀ m ∈ start, m.groupId = groupId ∧ m.leftAt = none → fleet.Present m.collectorId)
    (as : List Step)
    (hcareful : Along (step fleet) Uninterrupted (init candidates start) as) :
    Throughout (step fleet) (Left fleet start groupId) (init candidates start) as :=
  throughout_of_along (I := Inv fleet start groupId) Inv.left (fun h hc hs => h.step hpresent hc hs)
    inv_init hcareful

/-! ### A command that was not sent -/

/-- A joined candidate of the group 5, in which the collector 7 is. -/
def monitored : Table GroupCandidate.id :=
  ⟨[⟨1, 2, "-100", ⟨.joined, none, none, none, some 7, some 5⟩⟩], by decide⟩

/-- The membership. -/
def oneMember : Memberships := ⟨[⟨⟨7, 5, 0, .candidate, some 1, none⟩, 9, none⟩], by decide⟩

/-- The collector and its identity. -/
def oneMemberFleet : Fleet where
  collectors := ⟨[⟨7, .telegram, 8, none⟩], by decide⟩
  identities := ⟨[⟨8, "alpha", 2, 0, none, .available, .monitor, none⟩], by decide⟩

/-- A request whose awaits end as given. -/
def leave (replies : List Reply) : List Step :=
  .request ⟨1, "operator_left", 3, 100⟩ :: replies.map .await

theorem oneMember_present :
    ∀ m ∈ oneMember, m.groupId = 5 ∧ m.leftAt = none → oneMemberFleet.Present m.collectorId := by
  intro m hm _
  obtain rfl := List.mem_singleton.mp hm
  exact ⟨_, rfl, _, rfl⟩

/-- The listing of a first request fails, and the bus accepts the command of a second one but does
not confirm it; the third one parks the candidate, and the collector has its command. -/
theorem left_of_uninterrupted_retries :
    Throughout (step oneMemberFleet) (Left oneMemberFleet oneMember 5) (init monitored oneMember)
      (leave [.returned, .failed] ++
        leave [.returned, .returned, .returned, .returned, .returned, .late] ++
        leave [.returned, .returned, .returned, .returned]) :=
  left_of_uninterrupted oneMemberFleet monitored oneMember 5 oneMember_present _
    (by decide)

/-- The publish of a first request fails after its departure was committed. The second one finds
no open membership and parks the candidate; the collector was never told. -/
theorem departure_without_command :
    ∃ s, run (step oneMemberFleet) (init monitored oneMember)
        (leave [.returned, .returned, .returned, .returned, .returned, .failed] ++
          leave [.returned, .returned, .returned, .returned]) = some s ∧
      ¬ s.Left oneMemberFleet oneMember 5 := by
  refine ⟨_, rfl, fun h => ?_⟩
  obtain ⟨-, msg, hmsg, -⟩ := h _ List.mem_cons_self rfl ⟨_, List.mem_cons_self, rfl, rfl⟩ _
    List.mem_cons_self ⟨rfl, rfl⟩
  cases hmsg

end LeaveRun

end Eyenet
