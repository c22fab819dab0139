import Eyenet.Eligibility
import Eyenet.GroupLeave

/-!
# Burned identities and the coverage of groups

A scout that is burned (`services/discovery/scout_graduation.py`) goes out of rotation with its
identity, and a joined candidate is parked; which groups are covered is read off the memberships
of collectors. Joins open memberships (`collectors/telegram/_join.py`,
`api/v1/groups/api_join_group.py`), requests to leave close them, and the hourly tick graduates
the scouts that have held one long enough.

* `DiscoveryTables.Current` — no active membership has outlived its identity, and neither the
  verdicts on collectors nor the graduations rest on one that has.
* `DiscoveryTables.current_iff_careful` — exactly in which runs this is so.
-/

namespace Eyenet

open Machine

namespace DiscoveryTables

variable (s : DiscoveryTables)

/-! ## Joins -/

/-- The membership that a join from a candidate opens. -/
def candidateMembership (newId candidateId collectorId groupId : Uuid) (now : ℤ) :
    GroupMembership :=
  ⟨⟨collectorId, groupId, now, .candidate, some candidateId, none⟩, newId, none⟩

/-- The row of a candidate is replaced. -/
def putCandidate (candidate : GroupCandidate) (row : CandidateRow) : Table GroupCandidate.id :=
  s.candidates.put { candidate with row := row }

/-- `_open_joined_membership` for a group that is upserted. -/
def openJoinedMembership (call : JoinCall) (candidateId collectorId groupId newId : Uuid)
    (now : ℤ) : DiscoveryTables :=
  match s.candidates.get candidateId with
  | none => s
  | some candidate =>
    match claimTransition candidate.row call.fromState .joined (some groupId) none with
    | none => s
    | some row =>
      match s.memberships.openMembership
          (candidateMembership newId candidateId collectorId groupId now) with
      | some memberships =>
        { s with candidates := s.putCandidate candidate row, memberships := memberships }
      | none =>
        -- the claim is taken back, and the group stays
        match claimTransition row .joined call.fromState none none with
        | none => { s with candidates := s.putCandidate candidate row }
        | some row => { s with candidates := s.putCandidate candidate row }

/-- `_FORUM_WALK`, from where `_FORUM_WALK_FROM` says. -/
def forumWalk : CandidateState → Option (List CandidateState)
  | .discovered => some [.queued, .approved, .joining, .joined]
  | .queued => some [.approved, .joining, .joined]
  | .approved => some [.joining, .joined]
  | .joining => some [.joined]
  | _ => none

/-- The arguments of a transition of the walk. -/
def forumWalkArgs (collectorId groupId userId : Uuid) (now : ℤ) (toState : CandidateState) :
    CandidateTransition :=
  match toState with
  | .approved =>
    ⟨.approved, some ("operator:" ++ uuidText userId), some now, none, some collectorId, none⟩
  | .joined => ⟨.joined, none, none, none, none, some groupId⟩
  | toState => ⟨toState, none, none, none, none, none⟩

/-- The candidate is walked through the states; `false` when a transition raises on the way. -/
def walkCandidate (id : Uuid) (args : CandidateState → CandidateTransition) :
    List CandidateState → Table GroupCandidate.id → Table GroupCandidate.id × Bool
  | [], candidates => (candidates, true)
  | toState :: walk, candidates =>
    match transitionCandidate candidates id (args toState) with
    | none => (candidates, false)
    | some (candidates, _) => walkCandidate id args walk candidates

/-- The rest of `_monitor_forum_category`: the membership, unless there is one. -/
def openCategoryMembership (candidateId collectorId groupId newId : Uuid) (now : ℤ) :
    DiscoveryTables :=
  if s.memberships.listActiveMemberships (some collectorId) (some groupId) ≠ [] then s
  else
    match s.memberships.openMembership
        (candidateMembership newId candidateId collectorId groupId now) with
    | none => s
    | some memberships => { s with memberships := memberships }

/-- `_monitor_forum_category` for a group that is upserted, and a collector that is there. -/
def monitorForumCategory (candidateId collectorId groupId newId userId : Uuid) (now : ℤ) :
    DiscoveryTables :=
  match s.candidates.get candidateId, s.collectors.get collectorId with
  | some candidate, some _ =>
    if candidate.row.state = .joined then
      s.openCategoryMembership candidateId collectorId groupId newId now
    else
      match forumWalk candidate.row.state with
      -- `ConflictError`
      | none => s
      | some walk =>
        match walkCandidate candidateId (forumWalkArgs collectorId groupId userId now) walk
            s.candidates with
        | (candidates, false) => { s with candidates := candidates }
        | (candidates, true) =>
          openCategoryMembership { s with candidates := candidates } candidateId collectorId groupId
            newId now
  | _, _ => s

/-! ## Departures -/

/-- The tables that a departure only reads. -/
def fleet : Fleet := ⟨s.collectors, s.identities.identities⟩

/-- A request to leave a group, whose awaits end as given. -/
def groupsLeave (c : LeaveRequest) (replies : List LeaveRun.Reply) : DiscoveryTables :=
  match run (LeaveRun.step s.fleet) (.init s.candidates s.memberships)
      (.request c :: replies.map .await) with
  | none => s
  | some left => { s with candidates := left.candidates, memberships := left.memberships }

/-! ## Burns and graduations -/

/-- `quarantine_scout` -/
def quarantineScout (identityId : Uuid) (reason : String) (candidateId : Option Uuid) :
    DiscoveryTables :=
  match s.identities.burnIdentity identityId with
  | (_, .error _) => s
  | (identities, .ok _) =>
    let burned := { s with identities := identities }
    match candidateId.bind s.candidates.get with
    | none => burned
    | some candidate =>
      if candidate.row.state = .joined then
        match transitionCandidate s.candidates candidate.id
            ⟨.parked, none, none, some reason, none, none⟩ with
        | none => burned
        | some (candidates, _) => { burned with candidates := candidates }
      else burned

/-- The rows that `list_graduating_scouts` joins and selects. -/
def graduatingRows (joinedBefore : ℤ) : List (IdentityRow × FleetCollector × GroupMembership) :=
  s.identities.identities.rows.flatMap fun identity =>
    s.collectors.rows.flatMap fun collector =>
      s.memberships.rows.filterMap fun m =>
        if collector.identityId = identity.id ∧ m.collectorId = collector.id ∧
            identity.role = .scout ∧ m.leftAt = none ∧ m.joinedAt ≤ joinedBefore then
          some (identity, collector, m)
        else none

/-- `list_graduating_scouts` -/
def listGraduatingScouts (joinedBefore : ℤ) : List Uuid :=
  ((s.graduatingRows joinedBefore).map fun r => r.1.id).dedup

/-- `graduate_due` -/
def graduateDue (window now : ℤ) : DiscoveryTables :=
  { s with
    identities := (s.listGraduatingScouts (now - window)).foldl
      (fun identities id => (identities.graduateIdentity id now).1) s.identities }

/-! ## Runs -/

/-- One call, from its start to its end. -/
inductive Step where
  /-- `finalize_joined`, `confirm_requested_membership` -/
  | join (call : JoinCall) (candidateId collectorId groupId newId : Uuid) (now : ℤ)
  /-- `groups_join` of a forum category -/
  | monitor (candidateId collectorId groupId newId userId : Uuid) (now : ℤ)
  | leave (c : LeaveRequest) (replies : List LeaveRun.Reply)
  | burn (identityId : Uuid) (reason : String) (candidateId : Option Uuid)
  | tick (window now : ℤ)

/-- One call. -/
def step : Step → Option DiscoveryTables
  | .join call candidateId collectorId groupId newId now =>
    some (s.openJoinedMembership call candidateId collectorId groupId newId now)
  | .monitor candidateId collectorId groupId newId userId now =>
    some (s.monitorForumCategory candidateId collectorId groupId newId userId now)
  | .leave c replies => some (s.groupsLeave c replies)
  | .burn identityId reason candidateId => some (s.quarantineScout identityId reason candidateId)
  | .tick window now => some (s.graduateDue window now)

/-- A fleet without memberships. -/
def init (identities : IdentityStore) (collectors : Table FleetCollector.id)
    (candidates : Table GroupCandidate.id) (mentions : List ObservedMention)
    (cases : List CaseRow) : DiscoveryTables :=
  ⟨identities, collectors, .empty, candidates, mentions, cases⟩

/-! ## Coverage -/

/-- The identity is there, and it is burned. -/
def BurnedIdentity (identities : IdentityStore) (id : Uuid) : Prop :=
  ∃ identity, identities.getIdentity id = some identity ∧ identity.state = .burned

/-- The collector runs an identity that is burned. -/
def Burned (collectorId : Uuid) : Prop :=
  ∃ collector, s.collectors.get collectorId = some collector ∧
    BurnedIdentity s.identities collector.identityId

/-- No active membership has outlived its identity. A group that only burned collectors are in
does not count as covered, and no scout graduates for a membership that outlived it. -/
structure Current : Prop where
  alive : ∀ m ∈ s.memberships, m.leftAt = none → ¬ s.Burned m.collectorId
  uncovered : ∀ candidateId candidate groupId, s.candidates.get candidateId = some candidate →
    candidate.row.resultingGroupId = some groupId →
    (∀ m ∈ s.memberships, m.groupId = groupId → m.leftAt = none → s.Burned m.collectorId) →
    ∀ collectorId v, s.collectorEligibility candidateId collectorId = some v →
      v.result ≠ .skipDualCover
  observed : ∀ joinedBefore, ∀ r ∈ s.graduatingRows joinedBefore, r.1.state ≠ .burned

/-- The collector is not in the group, and the key is free. -/
def Free (collectorId groupId newId : Uuid) : Prop :=
  s.memberships.activeIn collectorId groupId = [] ∧ s.memberships.get newId = none

/-- No call leaves a burned identity with an active membership: a join that is to be recorded is
not one of a burned collector, and an identity is burned while its collectors are in no group. -/
def Careful : Step → Prop
  | .join call candidateId collectorId groupId newId _ =>
    (∃ candidate, s.candidates.get candidateId = some candidate ∧
      candidate.row.state = call.fromState) →
    s.Free collectorId groupId newId → ¬ s.Burned collectorId
  | .monitor candidateId collectorId groupId newId _ _ =>
    (∃ candidate, s.candidates.get candidateId = some candidate ∧
      (candidate.row.state = .joined ∨ (forumWalk candidate.row.state).isSome)) →
    s.Free collectorId groupId newId → ¬ s.Burned collectorId
  | .leave _ _ => True
  | .burn identityId _ _ => (s.identities.getIdentity identityId).isSome →
    ∀ m ∈ s.memberships, m.leftAt = none → ∀ collector,
      s.collectors.get m.collectorId = some collector → collector.identityId ≠ identityId
  | .tick _ _ => True

variable {s} {s' : DiscoveryTables}

/-- No active membership has outlived its identity. -/
def Alive (s : DiscoveryTables) : Prop :=
  ∀ m ∈ s.memberships, m.leftAt = none → ¬ s.Burned m.collectorId

theorem mem_graduatingRows {joinedBefore : ℤ} {r : IdentityRow × FleetCollector × GroupMembership} :
    r ∈ s.graduatingRows joinedBefore ↔
      r.1 ∈ s.identities.identities ∧ r.2.1 ∈ s.collectors ∧ r.2.2 ∈ s.memberships ∧
        r.2.1.identityId = r.1.id ∧ r.2.2.collectorId = r.2.1.id ∧ r.1.role = .scout ∧
          r.2.2.leftAt = none ∧ r.2.2.joinedAt ≤ joinedBefore := by
  obtain ⟨identity, collector, m⟩ := r
  simp only [graduatingRows, List.mem_flatMap, List.mem_filterMap, Option.ite_none_right_eq_some,
    Option.some.injEq, Prod.mk.injEq]
  refine ⟨?_, ?_⟩
  · rintro ⟨_, hidentity, _, hcollector, _, hm, hrow, rfl, rfl, rfl⟩
    exact ⟨hidentity, hcollector, hm, hrow⟩
  · rintro ⟨hidentity, hcollector, hm, hrow⟩
    exact ⟨identity, hidentity, collector, hcollector, m, hm, hrow, rfl, rfl, rfl⟩

/-- Verdicts and graduations go wrong by memberships alone. -/
theorem Alive.current (h : s.Alive) : s.Current where
  alive := h
  uncovered := by
    intro candidateId candidate groupId hcandidate hgroup hburned collectorId v hv hskip
    obtain ⟨candidate', collector, hcandidate', -, rfl⟩ := collectorEligibility_eq_some.mp hv
    obtain rfl := Option.some.inj (hcandidate.symm.trans hcandidate')
    have hnone : s.coverage candidate = [] := by
      rw [coverage, hgroup]
      refine List.eq_nil_iff_forall_not_mem.mpr fun m hm => ?_
      obtain ⟨hmem, hactive, -, hin⟩ := Memberships.mem_listActiveMemberships.mp hm
      exact h m hmem hactive (hburned m hmem (hin groupId rfl).symm hactive)
    rw [verdict_skip_iff, hnone] at hskip
    simp [dualCoverLimit] at hskip
  observed := by
    intro joinedBefore r hr hburned
    obtain ⟨hidentity, hcollector, hm, hid, hcid, -, hactive, -⟩ := mem_graduatingRows.mp hr
    refine h r.2.2 hm hactive ⟨r.2.1, ?_, r.1, ?_, hburned⟩
    · rw [hcid]
      exact Table.get_self hcollector
    · rw [hid]
      exact IdentityStore.getIdentity_self hidentity

theorem current_iff : s.Current ↔ s.Alive := ⟨Current.alive, Alive.current⟩

/-- Where nothing is burned and nothing opened, no membership outlives its identity. -/
theorem Alive.mono (h : s.Alive) (hburned : ∀ c, s'.Burned c → s.Burned c)
    (hactive : ∀ m ∈ s'.memberships, m.leftAt = none → m ∈ s.memberships) : s'.Alive :=
  fun m hm hm' hb => h m (hactive m hm hm') hm' (hburned _ hb)

/-! ### Joins -/

/-- A membership is opened. -/
theorem alive_open (h : s.Alive) {m : GroupMembership} {memberships : Memberships}
    (hopen : s.memberships.openMembership m = some memberships)
    (candidates : Table GroupCandidate.id) (hactive : m.leftAt = none) :
    Alive { s with candidates := candidates, memberships := memberships } ↔
      ¬ s.Burned m.collectorId := by
  have hmem (x : GroupMembership) := Memberships.mem_openMembership (x := x) hopen
  refine ⟨?_, ?_⟩
  · intro h'
    exact h' m ((hmem m).mpr (Or.inr rfl)) hactive
  · intro hnot x hx hx'
    rcases (hmem x).mp hx with hx | rfl
    · exact h x hx hx'
    · exact hnot

/-- A join is recorded when its candidate can be claimed and its collector is free, and else no
membership is opened. -/
theorem alive_join (h : s.Alive) (call : JoinCall) (candidateId collectorId groupId newId : Uuid)
    (now : ℤ) :
    (s.openJoinedMembership call candidateId collectorId groupId newId now).Alive ↔
      s.Careful (.join call candidateId collectorId groupId newId now) := by
  rw [openJoinedMembership]
  cases hcandidate : s.candidates.get candidateId with
  | none =>
    refine iff_of_true h ?_
    rintro ⟨candidate, hsome, -⟩
    exact absurd (hcandidate.symm.trans hsome) (by simp)
  | some candidate =>
    dsimp only
    by_cases hstate : candidate.row.state = call.fromState
    · rw [claimTransition, if_pos hstate]
      dsimp only
      cases hopen : s.memberships.openMembership
          (candidateMembership newId candidateId collectorId groupId now) with
      | some memberships =>
        refine (alive_open h hopen _ rfl).trans ⟨fun hnot _ _ => hnot, fun hcareful => ?_⟩
        exact hcareful ⟨candidate, hcandidate, hstate⟩ (Memberships.openMembership_eq_some hopen)
      | none =>
        refine iff_of_true ?_ fun _ hfree => ?_
        · dsimp only
          split <;> exact h
        · obtain ⟨t, ht⟩ := Memberships.openMembership_isSome (t := s.memberships)
            (m := candidateMembership newId candidateId collectorId groupId now) hfree.1 hfree.2
          exact absurd (hopen.symm.trans ht) (by simp)
    · rw [claimTransition, if_neg hstate]
      refine iff_of_true h ?_
      rintro ⟨candidate', hsome, hstate'⟩
      obtain rfl := Option.some.inj (hcandidate.symm.trans hsome)
      exact absurd hstate' hstate

/-- A walk whose every transition is in the table ends at its end. -/
theorem walkCandidate_snd {id : Uuid} {args : CandidateState → CandidateTransition}
    (hargs : ∀ toState, (args toState).toState = toState) {walk : List CandidateState}
    {candidates : Table GroupCandidate.id} {candidate : GroupCandidate}
    (hcandidate : candidates.get id = some candidate)
    (hwalk : (candidate.row.state :: walk).IsChain fun a b => b ∈ a.allowed) :
    (walkCandidate id args walk candidates).2 = true := by
  induction walk generalizing candidates candidate with
  | nil => rfl
  | cons toState walk ih =>
    obtain ⟨hallowed, hrest⟩ := List.isChain_cons_cons.mp hwalk
    have hcheck : checkTransition candidate.row (args toState) = .ok () := by
      rw [checkTransition, hargs, if_pos hallowed]
    have hmem := Table.get_eq_some.mp hcandidate
    simp only [walkCandidate, transitionCandidate, hcandidate, hcheck]
    refine ih (Table.get_eq_some.mpr ⟨Table.mem_put_self hmem.1 rfl, hmem.2⟩) ?_
    have hstate : (applyTransition candidate.row (args toState) candidate.row).state =
        (args toState).toState := CandidateRun.applyTransition_state (by rwa [hargs])
    rw [hstate, hargs]
    exact hrest

theorem isChain_forumWalk {state : CandidateState} {walk : List CandidateState}
    (h : forumWalk state = some walk) : (state :: walk).IsChain fun a b => b ∈ a.allowed := by
  cases state <;> cases h <;> simp [CandidateState.allowed]

theorem forumWalkArgs_toState (collectorId groupId userId : Uuid) (now : ℤ)
    (toState : CandidateState) :
    (forumWalkArgs collectorId groupId userId now toState).toState = toState := by
  cases toState <;> rfl

theorem alive_openCategory (h : s.Alive) (candidateId collectorId groupId newId : Uuid) (now : ℤ) :
    (s.openCategoryMembership candidateId collectorId groupId newId now).Alive ↔
      (s.Free collectorId groupId newId → ¬ s.Burned collectorId) := by
  have hnil := Memberships.listActiveMemberships_eq_nil s.memberships collectorId groupId
  rw [openCategoryMembership]
  by_cases hactive : s.memberships.listActiveMemberships (some collectorId) (some groupId) = []
  · rw [if_neg (not_not_intro hactive)]
    cases hopen : s.memberships.openMembership
        (candidateMembership newId candidateId collectorId groupId now) with
    | some memberships =>
      refine (alive_open h hopen s.candidates rfl).trans ⟨fun hnot _ => hnot, fun hcareful => ?_⟩
      exact hcareful (Memberships.openMembership_eq_some hopen)
    | none =>
      refine iff_of_true h fun hfree => ?_
      obtain ⟨t, ht⟩ := Memberships.openMembership_isSome (t := s.memberships)
        (m := candidateMembership newId candidateId collectorId groupId now) hfree.1 hfree.2
      exact absurd (hopen.symm.trans ht) (by simp)
  · rw [if_pos hactive]
    exact iff_of_true h fun hfree => absurd (hnil.mpr hfree.1) hactive

theorem alive_monitor (h : s.Alive) (candidateId collectorId groupId newId userId : Uuid)
    (now : ℤ) : (s.monitorForumCategory candidateId collectorId groupId newId userId now).Alive ↔
      s.Careful (.monitor candidateId collectorId groupId newId userId now) := by
  rw [monitorForumCategory]
  cases hcandidate : s.candidates.get candidateId with
  | none =>
    refine iff_of_true h ?_
    rintro ⟨candidate, hsome, -⟩
    exact absurd (hcandidate.symm.trans hsome) (by simp)
  | some candidate =>
    cases hcollector : s.collectors.get collectorId with
    | none =>
      refine iff_of_true h ?_
      rintro - - ⟨collector, hsome, -⟩
      exact absurd (hcollector.symm.trans hsome) (by simp)
    | some collector =>
      dsimp only
      have hcareful : s.Careful (.monitor candidateId collectorId groupId newId userId now) ↔
          (candidate.row.state = .joined ∨ (forumWalk candidate.row.state).isSome →
            s.Free collectorId groupId newId → ¬ s.Burned collectorId) := by
        simp [Careful, hcandidate]
      rw [hcareful]
      by_cases hjoined : candidate.row.state = .joined
      · rw [if_pos hjoined, alive_openCategory h, imp_iff_right (Or.inl hjoined)]
      rw [if_neg hjoined, or_iff_right hjoined]
      cases hwalk : forumWalk candidate.row.state with
      | none => exact iff_of_true h fun hsome => absurd hsome (by simp)
      | some walk =>
        dsimp only
        have hend := walkCandidate_snd (forumWalkArgs_toState collectorId groupId userId now)
          hcandidate (isChain_forumWalk hwalk)
        -- what the walk leaves of the candidates does not matter to memberships
        rcases hlast : walkCandidate candidateId (forumWalkArgs collectorId groupId userId now) walk
          s.candidates with ⟨candidates, ended⟩
        rw [hlast] at hend
        obtain rfl : ended = true := hend
        exact (alive_openCategory (s := { s with candidates := candidates }) h candidateId
          collectorId groupId newId now).trans (imp_iff_right rfl).symm

/-! ### Departures, burns and graduations -/

theorem alive_leave (h : s.Alive) (c : LeaveRequest) (replies : List LeaveRun.Reply) :
    (s.groupsLeave c replies).Alive := by
  rw [groupsLeave]
  split
  · exact h
  · next left hrun =>
    exact h.mono (fun _ hb => hb) fun m hm hactive => LeaveRun.active_of_run hrun hm hactive

/-- A burn changes neither collectors nor memberships. -/
theorem quarantineScout_tables (identityId : Uuid) (reason : String) (candidateId : Option Uuid) :
    (s.quarantineScout identityId reason candidateId).identities =
        (s.identities.burnIdentity identityId).1 ∧
      (s.quarantineScout identityId reason candidateId).collectors = s.collectors ∧
      (s.quarantineScout identityId reason candidateId).memberships = s.memberships := by
  rw [quarantineScout, IdentityStore.burnIdentity]
  cases s.identities.getIdentity identityId with
  | none => exact ⟨rfl, rfl, rfl⟩
  | some row =>
    dsimp only
    repeat' first | exact ⟨rfl, rfl, rfl⟩ | split

theorem burnedIdentity_writeTarget {identities : IdentityStore} {a : IdentityStore.Step}
    {id : Uuid} : BurnedIdentity (identities.writeTarget a) id ↔
      ∃ row, identities.getIdentity id = some row ∧
        (if identities.target a = some row then a.update row else row).state = .burned := by
  refine ⟨?_, ?_⟩
  · rintro ⟨row', hrow', hburned⟩
    obtain ⟨row, hrow, rfl⟩ := IdentityStore.exists_of_get_writeTarget hrow'
    exact ⟨row, hrow, hburned⟩
  · rintro ⟨row, hrow, hburned⟩
    exact ⟨_, IdentityStore.get_writeTarget hrow, hburned⟩

/-- The burned identities after a burn. -/
theorem burnedIdentity_burn {identities : IdentityStore} {identityId id : Uuid} :
    BurnedIdentity (identities.burnIdentity identityId).1 id ↔
      (identities.getIdentity identityId).isSome ∧ id = identityId ∨
        BurnedIdentity identities id := by
  have htarget (row : IdentityRow) : identities.target (.burn identityId) = some row ↔
      identities.getIdentity identityId = some row := Iff.rfl
  rw [IdentityStore.burnIdentity_fst, burnedIdentity_writeTarget]
  refine ⟨?_, ?_⟩
  · rintro ⟨row, hrow, hburned⟩
    split_ifs at hburned with hsame
    · rw [htarget] at hsame
      refine Or.inl ⟨hsame ▸ rfl, ?_⟩
      exact (IdentityStore.getIdentity_eq_some.mp hrow).2.symm.trans
        (IdentityStore.getIdentity_eq_some.mp hsame).2
    · exact Or.inr ⟨row, hrow, hburned⟩
  · rintro (⟨hsome, rfl⟩ | ⟨row, hrow, hburned⟩)
    · obtain ⟨row, hrow⟩ := Option.isSome_iff_exists.mp hsome
      refine ⟨row, hrow, ?_⟩
      rw [if_pos ((htarget row).mpr hrow)]
      rfl
    · refine ⟨row, hrow, ?_⟩
      split_ifs
      · rfl
      · exact hburned

theorem burnedIdentity_graduate {identities : IdentityStore} {identityId id : Uuid} {now : ℤ} :
    BurnedIdentity (identities.graduateIdentity identityId now).1 id ↔
      BurnedIdentity identities id := by
  rw [IdentityStore.graduateIdentity_fst, burnedIdentity_writeTarget]
  refine exists_congr fun row => and_congr_right fun _ => ?_
  split_ifs <;> rfl

/-- A graduation burns nothing. -/
theorem burnedIdentity_graduateAll {identities : IdentityStore} {ids : List Uuid} {id : Uuid}
    {now : ℤ} : BurnedIdentity
        (ids.foldl (fun identities id => (identities.graduateIdentity id now).1) identities) id ↔
      BurnedIdentity identities id := by
  induction ids generalizing identities with
  | nil => exact Iff.rfl
  | cons x ids ih => rw [List.foldl_cons, ih, burnedIdentity_graduate]

/-- An identity is burned while its collectors are in no group, or a membership outlives it. -/
theorem alive_burn (h : s.Alive) (identityId : Uuid) (reason : String)
    (candidateId : Option Uuid) : (s.quarantineScout identityId reason candidateId).Alive ↔
      s.Careful (.burn identityId reason candidateId) := by
  obtain ⟨hidentities, hcollectors, hmemberships⟩ :=
    quarantineScout_tables (s := s) identityId reason candidateId
  simp only [Alive, Burned, hidentities, hcollectors, hmemberships, burnedIdentity_burn]
  refine ⟨?_, ?_⟩
  · intro h' hsome m hm hactive collector hcollector hid
    exact h' m hm hactive ⟨collector, hcollector, Or.inl ⟨hsome, hid⟩⟩
  · rintro hcareful m hm hactive ⟨collector, hcollector, ⟨hsome, hid⟩ | hburned⟩
    · exact hcareful hsome m hm hactive collector hcollector hid
    · exact h m hm hactive ⟨collector, hcollector, hburned⟩

theorem alive_tick (h : s.Alive) (window now : ℤ) : (s.graduateDue window now).Alive := by
  refine h.mono ?_ fun m hm _ => hm
  rintro c ⟨collector, hcollector, hburned⟩
  exact ⟨collector, hcollector, burnedIdentity_graduateAll.mp hburned⟩

/-! ### Runs -/

/-- One call keeps memberships from outliving their identities exactly when it is careful. -/
theorem alive_step_iff (h : s.Alive) {a : Step} (hstep : s.step a = some s') :
    s'.Alive ↔ s.Careful a := by
  cases a with
  | join call candidateId collectorId groupId newId now =>
    obtain rfl := Option.some.inj hstep
    exact alive_join h call candidateId collectorId groupId newId now
  | monitor candidateId collectorId groupId newId userId now =>
    obtain rfl := Option.some.inj hstep
    exact alive_monitor h candidateId collectorId groupId newId userId now
  | leave c replies =>
    obtain rfl := Option.some.inj hstep
    exact iff_of_true (alive_leave h c replies) trivial
  | burn identityId reason candidateId =>
    obtain rfl := Option.some.inj hstep
    exact alive_burn h identityId reason candidateId
  | tick window now =>
    obtain rfl := Option.some.inj hstep
    exact iff_of_true (alive_tick h window now) trivial

/-- **Coverage.** Over every sequence of joins, departures, burns and graduations no membership
outlives its identity, and no verdict or graduation rests on one that does, exactly when every
burned identity's collectors are in no group at the time, and no join is recorded for a collector
whose identity is burned. -/
theorem current_iff_careful (identities : IdentityStore) (collectors : Table FleetCollector.id)
    (candidates : Table GroupCandidate.id) (mentions : List ObservedMention)
    (cases : List CaseRow) (as : List Step) :
    Throughout step Current (init identities collectors candidates mentions cases) as ↔
      Along step Careful (init identities collectors candidates mentions cases) as := by
  have htotal (s : DiscoveryTables) (a : Step) : ∃ s', s.step a = some s' := by
    cases a <;> exact ⟨_, rfl⟩
  obtain ⟨s, hs⟩ := exists_run htotal (init identities collectors candidates mentions cases) as
  exact throughout_iff_along (I := Alive) Alive.current
    (fun h hcareful hstep => (alive_step_iff h hstep).mpr hcareful)
    (fun h hstep hcurrent => (alive_step_iff h hstep).mp hcurrent.alive)
    (fun _ hm => absurd hm (Table.not_mem_empty _)) hs

/-! ### A ban that leaves its coverage -/

/-- The scout 8 of the source 2. -/
def oneScoutStore : IdentityStore where
  sources := ⟨[⟨2, .telegram, "telegram:scout"⟩], by decide⟩
  identities := ⟨[⟨8, "scout", 2, 0, none, .inUse, .scout, none⟩], by decide⟩

/-- The collectors 7, of the scout, and 9. -/
def twoCollectors : Table FleetCollector.id :=
  ⟨[⟨7, .telegram, 8, none⟩, ⟨9, .telegram, 10, none⟩], by decide⟩

/-- The candidate 1, which the collector 7 is joining. -/
def oneJoining : Table GroupCandidate.id :=
  ⟨[⟨1, 2, "-100", ⟨.joining, none, none, none, some 7, none⟩⟩], by decide⟩

/-- A scout joins the group 5 and is banned. Its membership stays active, and the group counts as
covered for the other collector. -/
theorem coverage_outlives_ban :
    ∃ s, run step (init oneScoutStore twoCollectors oneJoining [] [])
        [.join .finalizeJoined 1 7 5 11 0, .burn 8 "banned" (some 1)] = some s ∧
      (∃ m ∈ s.memberships, m.leftAt = none ∧ s.Burned m.collectorId) ∧
      (s.collectorEligibility 1 9).map (·.result) = some .skipDualCover ∧ ¬ s.Current := by
  refine ⟨_, rfl, ?_, by decide, fun h => ?_⟩
  · exact ⟨_, List.mem_cons_self, rfl, _, rfl, _, rfl, rfl⟩
  · exact h.alive _ List.mem_cons_self rfl ⟨_, rfl, _, rfl, rfl⟩

end DiscoveryTables

end Eyenet
