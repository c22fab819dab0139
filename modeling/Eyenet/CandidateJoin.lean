import Eyenet.Candidate

/-!
# Joining a candidate

A confirmed join is recorded by `finalize_joined` or `confirm_requested_membership`
(`collectors/telegram/_join.py`). Both upsert the group, claim the candidate by a compare-and-swap,
open the membership and emit an audit event, each in a transaction of its own; when the membership
cannot be opened they claim the candidate back. Any number of such calls run on one candidate.

* `JoinRun.run_one` — whatever fails, at most one call opens a membership, and the candidate is
  joined exactly when it stands.
* `JoinRun.sound_iff_restored` — exactly when a failed call also leaves the candidate's row, and
  with it the lineage of groups, as it was.
-/

namespace Eyenet

open Machine

/-! ## Rows -/

/-- `GroupKind` -/
inductive GroupKind where
  | chat
  | channel
  | dm
  | forumCategory
  | forumThread
  | ircChannel
  | matrixRoom
  deriving DecidableEq, Repr

/-- `JoinedVia` -/
inductive JoinedVia where
  | seed
  | candidate
  | manual
  | restored
  deriving DecidableEq, Repr

/-- The columns of a group that the upsert reads or writes. -/
structure GroupRow where
  id : Uuid
  sourceId : Uuid
  platformGroupid : String
  kind : GroupKind
  currentTitle : Option String
  lastObservedAtIngest : ℤ
  deriving DecidableEq

/-- A row of `collector_group_membership`. -/
structure MembershipRow where
  collectorId : Uuid
  groupId : Uuid
  joinedAt : ℤ
  joinedVia : JoinedVia
  joinedViaCandidateId : Option Uuid
  leftAt : Option ℤ
  deriving DecidableEq

/-- What of a candidate does not change while it is joined. -/
structure CandidateGroup where
  id : Uuid
  sourceId : Uuid
  platformGroupid : String
  kindHint : Option GroupKind
  displayNameHint : Option String
  deriving DecidableEq

/-- A mention of a candidate, with the lineage that it carries. -/
structure CandidateMention where
  candidateId : Uuid
  seedRootId : Option Uuid
  depthFromRoot : ℤ
  deriving DecidableEq

/-! ## The repository -/

/-- `upsert_group`; a new group gets the given id, and `none` is an id that is taken. -/
def upsertGroup (groups : List GroupRow) (newId sourceId : Uuid) (platformGroupid : String)
    (kind : GroupKind) (title : Option String) (seenAt : ℤ) : Option (List GroupRow × Uuid) :=
  match groups.find? fun g => g.sourceId = sourceId ∧ g.platformGroupid = platformGroupid with
  | some group =>
    -- an empty title does not replace the current one
    let title := (title.filter (· ≠ "")).or group.currentTitle
    let group := { group with
      currentTitle := title
      lastObservedAtIngest := max group.lastObservedAtIngest seenAt }
    some (groups.map fun g => if g.id = group.id then group else g, group.id)
  | none =>
    if newId ∈ groups.map GroupRow.id then none
    else some (groups ++ [⟨newId, sourceId, platformGroupid, kind, title, seenAt⟩], newId)

/-- `open_membership`; `none` is the `ValueError` for a collector that is in the group. -/
def openMembership (memberships : List MembershipRow) (m : MembershipRow) :
    Option (List MembershipRow) :=
  if ∃ x ∈ memberships,
      x.collectorId = m.collectorId ∧ x.groupId = m.groupId ∧ x.leftAt = none then none
  else some (memberships ++ [m])

/-- The candidate that `group_lineage` takes a group for. -/
def lineageCandidate (candidates : List (Uuid × CandidateRow)) (groupId : Uuid) :
    Option (Uuid × CandidateRow) :=
  candidates.find? fun c => c.2.resultingGroupId = some groupId

/-- The first mention of the least depth. -/
def shallowest : List CandidateMention → Option CandidateMention
  | [] => none
  | m :: mentions =>
    match shallowest mentions with
    | none => some m
    | some best => if best.depthFromRoot < m.depthFromRoot then some best else some m

/-- `group_lineage` -/
def groupLineage (seedRootGroupIds : List (List String)) (candidates : List (Uuid × CandidateRow))
    (mentions : List CandidateMention) (groupId : Uuid) : Option Uuid × ℤ :=
  if ∃ roots ∈ seedRootGroupIds, uuidText groupId ∈ roots then (some groupId, 0)
  else
    match lineageCandidate candidates groupId with
    | none => (none, 0)
    | some (id, _) =>
      match shallowest (mentions.filter fun m => m.candidateId = id ∧ m.seedRootId.isSome) with
      | none => (none, 0)
      | some best => (best.seedRootId, best.depthFromRoot)

/-! ## Calls -/

/-- The two calls that record a join. -/
inductive JoinCall where
  | finalizeJoined
  | confirmRequestedMembership
  deriving DecidableEq

/-- The state from which the call claims the candidate. -/
def JoinCall.fromState : JoinCall → CandidateState
  | finalizeJoined => .joining
  | confirmRequestedMembership => .requested

theorem JoinCall.fromState_ne_joined (c : JoinCall) : c.fromState ≠ .joined := by
  cases c <;> decide

/-- The arguments of `_open_joined_membership`. -/
structure JoinArgs where
  call : JoinCall
  sourceId : Uuid
  collectorId : Uuid
  platformGroupid : String
  kind : GroupKind
  title : Option String
  now : ℤ
  deriving DecidableEq

/-- Where a call stands. -/
inductive JoinPhase where
  | upserting (args : JoinArgs)
  | claiming (args : JoinArgs) (groupId : Uuid)
  /-- its claim stands; `before` is the row that it replaced -/
  | opening (args : JoinArgs) (groupId : Uuid) (before : CandidateRow)
  /-- the membership could not be opened, and the claim is to be taken back -/
  | compensating (args : JoinArgs) (groupId : Uuid) (before : CandidateRow)
  | auditing (groupId : Uuid)
  /-- it returned the group, or that it did nothing -/
  | returned (groupId : Option Uuid)
  | raised
  deriving DecidableEq

namespace JoinPhase

/-- The call is between its first and its last step. -/
def inProgress : JoinPhase → Bool
  | returned _ => false
  | raised => false
  | _ => true

/-- The call has claimed the candidate and is still to open its membership, or to give up. -/
def pending : JoinPhase → Bool
  | opening .. => true
  | compensating .. => true
  | _ => false

/-- The row that the claim of the call replaced. -/
def before : JoinPhase → Option CandidateRow
  | opening _ _ row => some row
  | compensating _ _ row => some row
  | _ => none

theorem inProgress_of_pending {p : JoinPhase} (h : p.pending = true) : p.inProgress = true := by
  cases p <;> first | rfl | cases h

end JoinPhase

/-- The candidate, the groups, the memberships and the calls. The last three fields record whose
claim stands, which memberships the calls opened, and the rows before and after the claims that
were taken back. -/
structure JoinRun where
  candidate : CandidateGroup
  row : CandidateRow
  groups : List GroupRow
  memberships : List MembershipRow
  calls : Calls JoinPhase
  winner : Option ℕ
  opened : List (ℕ × MembershipRow)
  rolledBack : List (CandidateRow × CandidateRow)

namespace JoinRun

/-- One step of one call. -/
inductive Step where
  /-- `finalize_joined` starts -/
  | finalize (call : ℕ) (sourceId collectorId : Uuid) (platformGroupid : String) (kind : GroupKind)
      (title : Option String) (now : ℤ)
  /-- `confirm_requested_membership` starts, with `get_candidate` -/
  | confirm (call : ℕ) (kind : Option GroupKind) (title : Option String)
      (resolvedPlatformGroupid : Option String) (now : ℤ)
  | upsert (call : ℕ) (newId : Uuid)
  | claim (call : ℕ)
  | openMembership (call : ℕ)
  /-- the insert of the membership raises -/
  | openFails (call : ℕ)
  | rollback (call : ℕ)
  | audit (call : ℕ)
  /-- the upsert or the audit event raises -/
  | fail (call : ℕ)

/-- A candidate before any of the calls. -/
def init (candidate : CandidateGroup) (row : CandidateRow) (groups : List GroupRow)
    (memberships : List MembershipRow) : JoinRun :=
  ⟨candidate, row, groups, memberships, [], none, [], []⟩

/-- The group context that `confirm_requested_membership` reads off the candidate. -/
def confirmArgs (candidate : CandidateGroup) (collectorId : Uuid) (kind : Option GroupKind)
    (title resolvedPlatformGroupid : Option String) (now : ℤ) : JoinArgs where
  call := .confirmRequestedMembership
  sourceId := candidate.sourceId
  collectorId := collectorId
  platformGroupid := resolvedPlatformGroupid.getD candidate.platformGroupid
  kind := kind.getD (candidate.kindHint.getD .channel)
  title := title.or candidate.displayNameHint
  now := now

/-- The membership that a call opens. -/
def membership (candidate : CandidateGroup) (args : JoinArgs) (groupId : Uuid) : MembershipRow :=
  ⟨args.collectorId, groupId, args.now, .candidate, some candidate.id, none⟩

/-- One step of one call; a label that does not fit changes nothing. -/
def step (s : JoinRun) : Step → Option JoinRun
  | .finalize call sourceId collectorId platformGroupid kind title now =>
    match s.calls.phase call with
    | some _ => some s
    | none => some { s with calls := s.calls.put call (.upserting
        ⟨.finalizeJoined, sourceId, collectorId, platformGroupid, kind, title, now⟩) }
  | .confirm call kind title resolvedPlatformGroupid now =>
    match s.calls.phase call with
    | some _ => some s
    | none =>
      if s.row.state ≠ .requested then some { s with calls := s.calls.put call (.returned none) }
      else
        match s.row.assignedCollectorId with
        | none => some { s with calls := s.calls.put call .raised }
        | some collectorId => some { s with calls := s.calls.put call (.upserting
            (confirmArgs s.candidate collectorId kind title resolvedPlatformGroupid now)) }
  | .upsert call newId =>
    match s.calls.phase call with
    | some (.upserting args) =>
      match upsertGroup s.groups newId args.sourceId args.platformGroupid args.kind args.title
          args.now with
      | none => some s
      | some (groups, groupId) =>
        some { s with groups := groups, calls := s.calls.put call (.claiming args groupId) }
    | _ => some s
  | .claim call =>
    match s.calls.phase call with
    | some (.claiming args groupId) =>
      match claimTransition s.row args.call.fromState .joined (some groupId) none with
      | none => some { s with calls := s.calls.put call (.returned none) }
      | some row =>
        some { s with
          row := row
          calls := s.calls.put call (.opening args groupId s.row)
          winner := some call }
    | _ => some s
  | .openMembership call =>
    match s.calls.phase call with
    | some (.opening args groupId before) =>
      let m := membership s.candidate args groupId
      match Eyenet.openMembership s.memberships m with
      | none => some { s with calls := s.calls.put call (.compensating args groupId before) }
      | some memberships =>
        some { s with
          memberships := memberships
          calls := s.calls.put call (.auditing groupId)
          opened := s.opened ++ [(call, m)] }
    | _ => some s
  | .openFails call =>
    match s.calls.phase call with
    | some (.opening args groupId before) =>
      some { s with calls := s.calls.put call (.compensating args groupId before) }
    | _ => some s
  | .rollback call =>
    match s.calls.phase call with
    | some (.compensating args _ before) =>
      -- the group id is passed as `None`, which leaves the column alone
      match claimTransition s.row .joined args.call.fromState none none with
      | none => some { s with calls := s.calls.put call .raised }
      | some row =>
        some { s with
          row := row
          calls := s.calls.put call .raised
          winner := none
          rolledBack := (before, row) :: s.rolledBack }
    | _ => some s
  | .audit call =>
    match s.calls.phase call with
    | some (.auditing groupId) =>
      some { s with calls := s.calls.put call (.returned (some groupId)) }
    | _ => some s
  | .fail call =>
    match s.calls.phase call with
    | some (.upserting _) => some { s with calls := s.calls.put call .raised }
    | some (.auditing _) => some { s with calls := s.calls.put call .raised }
    | _ => some s

/-! ## One winner -/

variable {row : CandidateRow} {memberships : List MembershipRow}
variable {s s' : JoinRun} {a : Step} {call : ℕ}

/-- What a call in its phase says about the candidate. -/
def Holds (s : JoinRun) (call : ℕ) : JoinPhase → Prop
  | .upserting _ | .claiming _ _ => s.winner ≠ some call
  | .opening args groupId before | .compensating args groupId before =>
    s.winner = some call ∧ s.opened = [] ∧ before.state = args.call.fromState ∧
      s.row = { before with state := .joined, resultingGroupId := some groupId }
  | .auditing groupId | .returned (some groupId) =>
    s.winner = some call ∧ ∃ m, s.opened = [(call, m)] ∧ m.groupId = groupId
  | .returned none | .raised => True

/-- What holds whatever fails. -/
structure Inv (row : CandidateRow) (memberships : List MembershipRow) (s : JoinRun) : Prop where
  joined : s.row.state = .joined ↔ row.state = .joined ∨ s.winner.isSome
  fresh : row.state = .joined → s.winner = none
  phases : ∀ call p, s.calls.phase call = some p → s.Holds call p
  /-- the claim that stands is one whose call is about to open its membership, or has opened it -/
  winner : ∀ call, s.winner = some call →
    ∃ p, s.calls.phase call = some p ∧ (p.pending = true ∨ ∃ m, s.opened = [(call, m)])
  /-- an open membership is that of the winner -/
  opened : s.opened = [] ∨ ∃ call m, s.opened = [(call, m)] ∧ s.winner = some call ∧
    m.joinedViaCandidateId = some s.candidate.id
  memberships : s.memberships = memberships ++ s.opened.map Prod.snd

theorem inv_init (candidate : CandidateGroup) (row : CandidateRow) (groups : List GroupRow)
    (memberships : List MembershipRow) :
    Inv row memberships (init candidate row groups memberships) where
  joined := by simp [init]
  fresh _ := rfl
  phases _ _ hp := by cases hp
  winner _ hw := by cases hw
  opened := Or.inl rfl
  memberships := by simp [init]

/-- A claim wins only an unclaimed candidate. -/
theorem Inv.unclaimed (h : s.Inv row memberships) (hstate : s.row.state ≠ .joined) :
    row.state ≠ .joined ∧ s.winner = none ∧ s.opened = [] := by
  rw [ne_eq, h.joined, not_or, Option.not_isSome_iff_eq_none] at hstate
  refine ⟨hstate.1, hstate.2, ?_⟩
  rcases h.opened with hopened | ⟨c, m, -, hwinner, -⟩
  · exact hopened
  · rw [hstate.2] at hwinner
    cases hwinner

theorem claimTransition_eq_some {current row : CandidateRow} {fromState toState : CandidateState}
    {groupId : Option Uuid} {reviewedAt : Option ℤ}
    (h : claimTransition current fromState toState groupId reviewedAt = some row) :
    current.state = fromState ∧ row = { current with
      state := toState
      resultingGroupId := groupId.or current.resultingGroupId
      reviewedAt := reviewedAt.or current.reviewedAt } := by
  rw [claimTransition] at h
  split_ifs at h with hstate
  exact ⟨hstate, (Option.some.inj h).symm⟩

/-- A call moves on without touching the candidate. -/
theorem Inv.put (h : s.Inv row memberships) {p : JoinPhase} (hp : s.Holds call p)
    (hwinner : s.winner = some call → p.pending = true ∨ ∃ m, s.opened = [(call, m)]) :
    Inv row memberships { s with calls := s.calls.put call p } where
  joined := h.joined
  fresh := h.fresh
  phases c q hq := by
    change (s.calls.put call p).phase c = some q at hq
    rw [Calls.phase_put] at hq
    split_ifs at hq with hc
    · obtain rfl := Option.some.inj hq
      rw [hc]
      exact hp
    · exact h.phases c q hq
  winner c hwin := by
    by_cases hc : c = call
    · subst hc
      exact ⟨p, Calls.phase_put_self, hwinner hwin⟩
    · obtain ⟨q, hq, hrest⟩ := h.winner c hwin
      exact ⟨q, (Calls.phase_put_of_ne hc).trans hq, hrest⟩
  opened := h.opened
  memberships := h.memberships

/-- A call that has not started is not the winner. -/
theorem Inv.winner_ne (h : s.Inv row memberships) (hphase : s.calls.phase call = none) :
    s.winner ≠ some call := by
  intro hwinner
  obtain ⟨p, hp, -⟩ := h.winner call hwinner
  rw [hphase] at hp
  cases hp

/-- What another call says does not depend on a call that is not the winner's. -/
theorem Holds.of_winner_ne {c : ℕ} {p : JoinPhase} (hp : s.Holds c p) (hc : s.winner ≠ some c)
    (hc' : s'.winner ≠ some c) : s'.Holds c p := by
  cases p with
  | upserting args => exact hc'
  | claiming args groupId => exact hc'
  | opening args groupId before => exact absurd hp.1 hc
  | compensating args groupId before => exact absurd hp.1 hc
  | auditing groupId => exact absurd hp.1 hc
  | returned groupId =>
    cases groupId with
    | none => trivial
    | some groupId => exact absurd hp.1 hc
  | raised => trivial

/-- A claim that wins. -/
theorem Inv.claim (h : s.Inv row memberships) {args : JoinArgs} {groupId : Uuid}
    {row' : CandidateRow} (hclaim : claimTransition s.row args.call.fromState .joined
      (some groupId) none = some row') :
    Inv row memberships { s with
      row := row'
      calls := s.calls.put call (.opening args groupId s.row)
      winner := some call } := by
  obtain ⟨hstate, rfl⟩ := claimTransition_eq_some hclaim
  have hne : s.row.state ≠ .joined := hstate ▸ args.call.fromState_ne_joined
  obtain ⟨hrow, hnone, hopened⟩ := h.unclaimed hne
  refine ⟨⟨fun _ => Or.inr rfl, fun _ => rfl⟩, fun hjoined => absurd hjoined hrow,
    fun c p hp => ?_, fun c hc => ?_, Or.inl hopened, h.memberships⟩
  · change (s.calls.put call _).phase c = some p at hp
    rw [Calls.phase_put] at hp
    split_ifs at hp with hc
    · obtain rfl := Option.some.inj hp
      exact ⟨by rw [hc], hopened, hstate, rfl⟩
    · refine (h.phases c p hp).of_winner_ne (by simp [hnone]) ?_
      exact fun hwinner => hc (Option.some.inj hwinner).symm
  · obtain rfl := Option.some.inj hc
    exact ⟨_, Calls.phase_put_self, Or.inl rfl⟩

/-- The winner opens its membership. -/
theorem Inv.openMembership (h : s.Inv row memberships) {args : JoinArgs} {groupId : Uuid}
    {before : CandidateRow} {opened : List MembershipRow}
    (hphase : s.calls.phase call = some (.opening args groupId before))
    (hopen : Eyenet.openMembership s.memberships (membership s.candidate args groupId) =
      some opened) :
    Inv row memberships { s with
      memberships := opened
      calls := s.calls.put call (.auditing groupId)
      opened := s.opened ++ [(call, membership s.candidate args groupId)] } := by
  obtain ⟨hwinner, hnone, -, -⟩ := h.phases call _ hphase
  rw [Eyenet.openMembership] at hopen
  split_ifs at hopen
  obtain rfl := Option.some.inj hopen
  have hopened : s.opened ++ [(call, membership s.candidate args groupId)] =
      [(call, membership s.candidate args groupId)] := by rw [hnone, List.nil_append]
  refine ⟨h.joined, h.fresh, fun c p hp => ?_, fun c hc => ?_,
    Or.inr ⟨call, _, hopened, hwinner, rfl⟩, ?_⟩
  · change (s.calls.put call _).phase c = some p at hp
    rw [Calls.phase_put] at hp
    split_ifs at hp with hc
    · obtain rfl := Option.some.inj hp
      subst hc
      exact ⟨hwinner, _, hopened, rfl⟩
    · have hne : s.winner ≠ some c := fun h' => hc (Option.some.inj (h'.symm.trans hwinner))
      exact (h.phases c p hp).of_winner_ne hne hne
  · obtain rfl : c = call := Option.some.inj (hc.symm.trans hwinner)
    exact ⟨_, Calls.phase_put_self, Or.inr ⟨_, hopened⟩⟩
  · dsimp only
    rw [h.memberships, List.map_append, List.append_assoc]
    rfl

/-- The winner's claim is taken back. -/
theorem Inv.rollback (h : s.Inv row memberships) {args : JoinArgs} {groupId : Uuid}
    {before row' : CandidateRow} {rolledBack : List (CandidateRow × CandidateRow)}
    (hphase : s.calls.phase call = some (.compensating args groupId before))
    (hclaim : claimTransition s.row .joined args.call.fromState none none = some row') :
    Inv row memberships { s with
      row := row'
      calls := s.calls.put call .raised
      winner := none
      rolledBack := rolledBack } := by
  obtain ⟨hwinner, hnone, hbefore, hrow⟩ := h.phases call _ hphase
  obtain ⟨-, rfl⟩ := claimTransition_eq_some hclaim
  refine ⟨⟨fun hjoined => ?_, fun hjoined => ?_⟩, fun _ => rfl, fun c p hp => ?_,
    by rintro _ ⟨⟩, Or.inl hnone, h.memberships⟩
  · exact absurd hjoined args.call.fromState_ne_joined
  · rcases hjoined with hjoined | hsome
    · rw [h.fresh hjoined] at hwinner
      cases hwinner
    · cases hsome
  · change (s.calls.put call _).phase c = some p at hp
    rw [Calls.phase_put] at hp
    split_ifs at hp with hc
    · obtain rfl := Option.some.inj hp
      trivial
    · have hne : s.winner ≠ some c := fun h' => hc (Option.some.inj (h'.symm.trans hwinner))
      exact (h.phases c p hp).of_winner_ne hne (by simp)

/-- Taking the claim back restores all but the group. -/
theorem Inv.rollback_eq (h : s.Inv row memberships) {args : JoinArgs} {groupId : Uuid}
    {before row' : CandidateRow}
    (hphase : s.calls.phase call = some (.compensating args groupId before))
    (hclaim : claimTransition s.row .joined args.call.fromState none none = some row')
    (hgroup : before.resultingGroupId = some groupId) : row' = before := by
  obtain ⟨-, -, hbefore, hrow⟩ := h.phases call _ hphase
  obtain ⟨-, rfl⟩ := claimTransition_eq_some hclaim
  rw [hrow, ← hbefore, ← hgroup]
  rfl

/-- Every step keeps the invariant, whatever fails. -/
theorem Inv.step (h : s.Inv row memberships) (hstep : s.step a = some s') :
    s'.Inv row memberships := by
  cases a with
  | finalize call sourceId collectorId platformGroupid kind title now =>
    simp only [JoinRun.step] at hstep
    split at hstep <;> obtain rfl := Option.some.inj hstep
    · exact h
    · next hphase => exact h.put (h.winner_ne hphase) fun hw => absurd hw (h.winner_ne hphase)
  | confirm call kind title resolved now =>
    simp only [JoinRun.step] at hstep
    split at hstep
    · obtain rfl := Option.some.inj hstep
      exact h
    · next hphase =>
      have hne := h.winner_ne hphase
      split at hstep
      · obtain rfl := Option.some.inj hstep
        exact h.put trivial fun hw => absurd hw hne
      · split at hstep <;> obtain rfl := Option.some.inj hstep
        · exact h.put trivial fun hw => absurd hw hne
        · exact h.put hne fun hw => absurd hw hne
  | upsert call newId =>
    simp only [JoinRun.step] at hstep
    split at hstep
    · next args hphase =>
      have hne : s.winner ≠ some call := h.phases call _ hphase
      split at hstep <;> obtain rfl := Option.some.inj hstep
      · exact h
      · next groups groupId hupsert =>
        have hput := h.put (p := .claiming args groupId) hne fun hw => absurd hw hne
        exact ⟨hput.joined, hput.fresh, hput.phases, hput.winner, hput.opened, hput.memberships⟩
    · obtain rfl := Option.some.inj hstep
      exact h
  | claim call =>
    simp only [JoinRun.step] at hstep
    split at hstep
    · next args groupId hphase =>
      have hne : s.winner ≠ some call := h.phases call _ hphase
      split at hstep <;> obtain rfl := Option.some.inj hstep
      · exact h.put trivial fun hw => absurd hw hne
      · next row' hclaim => exact h.claim hclaim
    · obtain rfl := Option.some.inj hstep
      exact h
  | openMembership call =>
    simp only [JoinRun.step] at hstep
    split at hstep
    · next args groupId before hphase =>
      split at hstep <;> obtain rfl := Option.some.inj hstep
      · have hholds : s.Holds call (.opening args groupId before) := h.phases call _ hphase
        exact h.put hholds fun _ => Or.inl rfl
      · next opened hopen => exact h.openMembership hphase hopen
    · obtain rfl := Option.some.inj hstep
      exact h
  | openFails call =>
    simp only [JoinRun.step] at hstep
    split at hstep <;> obtain rfl := Option.some.inj hstep
    · next args groupId before hphase =>
      have hholds : s.Holds call (.opening args groupId before) := h.phases call _ hphase
      exact h.put hholds fun _ => Or.inl rfl
    · exact h
  | rollback call =>
    simp only [JoinRun.step] at hstep
    split at hstep
    · next args groupId before hphase =>
      split at hstep
      · next hlost =>
        -- the candidate is joined by this very call, so the claim back cannot lose
        have hjoined : s.row.state = .joined := by rw [(h.phases call _ hphase).2.2.2]
        rw [claimTransition, if_pos hjoined] at hlost
        cases hlost
      · next row' hclaim =>
        obtain rfl := Option.some.inj hstep
        exact h.rollback hphase hclaim
    · obtain rfl := Option.some.inj hstep
      exact h
  | audit call =>
    simp only [JoinRun.step] at hstep
    split at hstep <;> obtain rfl := Option.some.inj hstep
    · next groupId hphase =>
      obtain ⟨hwinner, m, hm, hgroup⟩ := h.phases call _ hphase
      exact h.put ⟨hwinner, m, hm, hgroup⟩ fun _ => Or.inr ⟨m, hm⟩
    · exact h
  | fail call =>
    simp only [JoinRun.step] at hstep
    split at hstep <;> obtain rfl := Option.some.inj hstep
    · next args hphase => exact h.put trivial fun hw => absurd hw (h.phases call _ hphase)
    · next groupId hphase =>
      obtain ⟨-, m, hm, -⟩ := h.phases call _ hphase
      exact h.put trivial fun _ => Or.inr ⟨m, hm⟩
    · exact h

/-! ## What the callers rely on -/

/-- At most one call opens a membership and returns its group, and between the calls the
candidate is joined exactly when that membership stands, or was joined before. -/
structure One (row : CandidateRow) (memberships : List MembershipRow) (s : JoinRun) : Prop where
  memberships : s.memberships = memberships ++ s.opened.map Prod.snd
  opened : s.opened.length ≤ 1
  candidate : ∀ o ∈ s.opened, o.2.joinedViaCandidateId = some s.candidate.id
  returned : ∀ call groupId, s.calls.phase call = some (.returned (some groupId)) →
    ∃ m, s.opened = [(call, m)] ∧ m.groupId = groupId
  settled : (∀ call p, s.calls.phase call = some p → p.inProgress = false) →
    (s.row.state = .joined ↔ row.state = .joined ∨ s.opened ≠ [])

theorem Inv.one (h : s.Inv row memberships) : s.One row memberships where
  memberships := h.memberships
  opened := by rcases h.opened with hnone | ⟨c, m, hone, -⟩ <;> simp [*]
  candidate o ho := by
    rcases h.opened with hnone | ⟨c, m, hone, -, hcandidate⟩
    · rw [hnone] at ho
      cases ho
    · rw [hone] at ho
      obtain rfl := List.mem_singleton.mp ho
      exact hcandidate
  returned call groupId hphase := (h.phases call _ hphase).2
  settled hidle := by
    rw [h.joined]
    refine or_congr_right ⟨fun hsome => ?_, fun hopened => ?_⟩
    · obtain ⟨call, hcall⟩ := Option.isSome_iff_exists.mp hsome
      obtain ⟨p, hp, hpending | ⟨m, hm⟩⟩ := h.winner call hcall
      · have hrunning := JoinPhase.inProgress_of_pending hpending
        rw [hidle call p hp] at hrunning
        cases hrunning
      · simp [hm]
    · rcases h.opened with hnone | ⟨c, m, -, hwinner, -⟩
      · exact absurd hnone hopened
      · simp [hwinner]

/-- What the calls leave behind: one membership at most, the row of every call that gave up, and
a lineage that leads to a candidate only once it is joined, or where it led to it before. -/
structure Sound (row : CandidateRow) (memberships : List MembershipRow) (s : JoinRun) : Prop where
  one : s.One row memberships
  rolledBack : ∀ b ∈ s.rolledBack, b.2 = b.1
  lineage : ∀ candidates groupId,
    lineageCandidate candidates groupId = some (s.candidate.id, s.row) →
      s.row.state = .joined ∨ row.resultingGroupId = some groupId

/-- The call gives up only a claim that named the group which the row named already. -/
def Restored (s : JoinRun) : Step → Prop
  | .rollback call => ∀ args groupId before,
      s.calls.phase call = some (.compensating args groupId before) →
        before.resultingGroupId = some groupId
  | _ => True

/-- What holds as long as every claim that was taken back left no trace. -/
structure Traceless (row : CandidateRow) (s : JoinRun) : Prop where
  unjoined : s.row.state ≠ .joined → s.row = row
  before : ∀ call p b, s.calls.phase call = some p → p.before = some b → b = row
  rolledBack : ∀ b ∈ s.rolledBack, b.2 = b.1

theorem Traceless.lineage (h : s.Traceless row) {candidates : List (Uuid × CandidateRow)}
    {groupId : Uuid}
    (hlineage : lineageCandidate candidates groupId = some (s.candidate.id, s.row)) :
    s.row.state = .joined ∨ row.resultingGroupId = some groupId := by
  have hgroup : s.row.resultingGroupId = some groupId := by
    have hfound := List.find?_some hlineage
    exact of_decide_eq_true hfound
  by_cases hjoined : s.row.state = .joined
  · exact Or.inl hjoined
  · rw [h.unjoined hjoined] at hgroup
    exact Or.inr hgroup

/-- A call moves on with the row that its claim replaced, if it made one. -/
theorem Traceless.put (h : s.Traceless row) {p : JoinPhase}
    (hp : p.before = none ∨ ∃ q, s.calls.phase call = some q ∧ q.before = p.before) :
    Traceless row { s with calls := s.calls.put call p } where
  unjoined := h.unjoined
  before c q b hq hb := by
    change (s.calls.put call p).phase c = some q at hq
    rw [Calls.phase_put] at hq
    split_ifs at hq with hc
    · obtain rfl := Option.some.inj hq
      rcases hp with hnone | ⟨q, hphase, hbefore⟩
      · rw [hnone] at hb
        cases hb
      · exact h.before call q b hphase (hbefore.trans hb)
    · exact h.before c q b hq hb
  rolledBack := h.rolledBack

theorem Traceless.step (h : s.Traceless row) (hinv : s.Inv row memberships)
    (hrestored : s.Restored a) (hstep : s.step a = some s') : s'.Traceless row := by
  cases a with
  | finalize call sourceId collectorId platformGroupid kind title now =>
    simp only [JoinRun.step] at hstep
    split at hstep <;> obtain rfl := Option.some.inj hstep
    · exact h
    · exact h.put (Or.inl rfl)
  | confirm call kind title resolved now =>
    simp only [JoinRun.step] at hstep
    split at hstep
    · obtain rfl := Option.some.inj hstep
      exact h
    · split at hstep
      · obtain rfl := Option.some.inj hstep
        exact h.put (Or.inl rfl)
      · split at hstep <;> obtain rfl := Option.some.inj hstep <;> exact h.put (Or.inl rfl)
  | upsert call newId =>
    simp only [JoinRun.step] at hstep
    split at hstep
    · next args hphase =>
      split at hstep <;> obtain rfl := Option.some.inj hstep
      · exact h
      · next groups groupId hupsert =>
        have hput : Traceless row { s with calls := s.calls.put call (.claiming args groupId) } :=
          h.put (Or.inl rfl)
        exact ⟨hput.unjoined, hput.before, hput.rolledBack⟩
    · obtain rfl := Option.some.inj hstep
      exact h
  | claim call =>
    simp only [JoinRun.step] at hstep
    split at hstep
    · next args groupId hphase =>
      split at hstep <;> obtain rfl := Option.some.inj hstep
      · exact h.put (Or.inl rfl)
      · next row' hclaim =>
        obtain ⟨hstate, rfl⟩ := claimTransition_eq_some hclaim
        have hsame := h.unjoined (hstate ▸ args.call.fromState_ne_joined)
        refine ⟨fun hne => absurd rfl hne, fun c p b hp hb => ?_, h.rolledBack⟩
        change (s.calls.put call _).phase c = some p at hp
        rw [Calls.phase_put] at hp
        split_ifs at hp with hc
        · obtain rfl := Option.some.inj hp
          exact (Option.some.inj hb).symm.trans hsame
        · exact h.before c p b hp hb
    · obtain rfl := Option.some.inj hstep
      exact h
  | openMembership call =>
    simp only [JoinRun.step] at hstep
    split at hstep
    · next args groupId before hphase =>
      split at hstep <;> obtain rfl := Option.some.inj hstep
      · exact h.put (Or.inr ⟨_, hphase, rfl⟩)
      · have hput : Traceless row { s with calls := s.calls.put call (.auditing groupId) } :=
          h.put (Or.inl rfl)
        exact ⟨hput.unjoined, hput.before, hput.rolledBack⟩
    · obtain rfl := Option.some.inj hstep
      exact h
  | openFails call =>
    simp only [JoinRun.step] at hstep
    split at hstep <;> obtain rfl := Option.some.inj hstep
    · next hphase => exact h.put (Or.inr ⟨_, hphase, rfl⟩)
    · exact h
  | rollback call =>
    simp only [JoinRun.step] at hstep
    split at hstep
    · next args groupId before hphase =>
      split at hstep <;> obtain rfl := Option.some.inj hstep
      · exact h.put (Or.inl rfl)
      · next row' hclaim =>
        have hback := hinv.rollback_eq hphase hclaim (hrestored args groupId before hphase)
        have hput : Traceless row { s with calls := s.calls.put call .raised } :=
          h.put (Or.inl rfl)
        refine ⟨fun _ => ?_, hput.before, fun b hb => ?_⟩
        · exact hback.trans (h.before call _ before hphase rfl)
        · rcases List.mem_cons.mp hb with rfl | hmem
          · exact hback
          · exact h.rolledBack b hmem
    · obtain rfl := Option.some.inj hstep
      exact h
  | audit call =>
    simp only [JoinRun.step] at hstep
    split at hstep <;> obtain rfl := Option.some.inj hstep
    · exact h.put (Or.inl rfl)
    · exact h
  | fail call =>
    simp only [JoinRun.step] at hstep
    split at hstep <;> obtain rfl := Option.some.inj hstep
    · exact h.put (Or.inl rfl)
    · exact h.put (Or.inl rfl)
    · exact h

/-- A claim that is taken back leaves the group of the row that it replaced only where that row
named the group. -/
theorem Inv.restored (h : s.Inv row memberships) (hstep : s.step a = some s')
    (hback : ∀ b ∈ s'.rolledBack, b.2 = b.1) : s.Restored a := by
  cases a with
  | rollback call =>
    intro args groupId before hphase
    obtain ⟨-, -, -, hrow⟩ := h.phases call _ hphase
    have hjoined : s.row.state = .joined := by rw [hrow]
    simp only [JoinRun.step, hphase, claimTransition, if_pos hjoined] at hstep
    obtain rfl := Option.some.inj hstep
    have hsame := congrArg CandidateRow.resultingGroupId (hback _ List.mem_cons_self)
    rw [← hsame]
    exact congrArg CandidateRow.resultingGroupId hrow
  | _ => trivial

theorem exists_step (s : JoinRun) (a : Step) : ∃ s', s.step a = some s' := by
  cases a <;> simp only [step] <;> repeat' first | exact ⟨_, rfl⟩ | split

/-- **Saga.** The calls leave one join or the row that they found, all along a run, exactly when
no call gives up a claim that put a new group into the row: giving up does not take it out. -/
theorem sound_iff_restored {candidate : CandidateGroup} {row : CandidateRow}
    {groups : List GroupRow} {memberships : List MembershipRow} {as : List Step} :
    Throughout step (Sound row memberships) (init candidate row groups memberships) as ↔
      Along step Restored (init candidate row groups memberships) as := by
  obtain ⟨s', hrun⟩ := exists_run exists_step (init candidate row groups memberships) as
  refine throughout_iff_along (I := fun s => s.Inv row memberships ∧ s.Traceless row)
    (fun h => ⟨h.1.one, h.2.rolledBack, fun _ _ => h.2.lineage⟩)
    (fun h hrestored hstep => ⟨h.1.step hstep, h.2.step h.1 hrestored hstep⟩)
    (fun h hstep hsound => h.1.restored hstep hsound.rolledBack)
    ⟨inv_init candidate row groups memberships, fun _ => rfl, ?_, ?_⟩ hrun
  · intro call p b hp
    cases hp
  · intro b hb
    cases hb

/-! ### A lineage through a group that nobody joined -/

/-- A candidate that was dispatched. -/
def dispatched : CandidateGroup := ⟨1, 2, "-100", none, none⟩

/-- Its row. -/
def dispatchedRow : CandidateRow := ⟨.joining, none, none, none, some 3, none⟩

/-- The membership cannot be opened and the claim is taken back: the candidate is joining again,
without a membership, and still the lineage of its group goes through it. -/
theorem failed_join_keeps_group :
    ∃ s, run step (init dispatched dispatchedRow [] [])
        [.finalize 0 2 3 "-100" .channel none 5, .upsert 0 4, .claim 0, .openFails 0,
          .rollback 0] = some s ∧
      s.memberships = [] ∧ s.row.state = .joining ∧ s.row ≠ dispatchedRow ∧
        groupLineage [] [(dispatched.id, s.row)] [⟨1, some 9, 1⟩] 4 = (some 9, 1) ∧
          groupLineage [] [(dispatched.id, dispatchedRow)] [⟨1, some 9, 1⟩] 4 = (none, 0) := by
  decide

end JoinRun

end Eyenet
