import Eyenet.JoinDispatch

/-!
# Which approved candidates a tick dispatches

A tick of the supervisor lists the first thousand approved candidates by score and dispatches them
one after the other (`services/collector_supervisor.py`). An exception in one dispatch leaves the
tick, and a candidate that is not eligible stays where it is in the list.

* `DispatchRun.step_move` — what one step does to the candidates that are still to come.
* `DispatchRun.dispatched_iff` — over every interleaving: which of the candidates that are ready to
  join get their command in a tick.
-/

namespace Eyenet

open Machine

/-- The candidate is approved and has a collector. -/
def GroupCandidate.Fit (c : GroupCandidate) : Prop :=
  c.row.state = .approved ∧ c.row.assignedCollectorId ≠ none

namespace DispatchPhase

/-- The candidate that the tick is at, from the reading of its mentions on. -/
def current : DispatchPhase → Option Uuid
  | ready ((c, _) :: _) => some c.id
  | judging c _ => some c.id
  | leasing c _ => some c.id
  | identifying c _ => some c.id
  | dispatching _ d _ => some d.candidate.id
  | _ => none

/-- The candidates that are listed and that the tick has not come to. -/
def later : DispatchPhase → DispatchQueue
  | listed approved => approved.map fun c => (c, .approved)
  | ready (_ :: queue) => queue
  | judging _ queue => queue
  | leasing _ queue => queue
  | identifying _ queue => queue
  | dispatching _ _ queue => queue
  | _ => []

/-- The candidate at which the tick is has been moved. -/
def sending : DispatchPhase → Bool
  | dispatching (.auditing _) _ _ => true
  | dispatching (.publishing _) _ _ => true
  | _ => false

/-- The approved candidates are listed, the joining ones are not. -/
def isListed : DispatchPhase → Bool
  | listed _ => true
  | _ => false

/-- The candidate is listed, and the tick has not come to it. -/
def Waiting (id : Uuid) (p : DispatchPhase) : Prop := ∃ e ∈ p.later, e.1.id = id

/-- The tick may come to the candidate and has not moved it. -/
def Unmoved (id : Uuid) (p : DispatchPhase) : Prop :=
  p.isListed = true ∨ p.Waiting id ∨ p.current = some id ∧ p.sending = false

end DispatchPhase

namespace DispatchRun

/-! ## Candidates that are ready -/

/-- An exception leaves the tick: an await raises, or the transition is refused. -/
def Raises (s : DispatchRun) : Step → Prop
  | .abort => True
  | .move => ∃ artifact d queue, s.tick = .dispatching (.moving artifact) d queue ∧
      s.loadCandidate d.candidate.id joiningArgs = none
  | _ => False

/-- What the candidate's own dispatch awaits is there: mentions that make it eligible, with a
scout to lease, or the identity of a collector that is alive; and no await of it raises. -/
def OwnAwaits (id : Uuid) (s : DispatchRun) : Step → Prop
  | .next mentioned alive => s.tick.current = some id → mentioned = true ∨ alive = true
  | .judge eligible => s.tick.current = some id → eligible = true
  | .lease => ∀ c queue, s.tick = .leasing c queue → c.id = id →
      (s.identities.leaseScout c.sourceId).2 ≠ none
  | .identify identityId => s.tick.current = some id →
      identityId.bind s.identities.getIdentity ≠ none
  | .publish => ∀ artifact d queue, s.tick = .dispatching (.publishing artifact) d queue →
      d.candidate.id = id → s.identities.sources.get d.identity.sourceId ≠ none
  | .abort => s.tick.current ≠ some id
  | _ => True

/-- The candidate is ready to join for as long as the tick has not moved it. -/
structure Ready (id : Uuid) (s : DispatchRun) (a : Step) : Prop where
  approved : (∃ ranking, a = .listApproved ranking) ∨ s.tick.Unmoved id →
    ∃ c, s.candidates.get id = some c ∧ c.Fit
  own : OwnAwaits id s a

/-- Nothing raises while the candidate is waiting. -/
def Undisturbed (id : Uuid) (s : DispatchRun) (a : Step) : Prop :=
  s.tick.Waiting id → ¬s.Raises a

/-- The commands that went out for the candidate. -/
def commands (id : Uuid) (s : DispatchRun) : ℕ :=
  s.published.countP fun command => command.candidateId = id

/-- The candidate was moved to joining in the run, and a command went out for it. -/
structure Dispatched (id : Uuid) (s : DispatchRun) (as : List Step) (s' : DispatchRun) : Prop where
  moved : ∃ pre t, pre <+: as ∧ run step s pre = some t ∧
    ∃ c, t.candidates.get id = some c ∧ c.row.state = .joining
  commanded : commands id s < commands id s'

/-! ## Steps of the tick -/

variable {s s' : DispatchRun} {a : Step} {id : Uuid}

/-- What a step does to the phase and to the commands. -/
inductive Move (s : DispatchRun) (a : Step) (s' : DispatchRun) : Prop
  | stay (htick : s'.tick = s.tick) (hpub : s'.published = s.published)
  | raise (hraises : s.Raises a) (htick : s'.tick = .idle) (hpub : s'.published = s.published)
  | listApproved (ranking : List Uuid) (ha : a = .listApproved ranking) (hidle : s.tick = .idle)
      (htick : s'.tick = .listed (listCandidates s.candidates ranking .approved))
      (hpub : s'.published = s.published)
  | listJoining (ranking : List Uuid) (approved : List GroupCandidate)
      (hlisted : s.tick = .listed approved)
      (htick : s'.tick = .ready (approved.map (fun c => (c, .approved)) ++
        (listCandidates s.candidates ranking .joining).map fun c => (c, .joining)))
      (hpub : s'.published = s.published)
  /-- the same candidate goes on -/
  | proceed (hcurrent : s'.tick.current = s.tick.current) (hlater : s'.tick.later = s.tick.later)
      (hlisted : s.tick.isListed = false) (hnone : s.tick.current ≠ none)
      (hpub : s'.published = s.published)
  /-- it is left without a command -/
  | skip (hlisted : s.tick.isListed = false) (htick : s'.tick = .ready s.tick.later)
      (hpub : s'.published = s.published)
  | publish (command : JoinGroupCommand) (hcurrent : s.tick.current = some command.candidateId)
      (htick : s'.tick = .ready s.tick.later) (hpub : s'.published = command :: s.published)
  | finish (hready : s.tick = .ready []) (htick : s'.tick = .idle)
      (hpub : s'.published = s.published)

theorem Move.same {p : DispatchPhase} (htick : s.tick = p) (hcurrent : s'.tick.current = p.current)
    (hlater : s'.tick.later = p.later) (hlisted : p.isListed = false) (hnone : p.current ≠ none)
    (hpub : s'.published = s.published) : Move s a s' := by
  subst htick
  exact .proceed hcurrent hlater hlisted hnone hpub

theorem Move.left {p : DispatchPhase} (htick : s.tick = p) (hlisted : p.isListed = false)
    (hready : s'.tick = .ready p.later) (hpub : s'.published = s.published) : Move s a s' := by
  subst htick
  exact .skip hlisted hready hpub

theorem step_move (hstep : s.step a = some s') : Move s a s' := by
  cases a with
  | listApproved ranking =>
    simp only [DispatchRun.step] at hstep
    split at hstep <;> obtain rfl := Option.some.inj hstep
    · next htick => exact .listApproved ranking rfl htick rfl rfl
    · exact .stay rfl rfl
  | listJoining ranking =>
    simp only [DispatchRun.step] at hstep
    split at hstep <;> obtain rfl := Option.some.inj hstep
    · next approved htick => exact .listJoining ranking approved htick rfl rfl
    · exact .stay rfl rfl
  | next mentioned alive =>
    simp only [DispatchRun.step] at hstep
    split at hstep <;> obtain rfl := Option.some.inj hstep
    · next htick => exact .finish htick rfl rfl
    · next c state queue htick =>
      simp only [nextPhase]
      split_ifs
      · exact .left htick rfl rfl rfl
      · exact .same htick rfl rfl rfl (Option.some_ne_none _) rfl
      · exact .left htick rfl rfl rfl
      · exact .left htick rfl rfl rfl
      · exact .same htick rfl rfl rfl (Option.some_ne_none _) rfl
    · exact .stay rfl rfl
  | judge eligible =>
    simp only [DispatchRun.step] at hstep
    split at hstep <;> obtain rfl := Option.some.inj hstep
    · next c queue htick =>
      split_ifs
      · exact .same htick rfl rfl rfl (Option.some_ne_none _) rfl
      · exact .left htick rfl rfl rfl
    · exact .stay rfl rfl
  | lease =>
    simp only [DispatchRun.step] at hstep
    split at hstep
    · next c queue htick =>
      split at hstep <;> obtain rfl := Option.some.inj hstep
      · exact .left htick rfl rfl rfl
      · exact .same htick rfl rfl rfl (Option.some_ne_none _) rfl
    · obtain rfl := Option.some.inj hstep
      exact .stay rfl rfl
  | identify identityId =>
    simp only [DispatchRun.step] at hstep
    split at hstep
    · next c queue htick =>
      split at hstep <;> obtain rfl := Option.some.inj hstep
      · exact .left htick rfl rfl rfl
      · exact .same htick rfl rfl rfl (Option.some_ne_none _) rfl
    · obtain rfl := Option.some.inj hstep
      exact .stay rfl rfl
  | choose artifact =>
    simp only [DispatchRun.step] at hstep
    split at hstep
    · next d queue htick =>
      split_ifs at hstep <;> obtain rfl := Option.some.inj hstep
      all_goals exact .same htick rfl rfl rfl (Option.some_ne_none _) rfl
    · obtain rfl := Option.some.inj hstep
      exact .stay rfl rfl
  | move =>
    simp only [DispatchRun.step] at hstep
    split at hstep
    · next artifact d queue htick =>
      split at hstep <;> obtain rfl := Option.some.inj hstep
      · next hload => exact .raise ⟨artifact, d, queue, htick, hload⟩ rfl rfl
      · exact .same htick rfl rfl rfl (Option.some_ne_none _) rfl
    · obtain rfl := Option.some.inj hstep
      exact .stay rfl rfl
  | write =>
    simp only [DispatchRun.step] at hstep
    split at hstep <;> obtain rfl := Option.some.inj hstep
    · next artifact loaded d queue htick =>
      exact .same htick rfl rfl rfl (Option.some_ne_none _) rfl
    · exact .stay rfl rfl
  | audit =>
    simp only [DispatchRun.step] at hstep
    split at hstep <;> obtain rfl := Option.some.inj hstep
    · next artifact d queue htick =>
      exact .same htick rfl rfl rfl (Option.some_ne_none _) rfl
    · exact .stay rfl rfl
  | publish =>
    simp only [DispatchRun.step] at hstep
    split at hstep
    · next artifact d queue htick =>
      split at hstep <;> obtain rfl := Option.some.inj hstep
      · exact .left htick rfl rfl rfl
      · exact .publish (d.command artifact) (by rw [htick]; rfl) (by rw [htick]; rfl) rfl
    · obtain rfl := Option.some.inj hstep
      exact .stay rfl rfl
  | abort =>
    obtain rfl := Option.some.inj hstep
    exact .raise trivial rfl rfl
  | start call c =>
    simp only [DispatchRun.step] at hstep
    split at hstep
    · obtain rfl := Option.some.inj hstep
      exact .stay rfl rfl
    · split at hstep
      · split_ifs at hstep <;> obtain rfl := Option.some.inj hstep <;> exact .stay rfl rfl
      · obtain rfl := Option.some.inj hstep
        exact .stay rfl rfl
  | proceed call now =>
    simp only [DispatchRun.step] at hstep
    split at hstep <;> obtain rfl := Option.some.inj hstep
    · exact .stay rfl rfl
    · next c stage hphase =>
      obtain ⟨htick, hpub, -⟩ := proceed_frame (s := s) call c now stage
      exact .stay htick hpub
  | callFails call =>
    simp only [DispatchRun.step] at hstep
    split at hstep <;> obtain rfl := Option.some.inj hstep <;> exact .stay rfl rfl
  | finalize candidateId groupId =>
    obtain rfl := Option.some.inj hstep
    exact .stay rfl rfl
  | rollback candidateId =>
    obtain rfl := Option.some.inj hstep
    exact .stay rfl rfl

/-! ## Before, at and after a candidate -/

/-- The candidate is not among those listed. -/
def Free (id : Uuid) (queue : DispatchQueue) : Prop := ∀ e ∈ queue, e.1.id ≠ id

/-- The tick has the candidate still to come, once. -/
structure Ahead (id : Uuid) (p : DispatchPhase) : Prop where
  current : p.current ≠ some id
  later : ∃ pre c post, p.later = pre ++ (c, .approved) :: post ∧ c.id = id ∧ c.Fit ∧
    Free id pre ∧ Free id post

/-- The tick is at the candidate and has not moved it. -/
inductive Busy (id : Uuid) : DispatchPhase → Prop
  | ready {c queue} (hc : c.id = id) (hfit : c.Fit) (hfree : Free id queue) :
      Busy id (.ready ((c, .approved) :: queue))
  | judging {c queue} (hc : c.id = id) (hfit : c.Fit) (hfree : Free id queue) :
      Busy id (.judging c queue)
  | leasing {c queue} (hc : c.id = id) (hfit : c.Fit) (hfree : Free id queue) :
      Busy id (.leasing c queue)
  | identifying {c queue} (hc : c.id = id) (hfit : c.Fit) (hfree : Free id queue) :
      Busy id (.identifying c queue)
  | choosing {d queue} (hd : d.candidate.id = id) (hfit : d.candidate.Fit)
      (hfree : Free id queue) : Busy id (.dispatching .choosing d queue)
  | moving {artifact d queue} (hd : d.candidate.id = id) (hfree : Free id queue) :
      Busy id (.dispatching (.moving artifact) d queue)
  | writing {artifact loaded d queue} (hd : d.candidate.id = id)
      (hloaded : loaded.state = .approved) (hfree : Free id queue) :
      Busy id (.dispatching (.writing artifact loaded) d queue)

/-- The tick has moved the candidate and not sent the command. -/
structure Sending (id : Uuid) (p : DispatchPhase) : Prop where
  current : p.current = some id
  sending : p.sending = true
  free : Free id p.later

/-- The tick is not to come to the candidate. -/
structure Gone (id : Uuid) (p : DispatchPhase) : Prop where
  current : p.current ≠ some id
  free : Free id p.later

theorem commands_eq (hpub : s'.published = s.published) : commands id s' = commands id s := by
  rw [commands, commands, hpub]

theorem commands_cons {command : JoinGroupCommand} (hpub : s'.published = command :: s.published)
    (hother : s.tick.current = some command.candidateId) (hcurrent : s.tick.current ≠ some id) :
    commands id s' = commands id s := by
  rw [commands, commands, hpub, List.countP_cons_of_neg]
  rw [decide_eq_true_eq]
  rintro rfl
  exact hcurrent hother

/-- An approved candidate is not listed with the joining ones. -/
theorem free_joining (ranking : List Uuid)
    (h : ∃ c, s.candidates.get id = some c ∧ c.Fit) :
    Free id ((listCandidates s.candidates ranking .joining).map fun c => (c, .joining)) := by
  obtain ⟨c, hc, hfit⟩ := h
  intro e he hid
  obtain ⟨c', hc', rfl⟩ := List.mem_map.mp he
  obtain ⟨hmem, hstate⟩ := List.mem_filter.mp (List.mem_of_mem_take hc')
  rw [decide_eq_true_eq] at hstate
  obtain ⟨k, -, hget⟩ := List.mem_filterMap.mp hmem
  obtain ⟨hrow, rfl⟩ := Table.get_eq_some.mp hget
  have hid' : c'.id = id := hid
  rw [hid', hc] at hget
  obtain rfl := Option.some.inj hget
  rw [hfit.1] at hstate
  cases hstate

theorem Gone.ready {queue : DispatchQueue} (h : Free id queue) : Gone id (.ready queue) := by
  cases queue with
  | nil => exact ⟨by rintro ⟨⟩, h⟩
  | cons e queue =>
    refine ⟨?_, fun e' he' => h e' (List.mem_cons_of_mem e he')⟩
    intro hcurrent
    exact h e List.mem_cons_self (Option.some.inj hcurrent)

theorem Free.append {queue queue' : DispatchQueue} (h : Free id queue) (h' : Free id queue') :
    Free id (queue ++ queue') := by
  intro e he
  exact (List.mem_append.mp he).elim (h e) (h' e)

theorem Gone.step (h : Gone id s.tick) (hready : Ready id s a)
    (hone : ∀ ranking, a ≠ .listApproved ranking) (hstep : s.step a = some s') :
    Gone id s'.tick ∧ commands id s' = commands id s := by
  cases step_move hstep with
  | stay htick hpub => exact ⟨htick ▸ h, commands_eq hpub⟩
  | raise hraises htick hpub =>
    rw [htick]
    exact ⟨⟨by rintro ⟨⟩, by rintro e ⟨⟩⟩, commands_eq hpub⟩
  | listApproved ranking ha => exact absurd ha (hone ranking)
  | listJoining ranking approved hlisted htick hpub =>
    rw [htick]
    refine ⟨Gone.ready (Free.append ?_ (free_joining _ (hready.approved (Or.inr (Or.inl ?_))))),
      commands_eq hpub⟩
    · have hfree := h.free
      rwa [hlisted] at hfree
    · rw [hlisted]
      rfl
  | proceed hcurrent hlater hlisted hnone hpub =>
    exact ⟨⟨hcurrent ▸ h.current, hlater ▸ h.free⟩, commands_eq hpub⟩
  | skip hlisted htick hpub =>
    rw [htick]
    exact ⟨Gone.ready h.free, commands_eq hpub⟩
  | publish command hcurrent htick hpub =>
    rw [htick]
    exact ⟨Gone.ready h.free, commands_cons hpub hcurrent h.current⟩
  | finish hready htick hpub =>
    rw [htick]
    exact ⟨⟨by rintro ⟨⟩, by rintro e ⟨⟩⟩, commands_eq hpub⟩

theorem ready_ahead_or_busy {pre post : DispatchQueue} {c : GroupCandidate} (hc : c.id = id)
    (hfit : c.Fit) (hpre : Free id pre) (hpost : Free id post) :
    Ahead id (.ready (pre ++ (c, .approved) :: post)) ∨
      Busy id (.ready (pre ++ (c, .approved) :: post)) := by
  cases pre with
  | nil => exact Or.inr (.ready hc hfit hpost)
  | cons e pre =>
    refine Or.inl ⟨?_, pre, c, post, rfl, hc, hfit, ?_, hpost⟩
    · intro hcurrent
      exact hpre e List.mem_cons_self (Option.some.inj hcurrent)
    · exact fun e' he' => hpre e' (List.mem_cons_of_mem e he')

theorem Ahead.step (h : Ahead id s.tick) (hready : Ready id s a)
    (hone : ∀ ranking, a ≠ .listApproved ranking) (hstep : s.step a = some s') :
    commands id s' = commands id s ∧
      (Ahead id s'.tick ∨ Busy id s'.tick ∨ s.Raises a ∧ Gone id s'.tick) := by
  obtain ⟨pre, c, post, hlater, hc, hfit, hpre, hpost⟩ := h.later
  cases step_move hstep with
  | stay htick hpub => exact ⟨commands_eq hpub, Or.inl (htick ▸ h)⟩
  | raise hraises htick hpub =>
    refine ⟨commands_eq hpub, Or.inr (Or.inr ⟨hraises, ?_⟩)⟩
    rw [htick]
    exact ⟨by rintro ⟨⟩, by rintro e ⟨⟩⟩
  | listApproved ranking ha => exact absurd ha (hone ranking)
  | listJoining ranking approved hlisted htick hpub =>
    have hjoining := free_joining ranking
      (hready.approved (Or.inr (Or.inl (by rw [hlisted]; rfl))))
    rw [hlisted] at hlater
    have hqueue : approved.map (fun c => (c, CandidateState.approved)) =
        pre ++ (c, .approved) :: post := hlater
    refine ⟨commands_eq hpub, ?_⟩
    rw [htick, hqueue, List.append_assoc, List.cons_append, ← or_assoc]
    exact Or.inl (ready_ahead_or_busy hc hfit hpre (hpost.append hjoining))
  | proceed hcurrent hlater' hlisted hnone hpub =>
    refine ⟨commands_eq hpub, Or.inl ⟨hcurrent ▸ h.current, pre, c, post, ?_, hc, hfit, hpre,
      hpost⟩⟩
    rw [hlater', hlater]
  | skip hlisted htick hpub =>
    refine ⟨commands_eq hpub, ?_⟩
    rw [htick, hlater, ← or_assoc]
    exact Or.inl (ready_ahead_or_busy hc hfit hpre hpost)
  | publish command hcurrent htick hpub =>
    refine ⟨commands_cons hpub hcurrent h.current, ?_⟩
    rw [htick, hlater, ← or_assoc]
    exact Or.inl (ready_ahead_or_busy hc hfit hpre hpost)
  | finish hready htick hpub =>
    rw [hready] at hlater
    exact absurd hlater.symm (List.append_ne_nil_of_right_ne_nil pre (List.cons_ne_nil _ _))

/-- The label is one that the phase waits for. -/
def fits : DispatchPhase → Step → Bool
  | _, .abort => true
  | .idle, .listApproved _ => true
  | .listed _, .listJoining _ => true
  | .ready _, .next _ _ => true
  | .judging _ _, .judge _ => true
  | .leasing _ _, .lease => true
  | .identifying _ _, .identify _ => true
  | .dispatching .choosing _ _, .choose _ => true
  | .dispatching (.moving _) _ _, .move => true
  | .dispatching (.writing _ _) _ _, .write => true
  | .dispatching (.auditing _) _ _, .audit => true
  | .dispatching (.publishing _) _ _, .publish => true
  | _, _ => false

/-- A label that the phase does not wait for leaves the tick alone. -/
theorem step_unfit (hunfit : fits s.tick a = false) (hstep : s.step a = some s') :
    s'.tick = s.tick ∧ s'.published = s.published := by
  cases a with
  | abort =>
    cases htick : s.tick <;> rw [htick] at hunfit <;> cases hunfit
  | start call c =>
    simp only [DispatchRun.step] at hstep
    repeat' split at hstep
    all_goals
      obtain rfl := Option.some.inj hstep
      exact ⟨rfl, rfl⟩
  | proceed call now =>
    simp only [DispatchRun.step] at hstep
    split at hstep <;> obtain rfl := Option.some.inj hstep
    · exact ⟨rfl, rfl⟩
    · next c stage hphase =>
      obtain ⟨htick, hpub, -⟩ := proceed_frame (s := s) call c now stage
      exact ⟨htick, hpub⟩
  | callFails call =>
    simp only [DispatchRun.step] at hstep
    split at hstep <;> obtain rfl := Option.some.inj hstep <;> exact ⟨rfl, rfl⟩
  | finalize candidateId groupId =>
    obtain rfl := Option.some.inj hstep
    exact ⟨rfl, rfl⟩
  | rollback candidateId =>
    obtain rfl := Option.some.inj hstep
    exact ⟨rfl, rfl⟩
  | next mentioned alive =>
    simp only [DispatchRun.step] at hstep
    split at hstep
    · next htick => rw [htick] at hunfit; cases hunfit
    · next htick => rw [htick] at hunfit; cases hunfit
    · obtain rfl := Option.some.inj hstep
      exact ⟨rfl, rfl⟩
  | _ =>
    simp only [DispatchRun.step] at hstep
    split at hstep
    · next htick => rw [htick] at hunfit; cases hunfit
    · obtain rfl := Option.some.inj hstep
      exact ⟨rfl, rfl⟩

theorem Busy.unmoved {p : DispatchPhase} (h : Busy id p) : p.Unmoved id := by
  right
  right
  cases h <;> refine ⟨congrArg some ?_, rfl⟩ <;> assumption

theorem Busy.step (h : Busy id s.tick) (hready : Ready id s a) (hstep : s.step a = some s') :
    commands id s' = commands id s ∧ (Busy id s'.tick ∨ Sending id s'.tick ∧
      ∃ c, s'.candidates.get id = some c ∧ c.row.state = .joining) := by
  obtain ⟨row, hrow, hrowfit⟩ := hready.approved (Or.inr h.unmoved)
  cases hfits : fits s.tick a with
  | false =>
    obtain ⟨htick, hpub⟩ := step_unfit hfits hstep
    exact ⟨commands_eq hpub, Or.inl (htick ▸ h)⟩
  | true =>
    have hown := hready.own
    generalize htick : s.tick = p at h hfits
    cases h with
    | ready hc hfit hfree =>
      cases a with
      | abort => exact absurd (by rw [htick]; exact congrArg some hc) hown
      | next mentioned alive =>
        simp only [DispatchRun.step, htick] at hstep
        obtain rfl := Option.some.inj hstep
        refine ⟨rfl, Or.inl ?_⟩
        have hlabel := hown (by rw [htick]; exact congrArg some hc)
        simp only [nextPhase, if_neg hfit.2]
        cases mentioned with
        | true => exact .judging hc hfit hfree
        | false =>
          rw [if_pos rfl, if_pos (hlabel.resolve_left Bool.false_ne_true)]
          exact .identifying hc hfit hfree
      | _ => cases hfits
    | judging hc hfit hfree =>
      cases a with
      | abort => exact absurd (by rw [htick]; exact congrArg some hc) hown
      | judge eligible =>
        simp only [DispatchRun.step, htick] at hstep
        obtain rfl := Option.some.inj hstep
        refine ⟨rfl, Or.inl ?_⟩
        rw [if_pos (hown (by rw [htick]; exact congrArg some hc))]
        exact .leasing hc hfit hfree
      | _ => cases hfits
    | leasing hc hfit hfree =>
      cases a with
      | abort => exact absurd (by rw [htick]; exact congrArg some hc) hown
      | lease =>
        have hscout := hown _ _ htick hc
        simp only [DispatchRun.step, htick] at hstep
        split at hstep
        · next hnone => rw [hnone] at hscout; exact absurd rfl hscout
        · obtain rfl := Option.some.inj hstep
          exact ⟨rfl, Or.inl (.choosing hc hfit hfree)⟩
      | _ => cases hfits
    | identifying hc hfit hfree =>
      cases a with
      | abort => exact absurd (by rw [htick]; exact congrArg some hc) hown
      | identify identityId =>
        have hidentity := hown (by rw [htick]; exact congrArg some hc)
        simp only [DispatchRun.step, htick] at hstep
        split at hstep
        · next hnone => exact absurd hnone hidentity
        · obtain rfl := Option.some.inj hstep
          exact ⟨rfl, Or.inl (.choosing hc hfit hfree)⟩
      | _ => cases hfits
    | choosing hd hfit hfree =>
      cases a with
      | abort => exact absurd (by rw [htick]; exact congrArg some hd) hown
      | choose artifact =>
        simp only [DispatchRun.step, htick, if_pos (Or.inr hfit.1)] at hstep
        obtain rfl := Option.some.inj hstep
        exact ⟨rfl, Or.inl (.moving hd hfree)⟩
      | _ => cases hfits
    | moving hd hfree =>
      cases a with
      | abort => exact absurd (by rw [htick]; exact congrArg some hd) hown
      | move =>
        have hload : s.loadCandidate id joiningArgs = some row.row := by
          have hallowed : CandidateState.joining ∈ row.row.state.allowed := by
            rw [hrowfit.1]
            decide
          have hcheck : checkTransition row.row joiningArgs = .ok () := if_pos hallowed
          simp only [loadCandidate, hrow, hcheck]
        simp only [DispatchRun.step, htick, hd, hload] at hstep
        obtain rfl := Option.some.inj hstep
        exact ⟨rfl, Or.inl (.writing hd hrowfit.1 hfree)⟩
      | _ => cases hfits
    | @writing artifact loaded d queue hd hloaded hfree =>
      cases a with
      | abort => exact absurd (by rw [htick]; exact congrArg some hd) hown
      | write =>
        simp only [DispatchRun.step, htick] at hstep
        obtain rfl := Option.some.inj hstep
        refine ⟨rfl, Or.inr ⟨⟨congrArg some hd, rfl, hfree⟩, ?_⟩⟩
        refine ⟨{ row with row := applyTransition loaded joiningArgs row.row }, ?_, ?_⟩
        · dsimp only
          rw [get_updateCandidate, if_pos hd.symm, hrow]
          rfl
        · apply CandidateRun.applyTransition_state
          rw [hloaded]
          decide
      | _ => cases hfits

theorem Sending.step (h : Sending id s.tick) (hready : Ready id s a)
    (hstep : s.step a = some s') :
    Sending id s'.tick ∧ commands id s' = commands id s ∨
      Gone id s'.tick ∧ commands id s' = commands id s + 1 := by
  cases hfits : fits s.tick a with
  | false =>
    obtain ⟨htick, hpub⟩ := step_unfit hfits hstep
    exact Or.inl ⟨htick ▸ h, commands_eq hpub⟩
  | true =>
    have hown := hready.own
    obtain ⟨hcurrent, hsending, hfree⟩ := h
    cases htick : s.tick with
    | dispatching stage d queue =>
      rw [htick] at hfits hcurrent hsending hfree
      have hd : d.candidate.id = id := Option.some.inj hcurrent
      cases a with
      | abort => exact absurd (by rw [htick]; exact hcurrent) hown
      | audit =>
        cases stage with
        | auditing artifact =>
          simp only [DispatchRun.step, htick] at hstep
          obtain rfl := Option.some.inj hstep
          exact Or.inl ⟨⟨hcurrent, rfl, hfree⟩, rfl⟩
        | _ => cases hfits
      | publish =>
        cases stage with
        | publishing artifact =>
          have hsource := hown artifact d queue htick hd
          simp only [DispatchRun.step, htick] at hstep
          split at hstep
          · next hnone => exact absurd hnone hsource
          · obtain rfl := Option.some.inj hstep
            refine Or.inr ⟨Gone.ready hfree, ?_⟩
            exact List.countP_cons_of_pos (decide_eq_true hd)
        | _ => cases hfits
      | _ => cases stage <;> first
        | exact absurd hsending Bool.false_ne_true
        | exact absurd hfits Bool.false_ne_true
    | _ =>
      rw [htick] at hsending
      cases hsending

/-! ## Ticks -/

/-- Once the tick has come to the candidate or passed it over, it is not waiting. -/
def Past (id : Uuid) (p : DispatchPhase) : Prop := Busy id p ∨ Sending id p ∨ Gone id p

theorem Past.not_waiting {p : DispatchPhase} (h : Past id p) : ¬p.Waiting id := by
  rintro ⟨e, he, hid⟩
  rcases h with h | h | h
  · cases h with
    | ready hc hfit hfree => exact hfree e he hid
    | judging hc hfit hfree => exact hfree e he hid
    | leasing hc hfit hfree => exact hfree e he hid
    | identifying hc hfit hfree => exact hfree e he hid
    | choosing hd hfit hfree => exact hfree e he hid
    | moving hd hfree => exact hfree e he hid
    | writing hd hloaded hfree => exact hfree e he hid
  · exact h.free e he hid
  · exact h.free e he hid

variable {as : List Step}

/-- The rest of one tick, in which the candidate is ready. -/
structure Rest (id : Uuid) (s : DispatchRun) (as : List Step) (s' : DispatchRun) : Prop where
  ready : Along DispatchRun.step (Ready id) s as
  one : ∀ a ∈ as, ∀ ranking, a ≠ .listApproved ranking
  run : run DispatchRun.step s as = some s'

theorem Rest.cons {a : Step} (h : Rest id s (a :: as) s') :
    Ready id s a ∧ (∀ ranking, a ≠ .listApproved ranking) ∧
      ∃ t, s.step a = some t ∧ Rest id t as s' := by
  obtain ⟨t, ht, hrun⟩ := run_cons_eq_some.mp h.run
  obtain ⟨hready, hrest⟩ := along_cons.mp h.ready
  exact ⟨hready, h.one a List.mem_cons_self, t, ht, hrest t ht,
    fun b hb => h.one b (List.mem_cons_of_mem a hb), hrun⟩

theorem Past.undisturbed (h : Past id s.tick) (hrest : Rest id s as s') :
    Along DispatchRun.step (Undisturbed id) s as := by
  induction as generalizing s with
  | nil => trivial
  | cons a as ih =>
    obtain ⟨hready, hone, t, ht, hrest'⟩ := hrest.cons
    refine along_cons.mpr ⟨fun hwaiting => absurd hwaiting h.not_waiting, ?_⟩
    intro t' ht'
    obtain rfl := Option.some.inj (ht.symm.trans ht')
    refine ih ?_ hrest'
    rcases h with h | h | h
    · rcases (h.step hready ht).2 with hbusy | hsending
      · exact Or.inl hbusy
      · exact Or.inr (Or.inl hsending.1)
    · rcases h.step hready ht with hsending | hgone
      · exact Or.inr (Or.inl hsending.1)
      · exact Or.inr (Or.inr hgone.1)
    · exact Or.inr (Or.inr (h.step hready hone ht).1)

theorem Gone.commands_run (h : Gone id s.tick) (hrest : Rest id s as s') :
    commands id s' = commands id s := by
  induction as generalizing s with
  | nil =>
    obtain rfl := Option.some.inj hrest.run
    rfl
  | cons a as ih =>
    obtain ⟨hready, hone, t, ht, hrest'⟩ := hrest.cons
    obtain ⟨hgone, hsame⟩ := h.step hready hone ht
    rw [ih hgone hrest', hsame]

theorem Sending.commands_run (h : Sending id s.tick) (hrest : Rest id s as s')
    (hend : s'.tick = .idle) : commands id s < commands id s' := by
  induction as generalizing s with
  | nil =>
    obtain rfl := Option.some.inj hrest.run
    have hcurrent := h.current
    rw [hend] at hcurrent
    cases hcurrent
  | cons a as ih =>
    obtain ⟨hready, hone, t, ht, hrest'⟩ := hrest.cons
    rcases h.step hready ht with ⟨hsending, hsame⟩ | ⟨hgone, hone'⟩
    · rw [← hsame]
      exact ih hsending hrest'
    · rw [hgone.commands_run hrest', hone']
      exact Nat.lt_succ_self _

/-- What a run does after its first step is done in the whole run. -/
theorem Dispatched.cons {t : DispatchRun} (ht : s.step a = some t)
    (hsame : commands id t = commands id s) (h : Dispatched id t as s') :
    Dispatched id s (a :: as) s' := by
  obtain ⟨⟨pre, u, hpre, hrun, hjoining⟩, hcommanded⟩ := h
  refine ⟨⟨a :: pre, u, ?_, ?_, hjoining⟩, hsame ▸ hcommanded⟩
  · obtain ⟨post, rfl⟩ := hpre
    exact ⟨post, rfl⟩
  · exact run_cons_eq_some.mpr ⟨t, ht, hrun⟩

theorem Busy.dispatched_run (h : Busy id s.tick) (hrest : Rest id s as s')
    (hend : s'.tick = .idle) : Dispatched id s as s' := by
  induction as generalizing s with
  | nil =>
    obtain rfl := Option.some.inj hrest.run
    rw [hend] at h
    cases h
  | cons a as ih =>
    obtain ⟨hready, hone, t, ht, hrest'⟩ := hrest.cons
    obtain ⟨hsame, hbusy | ⟨hsending, hjoining⟩⟩ := h.step hready ht
    · exact (ih hbusy hrest').cons ht hsame
    · refine ⟨⟨[a], t, ⟨as, rfl⟩, run_cons_eq_some.mpr ⟨t, ht, rfl⟩, hjoining⟩, ?_⟩
      rw [← hsame]
      exact hsending.commands_run hrest' hend

/-- What raises leaves the tick. -/
theorem Raises.idle (h : s.Raises a) (hstep : s.step a = some s') : s'.tick = .idle := by
  cases a with
  | abort =>
    obtain rfl := Option.some.inj hstep
    rfl
  | move =>
    obtain ⟨artifact, d, queue, htick, hload⟩ := h
    simp only [DispatchRun.step, htick, hload] at hstep
    obtain rfl := Option.some.inj hstep
    rfl
  | _ => cases h

theorem Ahead.waiting {p : DispatchPhase} (h : Ahead id p) : p.Waiting id := by
  obtain ⟨pre, c, post, hlater, hc, -⟩ := h.later
  exact ⟨(c, .approved), by rw [hlater]; simp, hc⟩

theorem Ahead.ne_idle {p : DispatchPhase} (h : Ahead id p) : p ≠ .idle := by
  rintro rfl
  obtain ⟨e, ⟨⟩, -⟩ := h.waiting

/-- A candidate that gets its command is not waiting when something raises. -/
theorem Ahead.undisturbed (h : Ahead id s.tick) (hrest : Rest id s as s')
    (hcommanded : commands id s < commands id s') :
    Along DispatchRun.step (Undisturbed id) s as := by
  induction as generalizing s with
  | nil => trivial
  | cons a as ih =>
    obtain ⟨hready, hone, t, ht, hrest'⟩ := hrest.cons
    obtain ⟨hsame, hnext⟩ := h.step hready hone ht
    refine along_cons.mpr ⟨?_, ?_⟩
    · intro _ hraises
      have hidle := hraises.idle ht
      rcases hnext with hahead | hbusy | ⟨-, hgone⟩
      · exact hahead.ne_idle hidle
      · rw [hidle] at hbusy
        cases hbusy
      · rw [hgone.commands_run hrest', hsame] at hcommanded
        exact absurd hcommanded (Nat.lt_irrefl _)
    · intro t' ht'
      obtain rfl := Option.some.inj (ht.symm.trans ht')
      rcases hnext with hahead | hbusy | ⟨-, hgone⟩
      · exact ih hahead hrest' (hsame ▸ hcommanded)
      · exact Past.undisturbed (Or.inl hbusy) hrest'
      · exact Past.undisturbed (Or.inr (Or.inr hgone)) hrest'

/-- The tick comes to a candidate if nothing raises while it is waiting. -/
theorem Ahead.dispatched_run (h : Ahead id s.tick) (hrest : Rest id s as s')
    (hend : s'.tick = .idle) (hundisturbed : Along DispatchRun.step (Undisturbed id) s as) :
    Dispatched id s as s' := by
  induction as generalizing s with
  | nil =>
    obtain rfl := Option.some.inj hrest.run
    exact absurd hend h.ne_idle
  | cons a as ih =>
    obtain ⟨hready, hone, t, ht, hrest'⟩ := hrest.cons
    obtain ⟨hsame, hnext⟩ := h.step hready hone ht
    obtain ⟨hquiet, hundisturbed'⟩ := along_cons.mp hundisturbed
    rcases hnext with hahead | hbusy | ⟨hraises, -⟩
    · exact (ih hahead hrest' (hundisturbed' t ht)).cons ht hsame
    · exact (hbusy.dispatched_run hrest' hend).cons ht hsame
    · exact absurd hraises (hquiet h.waiting)

/-- The approved candidates are listed once each. -/
theorem listed_ahead_or_gone {ranking : List Uuid} (hranking : ranking.Nodup)
    (hfit : ∃ c, s.candidates.get id = some c ∧ c.Fit) :
    if id ∈ (listCandidates s.candidates ranking .approved).map (·.id) then
      Ahead id (.listed (listCandidates s.candidates ranking .approved))
    else Gone id (.listed (listCandidates s.candidates ranking .approved)) := by
  have hget : ∀ c ∈ ranking.filterMap s.candidates.get, s.candidates.get c.id = some c := by
    intro c hc
    obtain ⟨k, -, hk⟩ := List.mem_filterMap.mp hc
    rw [(Table.get_eq_some.mp hk).2]
    exact hk
  have hsub : (listCandidates s.candidates ranking .approved).Sublist
      (ranking.filterMap s.candidates.get) :=
    (List.take_sublist _ _).trans List.filter_sublist
  have hnodup : ((listCandidates s.candidates ranking .approved).map (·.id)).Nodup := by
    have hrows : (ranking.filterMap s.candidates.get).Nodup := by
      apply hranking.filterMap
      intro k k' c hc hc'
      rw [← (Table.get_eq_some.mp hc).2, (Table.get_eq_some.mp hc').2]
    apply (List.nodup_map_iff_inj_on (hrows.sublist hsub)).mpr
    intro c hc c' hc' hid
    have hsame := hget c (hsub.subset hc)
    rw [hid, hget c' (hsub.subset hc')] at hsame
    exact (Option.some.inj hsame).symm
  split_ifs with hmem
  · obtain ⟨c, hc, hid⟩ := List.mem_map.mp hmem
    obtain ⟨row, hrow, hrowfit⟩ := hfit
    have hrow' := hget c (hsub.subset hc)
    rw [hid, hrow] at hrow'
    obtain rfl := Option.some.inj hrow'
    obtain ⟨pre, post, hsplit⟩ := List.append_of_mem hc
    rw [hsplit] at hnodup ⊢
    rw [List.map_append, List.map_cons, List.nodup_append] at hnodup
    obtain ⟨-, hpost, hpre⟩ := hnodup
    refine ⟨by rintro ⟨⟩, pre.map fun c => (c, .approved), row, post.map fun c => (c, .approved),
      ?_, hid, hrowfit, ?_, ?_⟩
    · rw [DispatchPhase.later, List.map_append, List.map_cons]
    · intro e he heid
      obtain ⟨c', hc', rfl⟩ := List.mem_map.mp he
      exact hpre c'.id (List.mem_map_of_mem hc') row.id List.mem_cons_self (heid.trans hid.symm)
    · intro e he heid
      obtain ⟨c', hc', rfl⟩ := List.mem_map.mp he
      apply (List.nodup_cons.mp hpost).1
      exact List.mem_map.mpr ⟨c', hc', heid.trans hid.symm⟩
  · refine ⟨by rintro ⟨⟩, ?_⟩
    intro e he hid
    obtain ⟨c, hc, rfl⟩ := List.mem_map.mp he
    exact hmem (List.mem_map.mpr ⟨c, hc, hid⟩)

/-- A candidate that is ready to join gets its command in a tick exactly when it is among the
approved candidates that the tick lists and nothing raises before its turn. -/
theorem dispatched_iff {ranking : List Uuid} (hidle : s.tick = .idle) (hranking : ranking.Nodup)
    (hready : Along DispatchRun.step (Ready id) s (.listApproved ranking :: as))
    (hone : ∀ a ∈ as, ∀ ranking, a ≠ .listApproved ranking)
    (hrun : run DispatchRun.step s (.listApproved ranking :: as) = some s')
    (hend : s'.tick = .idle) :
    Dispatched id s (.listApproved ranking :: as) s' ↔
      id ∈ (listCandidates s.candidates ranking .approved).map (·.id) ∧
        Along DispatchRun.step (Undisturbed id) s (.listApproved ranking :: as) := by
  obtain ⟨t, ht, hrun'⟩ := run_cons_eq_some.mp hrun
  obtain ⟨hfirst, hrest⟩ := along_cons.mp hready
  have hrest' : Rest id t as s' := ⟨hrest t ht, hone, hrun'⟩
  have hlisted := listed_ahead_or_gone hranking (hfirst.approved (Or.inl ⟨ranking, rfl⟩))
  have hstep := ht
  simp only [DispatchRun.step, hidle] at hstep
  obtain rfl := Option.some.inj hstep
  have hquiet : ∀ hnext : Along DispatchRun.step (Undisturbed id)
      { s with tick := .listed (listCandidates s.candidates ranking .approved) } as,
      Along DispatchRun.step (Undisturbed id) s (.listApproved ranking :: as) := by
    intro hnext
    refine along_cons.mpr ⟨fun _ => by rintro ⟨⟩, ?_⟩
    intro t' ht'
    obtain rfl := Option.some.inj (ht.symm.trans ht')
    exact hnext
  by_cases hmem : id ∈ (listCandidates s.candidates ranking .approved).map (·.id)
  · rw [if_pos hmem] at hlisted
    constructor
    · intro h
      exact ⟨hmem, hquiet (Ahead.undisturbed hlisted hrest' h.commanded)⟩
    · rintro ⟨-, hundisturbed⟩
      exact (Ahead.dispatched_run hlisted hrest' hend ((along_cons.mp hundisturbed).2 _ ht)).cons ht
        rfl
  · rw [if_neg hmem] at hlisted
    refine iff_of_false ?_ fun h => hmem h.1
    intro h
    have hcommanded := h.commanded
    rw [Gone.commands_run hlisted hrest'] at hcommanded
    exact absurd hcommanded (Nat.lt_irrefl _)

/-- The steps of a tick over one candidate. -/
def wholeTick : List Step :=
  [.listJoining [3], .next true true, .judge true, .lease, .choose none, .move, .write, .audit,
    .publish, .next true true]

/-- The candidate stays ready through that tick. -/
theorem wholeTick_ready :
    Along DispatchRun.step (Ready 3) (init scoutStore approvedStore)
      (.listApproved [3] :: wholeTick) := by
  have hfit : GroupCandidate.Fit ⟨3, 1, "-100", ⟨.approved, none, none, none, some 4, none⟩⟩ :=
    ⟨rfl, by rintro ⟨⟩⟩
  refine ⟨⟨fun _ => ⟨_, rfl, hfit⟩, trivial⟩, ⟨fun _ => ⟨_, rfl, hfit⟩, trivial⟩,
    ⟨fun _ => ⟨_, rfl, hfit⟩, fun _ => Or.inl rfl⟩, ⟨fun _ => ⟨_, rfl, hfit⟩, fun _ => rfl⟩,
    ⟨fun _ => ⟨_, rfl, hfit⟩, ?_⟩, ⟨fun _ => ⟨_, rfl, hfit⟩, trivial⟩,
    ⟨fun _ => ⟨_, rfl, hfit⟩, trivial⟩, ⟨fun _ => ⟨_, rfl, hfit⟩, trivial⟩, ⟨?_, trivial⟩,
    ⟨?_, ?_⟩, ⟨?_, fun h => nomatch h⟩, trivial⟩
  · rintro c queue htick -
    cases htick
    decide
  · rintro (⟨_, ⟨⟩⟩ | ⟨⟨⟩⟩ | ⟨_, ⟨⟩, _⟩ | ⟨_, ⟨⟩⟩)
  · rintro (⟨_, ⟨⟩⟩ | ⟨⟨⟩⟩ | ⟨_, ⟨⟩, _⟩ | ⟨_, ⟨⟩⟩)
  · rintro artifact d queue htick -
    cases htick
    decide
  · rintro (⟨_, ⟨⟩⟩ | ⟨⟨⟩⟩ | ⟨_, ⟨⟩, _⟩ | ⟨⟨⟩, _⟩)

theorem dispatched_iff_whole_tick :
    ∃ s', run DispatchRun.step (init scoutStore approvedStore)
        (.listApproved [3] :: wholeTick) = some s' ∧
      (Dispatched 3 (init scoutStore approvedStore) (.listApproved [3] :: wholeTick) s' ↔
        3 ∈ (listCandidates approvedStore [3] .approved).map (·.id) ∧
          Along DispatchRun.step (Undisturbed 3) (init scoutStore approvedStore)
            (.listApproved [3] :: wholeTick)) :=
  ⟨_, rfl, dispatched_iff rfl (by decide) wholeTick_ready
    (by rintro a ha ranking rfl; simp [wholeTick] at ha) rfl rfl⟩

/-- Two approved candidates of the source of one scout. -/
def twoApproved : Table GroupCandidate.id :=
  ⟨[⟨3, 1, "-100", ⟨.approved, none, none, none, some 4, none⟩⟩,
    ⟨5, 1, "-200", ⟨.approved, none, none, none, some 4, none⟩⟩], by decide⟩

/-- The mentions of the first candidate cannot be read, and the second gets no command. -/
theorem second_candidate_left :
    ∃ s', run DispatchRun.step (init scoutStore twoApproved)
        [.listApproved [3, 5], .listJoining [3, 5], .abort] = some s' ∧ s'.tick = .idle ∧
      Along DispatchRun.step (Ready 5) (init scoutStore twoApproved)
        [.listApproved [3, 5], .listJoining [3, 5], .abort] ∧
      ¬Dispatched 5 (init scoutStore twoApproved)
        [.listApproved [3, 5], .listJoining [3, 5], .abort] s' := by
  have hfit : GroupCandidate.Fit ⟨5, 1, "-200", ⟨.approved, none, none, none, some 4, none⟩⟩ :=
    ⟨rfl, by rintro ⟨⟩⟩
  refine ⟨_, rfl, rfl, ⟨⟨fun _ => ⟨_, rfl, hfit⟩, trivial⟩, ⟨fun _ => ⟨_, rfl, hfit⟩, trivial⟩,
    ⟨fun _ => ⟨_, rfl, hfit⟩, ?_⟩, trivial⟩, ?_⟩
  · intro hcurrent
    exact absurd hcurrent (by decide)
  · intro h
    exact absurd h.commanded (by decide)

end DispatchRun

end Eyenet
