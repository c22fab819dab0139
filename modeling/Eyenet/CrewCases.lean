import Eyenet.Case
import Eyenet.Crews
import Eyenet.Machine

/-!
# Cases for crews

`open_cases_for_big_crews` opens a case for every crew that is large and has a high score
(`linker/crew_cases.py`). A crew is known by a key, its first shared indicator or a hash of its
members; a case that has the key is taken for the crew's. The case, its owner and each of its
members are a transaction each, and a run can be cut short between any two of them.

* `CrewSweep.finished_sound_iff` — when the cases are right at the end of a run.
* `CrewSweep.cases_sound_iff` — exactly when every run that completes leaves them right.
-/

namespace Eyenet

open Machine

/-! ## Keys and titles -/

/-- The prefixes that `_pretty` replaces. -/
def prettyPrefixes : List (String × String) :=
  [("handle:", "@"), ("tme:", "t.me/"), ("wallet_trx:", "TRX "), ("wallet_evm:", "EVM ")]

/-- `_pretty` -/
def prettyInfra (tok : String) : String :=
  match prettyPrefixes.find? fun p => p.1.toList.isPrefixOf tok.toList with
  | some p => p.2 ++ String.ofList (tok.toList.drop p.1.length)
  | none => tok

/-- `crew_key_for`, with the hexadecimal digest as a parameter. -/
def crewKeyFor (sha256 : String → String) (topInfra : List String) (members : List Uuid) :
    String :=
  match topInfra with
  | top :: _ => top
  | [] =>
    let digest := sha256 (",".intercalate ((members.map uuidText).insertionSort (· ≤ ·)))
    "crew:" ++ String.ofList (digest.toList.take 16)

/-- The key of a crew. -/
def Crew.key (sha256 : String → String) (c : Crew) : String :=
  crewKeyFor sha256 c.topInfra c.members

/-- `crew_case_title` -/
def crewCaseTitle (topInfra : List String) (size : ℕ) : String :=
  match topInfra with
  | top :: _ => "Crew · " ++ prettyInfra top
  | [] => "Crew of " ++ toString size ++ " accounts"

/-- The description of a crew's case. -/
def crewCaseDescription (topInfra : List String) : String :=
  if topInfra = [] then "Shared-infrastructure crew."
  else "Auto-derived from a shared-infrastructure crew. Shared indicators: " ++
    ", ".intercalate ((topInfra.take 8).map prettyInfra)

/-- The reason that the members are added for. -/
def crewMemberReason : String := "crew member (shared infrastructure)"

/-! ## The store -/

namespace CaseStore

/-- `get_case_by_crew_key` -/
def getCaseByCrewKey (s : CaseStore) (crewKey : String) : Option CaseRow :=
  s.cases.rows.find? fun c => c.crewKey = some crewKey

/-- The case has the key. -/
def Keyed (s : CaseStore) (caseId : Uuid) (crewKey : String) : Prop :=
  ∃ c ∈ s.cases, c.id = caseId ∧ c.crewKey = some crewKey

/-- The actor is an active member of the case. -/
def HasActor (s : CaseStore) (caseId actorId : Uuid) : Prop :=
  ∃ m ∈ s.members, m.ActiveOn caseId ∧ m.IsSubject .actor actorId

/-- All actors of the crew are active members of the case. -/
def Covers (s : CaseStore) (caseId : Uuid) (c : Crew) : Prop :=
  ∀ a ∈ c.members, s.HasActor caseId a

variable {s s' : CaseStore} {caseId actorId : Uuid} {crewKey crewKey' : String}

theorem Keyed.key_eq (h : s.Keyed caseId crewKey) (h' : s.Keyed caseId crewKey') :
    crewKey = crewKey' := by
  obtain ⟨c, hc, hid, hkey⟩ := h
  obtain ⟨c', hc', hid', hkey'⟩ := h'
  obtain rfl : c = c' := Table.eq_of_key hc hc' (hid.trans hid'.symm)
  exact Option.some.inj (hkey.symm.trans hkey')

theorem getCaseByCrewKey_eq_none : s.getCaseByCrewKey crewKey = none ↔
    ∀ caseId, ¬ s.Keyed caseId crewKey := by
  simp only [getCaseByCrewKey, List.find?_eq_none, decide_eq_true_eq, Keyed, not_exists, not_and]
  exact ⟨fun h _ c hc _ hkey => h c hc hkey, fun h c hc hkey => h c.id c hc rfl hkey⟩

/-- A case is created, or the call raises: before the row is inserted, or for the contract after
that. -/
theorem createCase_cases (s : CaseStore) (newId : Uuid) (title : String)
    (description : Option String) (openedByUserId : Uuid) (now : ℤ) (crewKey : Option String) :
    (∃ e, e ≠ .validationError ∧
      s.createCase newId title description openedByUserId now crewKey = (s, .error e)) ∨
    ∃ c cases, s.cases.insert c = some cases ∧ c.id = newId ∧ c.crewKey = crewKey ∧
      (s.createCase newId title description openedByUserId now crewKey =
          ({ s with cases := cases }, .ok c) ∨
        s.createCase newId title description openedByUserId now crewKey =
          ({ s with cases := cases }, .error .validationError)) := by
  rw [createCase]
  split_ifs
  · refine Or.inl ⟨_, ?_, rfl⟩
    rintro ⟨⟩
  · rw [insertCase]
    split
    · refine Or.inl ⟨_, ?_, rfl⟩
      rintro ⟨⟩
    · next cases hinsert =>
      refine Or.inr ⟨_, cases, hinsert, rfl, rfl, ?_⟩
      rw [caseRow]
      split_ifs
      · exact Or.inl rfl
      · exact Or.inr rfl

/-- An inserted case has its key, and the others keep theirs. -/
theorem keyed_insert {c : CaseRow} {cases : Table CaseRow.id} (h : s.cases.insert c = some cases)
    (hkey : c.crewKey = some crewKey') :
    Keyed { s with cases := cases } caseId crewKey ↔
      s.Keyed caseId crewKey ∨ (caseId = c.id ∧ crewKey = crewKey') := by
  simp only [Keyed, Table.mem_insert h]
  refine ⟨?_, ?_⟩
  · rintro ⟨c', hc' | rfl, hid, hkey'⟩
    · exact Or.inl ⟨c', hc', hid, hkey'⟩
    · exact Or.inr ⟨hid.symm, Option.some.inj (hkey'.symm.trans hkey)⟩
  · rintro (⟨c', hc', hid, hkey'⟩ | ⟨rfl, rfl⟩)
    · exact ⟨c', Or.inl hc', hid, hkey'⟩
    · exact ⟨c, Or.inr rfl, rfl, hkey⟩

theorem not_keyed_of_insert {c : CaseRow} {cases : Table CaseRow.id}
    (h : s.cases.insert c = some cases) : ¬ s.Keyed c.id crewKey := by
  rintro ⟨c', hc', hid, -⟩
  exact Table.get_eq_none.mp (Table.insert_eq_some h).1 c' hc' hid

/-- The tier of a case has no part in its key. -/
theorem keyed_maybeEmitTierChange {id : Uuid} :
    (s.maybeEmitTierChange id).Keyed caseId crewKey ↔ s.Keyed caseId crewKey := by
  rw [maybeEmitTierChange]
  cases hget : s.cases.get id with
  | none => exact Iff.rfl
  | some c =>
    obtain ⟨hc, hid⟩ := Table.get_eq_some.mp hget
    dsimp only
    split_ifs
    · exact Iff.rfl
    · set c' : CaseRow := { c with effectiveTier := s.recomputeEffectiveTier id } with hc'
      have hid' : c'.id = c.id := rfl
      simp only [Keyed, Table.mem_put hc hid']
      refine ⟨?_, ?_⟩
      · rintro ⟨x, rfl | ⟨hx, -⟩, hxid, hxkey⟩
        · exact ⟨c, hc, hxid, hxkey⟩
        · exact ⟨x, hx, hxid, hxkey⟩
      · rintro ⟨x, hx, hxid, hxkey⟩
        by_cases heq : x = c
        · subst heq
          exact ⟨c', Or.inl rfl, hxid, hxkey⟩
        · exact ⟨x, Or.inr ⟨hx, heq⟩, hxid, hxkey⟩

/-- A member of a crew is added, or the call raises and changes nothing. -/
theorem addCrewMember_cases (s : CaseStore) (newId caseId actorId addedByUserId : Uuid) (now : ℤ) :
    (∃ e, s.addCaseMember newId caseId .actor actorId addedByUserId crewMemberReason now =
      (s, .error e)) ∨
    ∃ m members, s.members.insert m = some members ∧ m.ActiveOn caseId ∧
      m.IsSubject .actor actorId ∧
      s.addCaseMember newId caseId .actor actorId addedByUserId crewMemberReason now =
        (maybeEmitTierChange { s with members := members } caseId, .ok m) := by
  rw [addCaseMember]
  cases hnew : s.newCaseMember newId caseId .actor actorId addedByUserId crewMemberReason now with
  | error e => exact Or.inl ⟨e, rfl⟩
  | ok m =>
    obtain ⟨-, -, hactive, hsubject⟩ := newCaseMember_ok hnew
    have hreadable : m.readable = true := by
      rw [newCaseMember, if_neg (by decide)] at hnew
      cases hget : s.cases.get caseId with
      | none =>
        rw [hget] at hnew
        cases hnew
      | some c =>
        simp only [hget] at hnew
        split_ifs at hnew
        obtain rfl := Except.ok.inj hnew
        have hlength : minReasonLen ≤ crewMemberReason.length ∧
            crewMemberReason.length ≤ maxReasonLen := by decide
        simp [CaseMemberRow.readable, hlength, Triplet.readable, Triplet.null]
    dsimp only
    cases hinsert : s.members.insert m with
    | none => exact Or.inl ⟨_, rfl⟩
    | some members =>
      refine Or.inr ⟨m, members, hinsert, hactive, hsubject, ?_⟩
      dsimp only
      rw [memberRow, if_pos hreadable]

/-- A member that is added is there, and the others stay. -/
theorem hasActor_insert {m : CaseMemberRow} {members : Table CaseMemberRow.id} {id a : Uuid}
    (h : s.members.insert m = some members) (hactive : m.ActiveOn id)
    (hsubject : m.IsSubject .actor a) :
    (maybeEmitTierChange { s with members := members } id).HasActor caseId actorId ↔
      s.HasActor caseId actorId ∨ (caseId = id ∧ actorId = a) := by
  simp only [HasActor, members_maybeEmitTierChange, Table.mem_insert h]
  refine ⟨?_, ?_⟩
  · rintro ⟨x, hx | rfl, hxactive, hxsubject⟩
    · exact Or.inl ⟨x, hx, hxactive, hxsubject⟩
    · exact Or.inr ⟨hxactive.1.symm.trans hactive.1, hxsubject.2.symm.trans hsubject.2⟩
  · rintro (⟨x, hx, hxactive, hxsubject⟩ | ⟨rfl, rfl⟩)
    · exact ⟨x, Or.inl hx, hxactive, hxsubject⟩
    · exact ⟨m, Or.inr rfl, hactive, hsubject⟩

/-- A collaborator has no part in keys and members. -/
theorem addCaseCollaborator_same (s : CaseStore) (caseId newId userId grantedByUserId : Uuid)
    (role : CaseRoleOnCase) (now : ℤ) :
    (s.addCaseCollaborator newId caseId userId role grantedByUserId now).1.cases = s.cases ∧
      (s.addCaseCollaborator newId caseId userId role grantedByUserId now).1.members =
        s.members := by
  obtain heq | ⟨_, _, -, -, heq⟩ :=
    s.addCaseCollaborator_cases newId caseId userId role grantedByUserId now <;> rw [heq]
  · exact ⟨rfl, rfl⟩
  · exact ⟨rfl, rfl⟩

end CaseStore

/-! ## Runs -/

/-- `_EDGE_LIMIT` -/
def edgeLimit : ℕ := 100000

/-- The proposed linkages of the method `shared_infra` as the query orders them, fewer than it is
limited to. -/
structure SharedInfra where
  edges : List CrewEdge
  few : edges.length < edgeLimit

namespace SharedInfra

/-- `_load_crews` -/
def loadCrews (links : SharedInfra) : List Crew := buildCrews (links.edges.take edgeLimit)

/-- The crews of all linkages. -/
def crews (links : SharedInfra) : List Crew := buildCrews links.edges

theorem loadCrews_eq (links : SharedInfra) : links.loadCrews = links.crews := by
  rw [loadCrews, crews, List.take_of_length_le links.few.le]

end SharedInfra

/-- The arguments of a run, and how many cases it has opened. -/
structure CrewRun where
  minSize : ℕ
  minScore : ℚ
  openedByUserId : Uuid
  opened : ℕ
  deriving DecidableEq

/-- The crew is large, and its score is high. -/
def CrewRun.Wants (r : CrewRun) (c : Crew) : Prop :=
  r.minSize ≤ c.members.length ∧ r.minScore ≤ c.maxScore

instance (r : CrewRun) (c : Crew) : Decidable (r.Wants c) := inferInstanceAs (Decidable (_ ∧ _))

/-- Where a run stands: at the next crew, after the case of a crew was created, or at the next
member. -/
inductive CrewSweepPhase where
  | idle
  | sweeping (r : CrewRun) (todo : List Crew)
  | opening (r : CrewRun) (crew : Crew) (caseId : Uuid) (todo : List Crew)
  | adding (r : CrewRun) (crew : Crew) (caseId : Uuid) (actors : List Uuid) (todo : List Crew)
  | finished (r : CrewRun)
  deriving DecidableEq

/-- The crew that a case was created for. -/
structure Opening where
  caseId : Uuid
  crew : Crew
  deriving DecidableEq

/-- The opening that is in progress, with the actors that are not members yet. -/
def CrewSweepPhase.current : CrewSweepPhase → Option (Opening × List Uuid)
  | .opening _ crew caseId _ => some (⟨caseId, crew⟩, crew.members)
  | .adding _ crew caseId actors _ => some (⟨caseId, crew⟩, actors)
  | _ => none

/-- The run, and the crews that it has not come to. -/
def CrewSweepPhase.pending : CrewSweepPhase → Option (CrewRun × List Crew)
  | .sweeping r todo | .opening r _ _ todo | .adding r _ _ _ todo => some (r, todo)
  | .finished r => some (r, [])
  | .idle => none

/-- The store and the run. The last two fields record what was opened, and which cases a run left
before their last member. -/
structure CrewSweep where
  store : CaseStore
  phase : CrewSweepPhase
  openings : List Opening
  abandoned : List Uuid

namespace CrewSweep

/-- A run begins, makes its next call, or is cut short. -/
inductive Step where
  | start (minSize : ℕ) (minScore : ℚ) (openedByUserId : Uuid)
  | call (newId : Uuid) (now : ℤ)
  | cut

/-- Before the first run. -/
def init : CrewSweep := ⟨.init, .idle, [], []⟩

/-- The run ends where it stands. -/
def stop (s : CrewSweep) : CrewSweep :=
  { s with
    phase := .idle
    abandoned :=
      match s.phase.current with
      | some (o, _ :: _) => o.caseId :: s.abandoned
      | _ => s.abandoned }

section Model

variable (sha256 : String → String) (links : SharedInfra)

/-- The case that `open_case_for_crew` creates. -/
def openCase (s : CrewSweep) (r : CrewRun) (crew : Crew) (todo : List Crew) (newId : Uuid)
    (now : ℤ) : CrewSweep :=
  let reply := s.store.createCase newId (crewCaseTitle crew.topInfra crew.members.length)
    (some (crewCaseDescription crew.topInfra)) r.openedByUserId now (some (crew.key sha256))
  let created : CrewSweep :=
    { s with
      store := reply.1
      phase := .opening r crew newId todo
      openings := ⟨newId, crew⟩ :: s.openings }
  match reply.2 with
  | .ok _ => created
  -- the row is stored by now
  | .error .validationError => created.stop
  | .error _ => { s with store := reply.1 }.stop

/-- The next call of `open_cases_for_big_crews` and `open_case_for_crew`. Both look the key up, and
nothing comes between. A call that raises ends the run. -/
def call (s : CrewSweep) (newId : Uuid) (now : ℤ) : CrewSweep :=
  match s.phase with
  | .sweeping r [] => { s with phase := .finished r }
  | .sweeping r (crew :: todo) =>
    if r.Wants crew ∧ s.store.getCaseByCrewKey (crew.key sha256) = none then
      s.openCase sha256 r crew todo newId now
    else { s with phase := .sweeping r todo }
  | .opening r crew caseId todo =>
    let reply := s.store.addCaseCollaborator newId caseId r.openedByUserId .owner r.openedByUserId
      now
    match reply.2 with
    | .ok _ => { s with store := reply.1, phase := .adding r crew caseId crew.members todo }
    | .error _ => { s with store := reply.1, phase := .opening r crew caseId todo }.stop
  | .adding r _ _ [] todo => { s with phase := .sweeping { r with opened := r.opened + 1 } todo }
  | .adding r crew caseId (actorId :: actors) todo =>
    let reply := s.store.addCaseMember newId caseId .actor actorId r.openedByUserId
      crewMemberReason now
    match reply.2 with
    | .ok _ => { s with store := reply.1, phase := .adding r crew caseId actors todo }
    | .error _ => { s with store := reply.1 }.stop
  | .idle | .finished _ => s

/-- One step. A run begins when no other one is going on. -/
def step (s : CrewSweep) : Step → Option CrewSweep
  | .start minSize minScore openedByUserId =>
    match s.phase with
    | .idle | .finished _ =>
      some { s with phase := .sweeping ⟨minSize, minScore, openedByUserId, 0⟩ links.loadCrews }
    | _ => some s
  | .call newId now => some (s.call sha256 newId now)
  | .cut =>
    match s.phase with
    | .finished _ => some s
    | _ => some s.stop

/-- What is expected when a run completes: a case with its actors for each crew that the run
wants, not one for two of them, and nothing to open for the next run. -/
structure Sound (s : CrewSweep) (r : CrewRun) : Prop where
  covered : ∀ c ∈ links.crews, r.Wants c → ∃ row ∈ s.store.cases, s.store.Covers row.id c
  unshared : ∀ c ∈ links.crews, ∀ d ∈ links.crews, r.Wants c → r.Wants d →
    ∀ row ∈ s.store.cases, s.store.Covers row.id c → s.store.Covers row.id d → c = d
  settled : ∀ (openedByUserId : Uuid) (calls : List (Uuid × ℤ)) (t : CrewSweep),
    run (step sha256 links) s (.start r.minSize r.minScore openedByUserId ::
        calls.map fun x => .call x.1 x.2) = some t →
      t.store = s.store ∧ ∀ r', t.phase = .finished r' → r'.opened = 0

/-- No case that has the key of a crew that the run wants was created for another crew, or was
left before its last member. -/
def Unspoiled (s : CrewSweep) (r : CrewRun) : Prop :=
  ∀ c ∈ links.crews, r.Wants c → ∀ o ∈ s.openings, o.crew.key sha256 = c.key sha256 →
    o.crew = c ∧ o.caseId ∉ s.abandoned

/-- When a run completes, the cases are unspoiled. -/
def CompletesUnspoiled (s : CrewSweep) : Step → Prop
  | .call _ _ =>
    match s.phase with
    | .sweeping r [] => s.Unspoiled sha256 links r
    | _ => True
  | _ => True

end Model

variable {sha256 : String → String} {links : SharedInfra} {s s' : CrewSweep} {a : Step}
  {r : CrewRun} {o o' : Opening} {c : Crew}

/-! ## The invariant -/

/-- What holds however the runs are cut. -/
structure Inv (sha256 : String → String) (links : SharedInfra) (s : CrewSweep) : Prop where
  keyed : ∀ id key, s.store.Keyed id key ↔
    ∃ o ∈ s.openings, o.caseId = id ∧ o.crew.key sha256 = key
  unique : ∀ o ∈ s.openings, ∀ o' ∈ s.openings, o.crew.key sha256 = o'.crew.key sha256 → o = o'
  crews : ∀ o ∈ s.openings, o.crew ∈ links.crews
  actors : ∀ id a, s.store.HasActor id a → ∃ o ∈ s.openings, o.caseId = id ∧ a ∈ o.crew.members
  built : ∀ o ∈ s.openings, o.caseId ∉ s.abandoned →
    (∀ actors, s.phase.current ≠ some (o, actors)) → s.store.Covers o.caseId o.crew
  left : ∀ o ∈ s.openings, o.caseId ∈ s.abandoned → ¬ s.store.Covers o.caseId o.crew
  abandoned : ∀ id ∈ s.abandoned, ∃ o ∈ s.openings, o.caseId = id
  progress : ∀ o actors, s.phase.current = some (o, actors) →
    o ∈ s.openings ∧ o.caseId ∉ s.abandoned ∧ actors.Nodup ∧ actors ⊆ o.crew.members ∧
      ∀ a ∈ o.crew.members, s.store.HasActor o.caseId a ↔ a ∉ actors
  visited : ∀ r todo, s.phase.pending = some (r, todo) → todo ⊆ links.crews ∧
    ∀ c ∈ links.crews, r.Wants c → c ∈ todo ∨ ∃ o ∈ s.openings, o.crew.key sha256 = c.key sha256

theorem inv_init : Inv sha256 links init where
  keyed id key := by
    refine iff_of_false ?_ ?_
    · rintro ⟨c, hc, -⟩
      exact absurd hc (Table.not_mem_empty c)
    · rintro ⟨o, ho, -⟩
      exact absurd ho List.not_mem_nil
  unique _ ho := absurd ho List.not_mem_nil
  crews _ ho := absurd ho List.not_mem_nil
  actors _ _ h := by
    obtain ⟨m, hm, -⟩ := h
    exact absurd hm (Table.not_mem_empty m)
  built _ ho := absurd ho List.not_mem_nil
  left _ ho := absurd ho List.not_mem_nil
  abandoned _ h := absurd h List.not_mem_nil
  progress _ _ h := by cases h
  visited _ _ h := by cases h

/-- A case was created for one crew. -/
theorem Inv.eq_of_caseId (h : Inv sha256 links s) (ho : o ∈ s.openings) (ho' : o' ∈ s.openings)
    (hid : o.caseId = o'.caseId) : o = o' := by
  refine h.unique o ho o' ho' ?_
  have hkeyed := (h.keyed o.caseId _).mpr ⟨o, ho, rfl, rfl⟩
  exact hkeyed.key_eq ((h.keyed o.caseId _).mpr ⟨o', ho', hid.symm, rfl⟩)

/-- A run that ends leaves the opening in progress, unless all its members are there. -/
theorem Inv.stop (h : Inv sha256 links s) : Inv sha256 links s.stop := by
  have hmarked : ∀ id, id ∈ s.stop.abandoned → id ∈ s.abandoned ∨
      ∃ o a actors, s.phase.current = some (o, a :: actors) ∧ o.caseId = id := by
    intro id hid
    simp only [CrewSweep.stop] at hid
    split at hid
    · next o a actors hcurrent =>
      rcases List.mem_cons.mp hid with rfl | hold
      · exact Or.inr ⟨o, a, actors, hcurrent, rfl⟩
      · exact Or.inl hold
    · exact Or.inl hid
  constructor
  case keyed => exact h.keyed
  case unique => exact h.unique
  case crews => exact h.crews
  case actors => exact h.actors
  case built =>
    intro o ho hkept _
    have hbuilt := h.built o ho
    by_cases hcurrent : ∃ actors, s.phase.current = some (o, actors)
    · obtain ⟨actors, hactors⟩ := hcurrent
      obtain ⟨-, -, -, -, hmembers⟩ := h.progress o actors hactors
      cases actors with
      | nil => exact fun a ha => (hmembers a ha).mpr List.not_mem_nil
      | cons a actors =>
        refine absurd ?_ hkept
        simp only [CrewSweep.stop, hactors]
        exact List.mem_cons_self
    · refine hbuilt (fun hin => hkept ?_) (not_exists.mp hcurrent)
      simp only [CrewSweep.stop]
      split
      · exact List.mem_cons_of_mem _ hin
      · exact hin
  case left =>
    intro o ho hin
    rcases hmarked o.caseId hin with hold | ⟨o', a, actors, hcurrent, hid⟩
    · exact h.left o ho hold
    · obtain ⟨ho', -, -, hsub, hmembers⟩ := h.progress o' _ hcurrent
      obtain rfl := h.eq_of_caseId ho ho' hid.symm
      intro hcovers
      have ha := hsub List.mem_cons_self
      exact (hmembers a ha).mp (hcovers a ha) List.mem_cons_self
  case abandoned =>
    intro id hid
    rcases hmarked id hid with hold | ⟨o, a, actors, hcurrent, rfl⟩
    · exact h.abandoned id hold
    · exact ⟨o, (h.progress o _ hcurrent).1, rfl⟩
  case progress => rintro o actors ⟨⟩
  case visited => rintro r todo ⟨⟩

/-- A step that moves on to other crews, with no opening in progress any more. -/
theorem Inv.move (h : Inv sha256 links s) {phase : CrewSweepPhase}
    (hdone : ∀ o actors, s.phase.current = some (o, actors) → actors = [])
    (hcurrent : phase.current = none)
    (hpending : ∀ r todo, phase.pending = some (r, todo) → todo ⊆ links.crews ∧
      ∀ c ∈ links.crews, r.Wants c →
        c ∈ todo ∨ ∃ o ∈ s.openings, o.crew.key sha256 = c.key sha256) :
    Inv sha256 links { s with phase := phase } := by
  refine { h with built := ?_, progress := ?_, visited := hpending }
  · intro o ho hkept _
    by_cases hin : ∃ actors, s.phase.current = some (o, actors)
    · obtain ⟨actors, hactors⟩ := hin
      obtain rfl := hdone o actors hactors
      obtain ⟨-, -, -, -, hmembers⟩ := h.progress o _ hactors
      exact fun a ha => (hmembers a ha).mpr List.not_mem_nil
    · exact h.built o ho hkept (not_exists.mp hin)
  · intro o actors hphase
    rw [hcurrent] at hphase
    cases hphase

/-- A case is created for a crew whose key no case has. -/
theorem Inv.create (h : Inv sha256 links s) {row : CaseRow} {cases : Table CaseRow.id}
    {todo : List Crew} (hphase : s.phase = .sweeping r (c :: todo))
    (hfree : ∀ id, ¬ s.store.Keyed id (c.key sha256))
    (hinsert : s.store.cases.insert row = some cases) (hkey : row.crewKey = some (c.key sha256)) :
    Inv sha256 links ⟨{ s.store with cases := cases }, .opening r c row.id todo,
      ⟨row.id, c⟩ :: s.openings, s.abandoned⟩ := by
  have hold : ∀ o ∈ s.openings, o.crew.key sha256 ≠ c.key sha256 := by
    intro o ho heq
    exact hfree o.caseId ((h.keyed _ _).mpr ⟨o, ho, rfl, heq⟩)
  have hnew : ∀ o ∈ s.openings, o.caseId ≠ row.id := by
    intro o ho heq
    exact CaseStore.not_keyed_of_insert hinsert (heq ▸ (h.keyed _ _).mpr ⟨o, ho, rfl, rfl⟩)
  have hcrew : c ∈ links.crews := (h.visited r _ (by rw [hphase]; rfl)).1 List.mem_cons_self
  have hnone : ∀ a, ¬ s.store.HasActor row.id a := by
    intro a ha
    obtain ⟨o, ho, hid, -⟩ := h.actors row.id a ha
    exact hnew o ho hid
  have hkept : row.id ∉ s.abandoned := by
    intro hin
    obtain ⟨o, ho, hid⟩ := h.abandoned _ hin
    exact hnew o ho hid
  constructor
  case keyed =>
    intro id key
    rw [CaseStore.keyed_insert hinsert hkey, h.keyed, List.exists_mem_cons_iff, or_comm]
    exact or_congr_left (and_congr eq_comm eq_comm)
  case unique =>
    intro o ho o' ho' heq
    rcases List.mem_cons.mp ho with rfl | ho <;> rcases List.mem_cons.mp ho' with rfl | ho'
    · rfl
    · exact absurd heq.symm (hold o' ho')
    · exact absurd heq (hold o ho)
    · exact h.unique o ho o' ho' heq
  case crews =>
    intro o ho
    rcases List.mem_cons.mp ho with rfl | ho
    · exact hcrew
    · exact h.crews o ho
  case actors =>
    intro id a ha
    obtain ⟨o, ho, hid, hmem⟩ := h.actors id a ha
    exact ⟨o, List.mem_cons_of_mem _ ho, hid, hmem⟩
  case built =>
    intro o ho hin hcurrent
    rcases List.mem_cons.mp ho with rfl | ho
    · exact absurd rfl (hcurrent c.members)
    · refine h.built o ho hin fun actors hactors => ?_
      rw [hphase] at hactors
      cases hactors
  case left =>
    intro o ho hin
    rcases List.mem_cons.mp ho with rfl | ho
    · exact absurd hin hkept
    · exact h.left o ho hin
  case abandoned =>
    intro id hid
    obtain ⟨o, ho, heq⟩ := h.abandoned id hid
    exact ⟨o, List.mem_cons_of_mem _ ho, heq⟩
  case progress =>
    rintro o actors ⟨⟩
    refine ⟨List.mem_cons_self, hkept, Crew.nodup_members hcrew, List.Subset.refl _, ?_⟩
    exact fun a ha => iff_of_false (hnone a) (not_not.mpr ha)
  case visited =>
    rintro r' todo' ⟨⟩
    obtain ⟨hsub, hvisited⟩ := h.visited r _ (by rw [hphase]; rfl)
    refine ⟨fun d hd => hsub (List.mem_cons_of_mem _ hd), fun d hd hwants => ?_⟩
    rcases hvisited d hd hwants with hin | ⟨o, ho, heq⟩
    · rcases List.mem_cons.mp hin with rfl | hin
      · exact Or.inr ⟨_, List.mem_cons_self, rfl⟩
      · exact Or.inl hin
    · exact Or.inr ⟨o, List.mem_cons_of_mem _ ho, heq⟩

/-- Keys and members are all that the invariant reads of the store. -/
theorem Inv.of_store (h : Inv sha256 links s) {store : CaseStore} {phase : CrewSweepPhase}
    (hcases : store.cases = s.store.cases) (hmembers : store.members = s.store.members)
    (hcurrent : phase.current = s.phase.current) (hpending : phase.pending = s.phase.pending) :
    Inv sha256 links { s with store := store, phase := phase } := by
  have hkeyed : ∀ id key, store.Keyed id key ↔ s.store.Keyed id key := by
    intro id key
    rw [CaseStore.Keyed, hcases]
    rfl
  have hactor : ∀ id a, store.HasActor id a ↔ s.store.HasActor id a := by
    intro id a
    rw [CaseStore.HasActor, hmembers]
    rfl
  constructor
  case unique => exact h.unique
  case crews => exact h.crews
  case abandoned => exact h.abandoned
  case keyed => exact fun id key => (hkeyed id key).trans (h.keyed id key)
  case actors => exact fun id a ha => h.actors id a ((hactor id a).mp ha)
  case built =>
    intro o ho hkept hother a ha
    exact (hactor _ _).mpr (h.built o ho hkept (hcurrent ▸ hother) a ha)
  case left =>
    intro o ho hin hcovers
    exact h.left o ho hin fun a ha => (hactor _ _).mp (hcovers a ha)
  case progress =>
    intro o actors hphase
    obtain ⟨ho, hkept, hnodup, hsub, hiff⟩ := h.progress o actors (hcurrent ▸ hphase)
    exact ⟨ho, hkept, hnodup, hsub, fun a ha => (hactor _ _).trans (hiff a ha)⟩
  case visited => exact fun r todo hphase => h.visited r todo (hpending ▸ hphase)

/-- The next member is added. -/
theorem Inv.addMember (h : Inv sha256 links s) {store : CaseStore} {caseId actorId : Uuid}
    {actors : List Uuid} {todo : List Crew}
    (hphase : s.phase = .adding r c caseId (actorId :: actors) todo)
    (hkeyed : ∀ id key, store.Keyed id key ↔ s.store.Keyed id key)
    (hactor : ∀ id a, store.HasActor id a ↔
      s.store.HasActor id a ∨ (id = caseId ∧ a = actorId)) :
    Inv sha256 links { s with store := store, phase := .adding r c caseId actors todo } := by
  have hcurrent : s.phase.current = some (⟨caseId, c⟩, actorId :: actors) := by rw [hphase]; rfl
  obtain ⟨ho, hkept, hnodup, hsub, hiff⟩ := h.progress _ _ hcurrent
  constructor
  case unique => exact h.unique
  case crews => exact h.crews
  case abandoned => exact h.abandoned
  case keyed => exact fun id key => (hkeyed id key).trans (h.keyed id key)
  case actors =>
    intro id a ha
    rcases (hactor id a).mp ha with hold | ⟨rfl, rfl⟩
    · exact h.actors id a hold
    · exact ⟨_, ho, rfl, hsub List.mem_cons_self⟩
  case built =>
    intro o ho hin hother a ha
    refine (hactor _ _).mpr (Or.inl (h.built o ho hin (fun actors' hactors => ?_) a ha))
    rw [hcurrent] at hactors
    cases hactors
    exact hother _ rfl
  case left =>
    intro o' ho' hin hcovers
    -- the case that gets the member was not left
    refine h.left o' ho' hin fun a ha => ((hactor _ _).mp (hcovers a ha)).resolve_right ?_
    rintro ⟨hid, -⟩
    exact hkept (hid ▸ hin)
  case progress =>
    rintro o' actors' ⟨⟩
    obtain ⟨hhead, htail⟩ := List.nodup_cons.mp hnodup
    refine ⟨ho, hkept, htail, fun a ha => hsub (List.mem_cons_of_mem _ ha), fun a ha => ?_⟩
    rw [hactor, hiff a ha, List.mem_cons, not_or, and_iff_right rfl]
    by_cases heq : a = actorId
    · subst heq
      exact iff_of_true (Or.inr rfl) hhead
    · rw [or_iff_left heq, and_iff_right heq]
  case visited =>
    rintro r' todo' ⟨⟩
    exact h.visited r todo (by rw [hphase]; rfl)

/-! ## Steps -/

/-- The run goes on to the next crew, as this one has a case or is not wanted. -/
theorem Inv.skip (h : Inv sha256 links s) {todo : List Crew}
    (hphase : s.phase = .sweeping r (c :: todo))
    (hseen : r.Wants c → ∃ o ∈ s.openings, o.crew.key sha256 = c.key sha256) :
    Inv sha256 links { s with phase := .sweeping r todo } := by
  obtain ⟨hsub, hvisited⟩ := h.visited r _ (by rw [hphase]; rfl)
  refine h.move (fun o actors hcurrent => ?_) rfl ?_
  · rw [hphase] at hcurrent
    cases hcurrent
  · rintro r' todo' ⟨⟩
    refine ⟨fun d hd => hsub (List.mem_cons_of_mem _ hd), fun d hd hwants => ?_⟩
    rcases hvisited d hd hwants with hin | hopened
    · rcases List.mem_cons.mp hin with rfl | hin
      · exact Or.inr (hseen hwants)
      · exact Or.inl hin
    · exact Or.inr hopened

/-- A crew whose key a case has was come to. -/
theorem Inv.exists_of_ne_none (h : Inv sha256 links s) {key : String}
    (hrow : s.store.getCaseByCrewKey key ≠ none) :
    ∃ o ∈ s.openings, o.crew.key sha256 = key := by
  by_contra hnone
  refine hrow (CaseStore.getCaseByCrewKey_eq_none.mpr fun id hkeyed => hnone ?_)
  obtain ⟨o, ho, -, hkey⟩ := (h.keyed id key).mp hkeyed
  exact ⟨o, ho, hkey⟩

theorem Inv.call (h : Inv sha256 links s) (newId : Uuid) (now : ℤ) :
    Inv sha256 links (s.call sha256 newId now) := by
  rw [CrewSweep.call]
  split
  · next r hphase =>
    refine h.move (fun o actors hcurrent => ?_) rfl ?_
    · rw [hphase] at hcurrent
      cases hcurrent
    · rintro r' todo ⟨⟩
      exact h.visited r [] (by rw [hphase]; rfl)
  · next r c todo hphase =>
    split_ifs with hopen
    · have hfree := CaseStore.getCaseByCrewKey_eq_none.mp hopen.2
      rw [openCase]
      obtain ⟨e, he, heq⟩ | ⟨row, cases, hinsert, rfl, hrowkey, heq | heq⟩ :=
        s.store.createCase_cases newId (crewCaseTitle c.topInfra c.members.length)
          (some (crewCaseDescription c.topInfra)) r.openedByUserId now (some (c.key sha256)) <;>
        rw [heq]
      · cases e with
        | validationError => exact absurd rfl he
        | integrityError => exact h.stop
        | caseError message => exact h.stop
      · exact h.create hphase hfree hinsert hrowkey
      · exact (h.create hphase hfree hinsert hrowkey).stop
    · exact h.skip hphase fun hwants => h.exists_of_ne_none fun hnone => hopen ⟨hwants, hnone⟩
  · next r c caseId todo hphase =>
    obtain ⟨hcases, hmembers⟩ := s.store.addCaseCollaborator_same caseId newId r.openedByUserId
      r.openedByUserId .owner now
    dsimp only
    split
    · refine h.of_store hcases hmembers ?_ ?_ <;> rw [hphase] <;> rfl
    · refine (h.of_store hcases hmembers ?_ ?_).stop <;> rw [hphase]
  · next r c caseId todo hphase =>
    refine h.move (fun o actors hcurrent => ?_) rfl ?_
    · rw [hphase] at hcurrent
      cases hcurrent
      rfl
    · rintro r' todo' ⟨⟩
      exact h.visited r todo (by rw [hphase]; rfl)
  · next r c caseId actorId actors todo hphase =>
    dsimp only
    obtain ⟨e, heq⟩ | ⟨m, members, hinsert, hactive, hsubject, heq⟩ :=
      s.store.addCrewMember_cases newId caseId actorId r.openedByUserId now <;> rw [heq]
    · exact h.stop
    · exact h.addMember hphase (fun _ _ => CaseStore.keyed_maybeEmitTierChange)
        fun _ _ => CaseStore.hasActor_insert hinsert hactive hsubject
  · exact h
  · exact h

theorem Inv.step (h : Inv sha256 links s) (hstep : step sha256 links s a = some s') :
    Inv sha256 links s' := by
  cases a with
  | start minSize minScore openedByUserId =>
    have hbegin : s.phase.current = none →
        Inv sha256 links
          { s with phase := .sweeping ⟨minSize, minScore, openedByUserId, 0⟩ links.loadCrews } := by
      intro hnone
      refine h.move (fun o actors hcurrent => ?_) rfl ?_
      · rw [hnone] at hcurrent
        cases hcurrent
      · rintro r todo ⟨⟩
        rw [links.loadCrews_eq]
        exact ⟨List.Subset.refl _, fun c hc _ => Or.inl hc⟩
    simp only [CrewSweep.step] at hstep
    split at hstep <;> obtain rfl := Option.some.inj hstep
    · next hphase => exact hbegin (by rw [hphase]; rfl)
    · next hphase => exact hbegin (by rw [hphase]; rfl)
    · exact h
  | call newId now => exact Option.some.inj hstep ▸ h.call newId now
  | cut =>
    simp only [CrewSweep.step] at hstep
    split at hstep <;> obtain rfl := Option.some.inj hstep
    · exact h
    · exact h.stop

/-- A run is at its end after a step when it was before, or when it has no crew left. -/
theorem finished_of_step (hstep : step sha256 links s a = some s')
    (hphase : s'.phase = .finished r) :
    s' = s ∨ (s.phase = .sweeping r [] ∧ (∃ newId now, a = .call newId now) ∧
      s' = { s with phase := .finished r }) := by
  cases a with
  | start minSize minScore openedByUserId =>
    simp only [CrewSweep.step] at hstep
    split at hstep <;> obtain rfl := Option.some.inj hstep
    · cases hphase
    · cases hphase
    · exact Or.inl rfl
  | call newId now =>
    obtain rfl := Option.some.inj hstep
    rw [CrewSweep.call] at hphase ⊢
    split at hphase
    · next hsweep =>
      cases hphase
      exact Or.inr ⟨hsweep, ⟨newId, now, rfl⟩, rfl⟩
    · split_ifs at hphase
      · rw [openCase] at hphase
        split at hphase <;> cases hphase
    · dsimp only at hphase
      split at hphase <;> cases hphase
    · cases hphase
    · dsimp only at hphase
      split at hphase <;> cases hphase
    · exact Or.inl rfl
    · exact Or.inl rfl
  | cut =>
    simp only [CrewSweep.step] at hstep
    split at hstep <;> obtain rfl := Option.some.inj hstep
    · exact Or.inl rfl
    · cases hphase

/-! ## The end of a run -/

/-- A crew is covered by the case that was created for it, and by no other. -/
theorem Inv.exists_opening (h : Inv sha256 links s) {id : Uuid} (hc : c ∈ links.crews)
    (hcovers : s.store.Covers id c) : ∃ o ∈ s.openings, o.caseId = id ∧ o.crew = c := by
  have htwo := Crew.two_le_length hc
  obtain ⟨a, ha⟩ := List.exists_mem_of_length_pos (Nat.lt_of_lt_of_le Nat.two_pos htwo)
  obtain ⟨o, ho, hid, hmem⟩ := h.actors id a (hcovers a ha)
  exact ⟨o, ho, hid, Crew.eq_of_mem (h.crews o ho) hc hmem ha⟩

/-- The run wants what `r` wanted, and has opened nothing. -/
structure Quiet (links : SharedInfra) (store : CaseStore) (r : CrewRun) (s : CrewSweep) : Prop where
  store_eq : s.store = store
  phase : ∃ r', r'.minSize = r.minSize ∧ r'.minScore = r.minScore ∧ r'.opened = 0 ∧
    ((∃ todo, todo ⊆ links.crews ∧ s.phase = .sweeping r' todo) ∨ s.phase = .finished r')

/-- Where the crews that a run wants have cases, it opens none. -/
theorem Quiet.call {store : CaseStore} (h : Quiet links store r s)
    (htaken : ∀ c ∈ links.crews, r.Wants c → store.getCaseByCrewKey (c.key sha256) ≠ none)
    (newId : Uuid) (now : ℤ) : Quiet links store r (s.call sha256 newId now) := by
  obtain ⟨rfl, r', hsize, hscore, hopened, ⟨todo, hsub, hphase⟩ | hphase⟩ := h
  · rw [CrewSweep.call, hphase]
    cases todo with
    | nil => exact ⟨rfl, r', hsize, hscore, hopened, Or.inr rfl⟩
    | cons c todo =>
      dsimp only
      rw [if_neg]
      · exact ⟨rfl, r', hsize, hscore, hopened,
          Or.inl ⟨todo, fun d hd => hsub (List.mem_cons_of_mem _ hd), rfl⟩⟩
      rintro ⟨hwants, hnone⟩
      rw [CrewRun.Wants, hsize, hscore] at hwants
      exact htaken c (hsub List.mem_cons_self) hwants hnone
  · rw [CrewSweep.call, hphase]
    exact ⟨rfl, r', hsize, hscore, hopened, Or.inr hphase⟩

/-- The next run wants what the last one wanted, and finds a case for each crew. -/
theorem Inv.settled (h : Inv sha256 links s) (hphase : s.phase = .finished r)
    (openedByUserId : Uuid) (calls : List (Uuid × ℤ)) {t : CrewSweep}
    (hrun : run (CrewSweep.step sha256 links) s (.start r.minSize r.minScore openedByUserId ::
      calls.map fun x => .call x.1 x.2) = some t) :
    t.store = s.store ∧ ∀ r', t.phase = .finished r' → r'.opened = 0 := by
  have htaken : ∀ c ∈ links.crews, r.Wants c →
      s.store.getCaseByCrewKey (c.key sha256) ≠ none := by
    intro c hc hwants hnone
    have hseen := (h.visited r [] (by rw [hphase]; rfl)).2 c hc hwants
    obtain ⟨o, ho, hkey⟩ := hseen.resolve_left List.not_mem_nil
    exact CaseStore.getCaseByCrewKey_eq_none.mp hnone o.caseId
      ((h.keyed _ _).mpr ⟨o, ho, rfl, hkey⟩)
  obtain ⟨u, hu, hrest⟩ := run_cons_eq_some.mp hrun
  have hquiet : Quiet links s.store r u := by
    simp only [CrewSweep.step, hphase] at hu
    obtain rfl := Option.some.inj hu
    refine ⟨rfl, ⟨r.minSize, r.minScore, openedByUserId, 0⟩, rfl, rfl, rfl, Or.inl ?_⟩
    exact ⟨links.loadCrews, links.loadCrews_eq ▸ List.Subset.refl _, rfl⟩
  have hend : Quiet links s.store r t := by
    clear hu hrun
    induction calls generalizing u with
    | nil => exact Option.some.inj hrest ▸ hquiet
    | cons x calls ih =>
      obtain ⟨v, hv, hrest⟩ := run_cons_eq_some.mp hrest
      exact ih v hrest (Option.some.inj hv ▸ hquiet.call htaken x.1 x.2)
  obtain ⟨hstore, r'', -, -, hopened, hlast⟩ := hend
  refine ⟨hstore, fun r' hr' => ?_⟩
  rcases hlast with ⟨todo, -, hsweep⟩ | hfinished
  · rw [hsweep] at hr'
    cases hr'
  · rw [hfinished] at hr'
    cases hr'
    exact hopened

/-- **At the end of a run** the cases are right exactly when they are unspoiled. -/
theorem finished_sound_iff (h : Inv sha256 links s) (hphase : s.phase = .finished r) :
    s.Sound sha256 links r ↔ s.Unspoiled sha256 links r := by
  refine ⟨?_, ?_⟩
  · intro hsound c hc hwants o ho hkey
    obtain ⟨row, -, hcovers⟩ := hsound.covered c hc hwants
    obtain ⟨o', ho', hid, rfl⟩ := h.exists_opening hc hcovers
    obtain rfl := h.unique o ho o' ho' hkey
    exact ⟨rfl, fun hin => h.left o ho hin (hid ▸ hcovers)⟩
  · intro hunspoiled
    constructor
    case covered =>
      intro c hc hwants
      have hseen := (h.visited r [] (by rw [hphase]; rfl)).2 c hc hwants
      obtain ⟨o, ho, hkey⟩ := hseen.resolve_left List.not_mem_nil
      obtain ⟨rfl, hkept⟩ := hunspoiled c hc hwants o ho hkey
      obtain ⟨row, hrow, hid, -⟩ := (h.keyed o.caseId _).mpr ⟨o, ho, rfl, rfl⟩
      refine ⟨row, hrow, hid ▸ h.built o ho hkept fun actors hcurrent => ?_⟩
      rw [hphase] at hcurrent
      cases hcurrent
    case unshared =>
      intro c hc d hd _ _ row _ hcoversC hcoversD
      obtain ⟨o, ho, hid, rfl⟩ := h.exists_opening hc hcoversC
      obtain ⟨o', ho', hid', rfl⟩ := h.exists_opening hd hcoversD
      rw [h.eq_of_caseId ho ho' (hid.trans hid'.symm)]
    case settled => exact h.settled hphase

/-- Every run that has completed left the cases right. -/
def Complete (sha256 : String → String) (links : SharedInfra) (s : CrewSweep) : Prop :=
  ∀ r, s.phase = .finished r → s.Sound sha256 links r

theorem complete_step_iff (h : Inv sha256 links s) (hcomplete : s.Complete sha256 links)
    (hstep : CrewSweep.step sha256 links s a = some s') :
    s'.Complete sha256 links ↔ s.CompletesUnspoiled sha256 links a := by
  have hinv := h.step hstep
  refine ⟨?_, ?_⟩
  · intro hcomplete'
    cases a with
    | call newId now =>
      simp only [CompletesUnspoiled]
      split
      · next r hphase =>
        have heq : s' = { s with phase := .finished r } := by
          rw [← Option.some.inj hstep, CrewSweep.call, hphase]
        have hsound := hcomplete' r (by rw [heq])
        have hunspoiled := (finished_sound_iff hinv (by rw [heq])).mp hsound
        rw [heq] at hunspoiled
        exact hunspoiled
      · trivial
    | start => trivial
    | cut => trivial
  · intro hunspoiled r hphase
    obtain rfl | ⟨hsweep, ⟨newId, now, rfl⟩, heq⟩ := finished_of_step hstep hphase
    · exact hcomplete r hphase
    · simp only [CompletesUnspoiled, hsweep] at hunspoiled
      refine (finished_sound_iff hinv hphase).mpr ?_
      rw [heq]
      exact hunspoiled

/-! ## All histories -/

theorem exists_step (sha256 : String → String) (links : SharedInfra) (s : CrewSweep) (a : Step) :
    ∃ s', CrewSweep.step sha256 links s a = some s' := by
  cases a <;> simp only [CrewSweep.step] <;> (try split) <;> exact ⟨_, rfl⟩

/-- **Cases for crews.** Every run that completes leaves the cases right exactly when, at its end,
no case with the key of a crew that it wants was created for another crew or left before its last
member. -/
theorem cases_sound_iff (sha256 : String → String) (links : SharedInfra) (as : List Step) :
    Throughout (CrewSweep.step sha256 links) (Complete sha256 links) init as ↔
      Along (CrewSweep.step sha256 links)
        (fun s a => s.CompletesUnspoiled sha256 links a) init as := by
  obtain ⟨s', hrun⟩ := exists_run (exists_step sha256 links) init as
  refine throughout_iff_along
    (I := fun s => Inv sha256 links s ∧ Complete sha256 links s) And.right ?_ ?_
    ⟨inv_init, fun r hr => by cases hr⟩ hrun
  · rintro s a t ⟨hinv, hcomplete⟩ hunspoiled hstep
    exact ⟨hinv.step hstep, (complete_step_iff hinv hcomplete hstep).mpr hunspoiled⟩
  · rintro s a t ⟨hinv, hcomplete⟩ hstep hcomplete'
    exact (complete_step_iff hinv hcomplete hstep).mp hcomplete'

/-! ## A shared indicator and a run that is cut -/

instance (s : CaseStore) (caseId actorId : Uuid) : Decidable (s.HasActor caseId actorId) :=
  inferInstanceAs (Decidable (∃ m ∈ s.members, m.ActiveOn caseId ∧ m.IsSubject .actor actorId))

/-- Two pairs of accounts with one indicator, and no linkage between the pairs. -/
def twoPairs : SharedInfra where
  edges := [⟨1, 2, 9 / 10, ["handle:x"]⟩, ⟨3, 4, 9 / 10, ["handle:x"]⟩]
  few := by decide

/-- One pair of accounts. -/
def onePair : SharedInfra where
  edges := [⟨1, 2, 9 / 10, ["handle:x"]⟩]
  few := by decide

/-- A run opens a case for the first pair and takes it for that of the second. -/
def sharedRun : List Step :=
  .start 2 (4 / 5) 9 :: [10, 11, 12, 13, 0, 0, 0].map fun id => .call id 0

/-- A run is cut short when it has created a case, and the next one completes. -/
def cutRun : List Step :=
  [.start 2 (4 / 5) 9, .call 10 0, .cut, .start 2 (4 / 5) 9, .call 0 0, .call 0 0]

/-- A crew that is wanted, one of whose members is in no case. -/
theorem not_complete {calls : List Step} {x : Uuid}
    (hcrew : ∃ c ∈ links.crews, r.Wants c ∧ x ∈ c.members)
    (hrun : ∃ s, run (CrewSweep.step sha256 links) init calls = some s ∧ s.phase = .finished r ∧
      ∀ row ∈ s.store.cases, ¬ s.store.HasActor row.id x) :
    ¬ Throughout (CrewSweep.step sha256 links) (Complete sha256 links) init calls := by
  obtain ⟨c, hc, hwants, hmem⟩ := hcrew
  obtain ⟨s, hrun, hphase, hnone⟩ := hrun
  intro h
  have hsound := h calls (List.prefix_refl _) s hrun _ hphase
  obtain ⟨row, hrow, hcovers⟩ := hsound.covered c hc hwants
  exact hnone row hrow (hcovers x hmem)

/-- The second pair has no case, and the pair of the run that was cut has one without members. -/
theorem shared_key_and_cut_run :
    ¬ Throughout (CrewSweep.step id twoPairs) (Complete id twoPairs) init sharedRun ∧
      ¬ Throughout (CrewSweep.step id onePair) (Complete id onePair) init cutRun := by
  refine ⟨?_, ?_⟩
  · refine not_complete (r := ⟨2, 4 / 5, 9, 1⟩) (x := 3) ?_ ?_ <;> decide +kernel
  · refine not_complete (r := ⟨2, 4 / 5, 9, 0⟩) (x := 1) ?_ ?_ <;> decide +kernel

end CrewSweep

end Eyenet
