import Eyenet.GeoCountry
import Eyenet.Machine
import Eyenet.Table
import Mathlib.Data.List.MinMax
import Mathlib.Data.List.Sort
import Mathlib.Data.List.Perm.Subperm

/-!
# Verdicts on the side

`GeoAttributionService` (`services/geo_attribution.py`) attributes a country to each message that
was flagged as an incident, and to each forum thread by its first post. The verdicts are kept in
tables of their own, and the queues hold what has no verdict yet.

* `GeoSidecars.sidecars_of_quiescent` — when both queues are empty, each flagged message and each
  thread has exactly one verdict, that of what was stored when its batch was read.
* `GeoSidecars.exists_insertAll_geo`, `GeoSidecars.exists_insertAll_summaries` — an insert never
  conflicts.
* `GeoSidecars.unlocked_body_stale` — what is stored may have changed since.
-/

namespace Eyenet

namespace GeoSidecars

variable {M G : Type} [LinearOrder M] [DecidableEq G]

/-! ## Tables -/

/-- A row of `message`, as far as it is read here. -/
structure Message (M G : Type) where
  id : M
  groupId : G
  evidenceRef : String
  body : String
  sentAtSource : ℤ
  deriving DecidableEq

/-- A row of `group_`. -/
structure Group (G : Type) where
  id : G
  isForumThread : Bool
  currentTitle : Option String
  deriving DecidableEq

/-- `MessageGeoTable` -/
structure MessageGeo (M : Type) where
  messageId : M
  country : Option String
  status : CountryStatus
  decidedBy : Option GeoCheck
  engineVersion : String
  classifiedAt : ℤ
  deriving DecidableEq

/-- `ThreadSummaryTable` -/
structure ThreadSummary (M G : Type) where
  groupId : G
  opMessageId : M
  opSentAt : ℤ
  victimCountry : Option String
  victimStatus : CountryStatus
  engineVersion : String
  computedAt : ℤ
  deriving DecidableEq

/-- The tables; of `incident` the messages, and of `incident_label` the labels of each. A message
has one verdict at most, and so has a thread. -/
structure Db (M G : Type) where
  messages : Table (Message.id (M := M) (G := G))
  groups : Table (Group.id (G := G))
  incidents : List M
  labels : Table (Prod.fst : M × List String → M)
  geo : Table (MessageGeo.messageId (M := M))
  summaries : Table (ThreadSummary.groupId (M := M) (G := G))

namespace Db

variable (db : Db M G)

/-- `put_message`: a row of a known id or evidence is refused. -/
def putMessage (row : Message M G) : Db M G :=
  if ∃ m ∈ db.messages, m.evidenceRef = row.evidenceRef then db
  else { db with messages := (db.messages.insert row).getD db.messages }

/-- `update_message_content` -/
def updateMessageContent (evidenceRef body : String) : Db M G :=
  { db with
    messages := db.messages.updateAll
      (fun m => { m with body := if m.evidenceRef = evidenceRef then body else m.body })
      fun _ => rfl }

/-- `put_incidents_bulk` -/
def putIncidents (messageIds : List M) : Db M G :=
  { db with incidents := db.incidents ++ messageIds }

/-- `set_incident_label` -/
def setIncidentLabel (messageId : M) (labels : List String) : Db M G :=
  { db with labels := db.labels.save (messageId, labels) }

/-- `title or row.current_title` -/
def orTitle (title old : Option String) : Option String := (title.filter (· ≠ "")).or old

/-- `upsert_group`, where the id stands for the source and its platform's id. -/
def upsertGroup (group : Group G) : Db M G :=
  { db with
    groups := db.groups.save
      (match db.groups.get group.id with
      | some g => { g with currentTitle := orTitle group.currentTitle g.currentTitle }
      | none => group) }

/-- A row in `incident`, or labels that an operator asserted. -/
def Flagged (messageId : M) : Prop :=
  messageId ∈ db.incidents ∨ ∃ l ∈ db.labels, l.1 = messageId ∧ l.2 ≠ []

instance (messageId : M) : Decidable (db.Flagged messageId) :=
  inferInstanceAs (Decidable (_ ∨ _))

/-- The title of a message's group. -/
def titleOf (m : Message M G) : Option String := (db.groups.get m.groupId).bind Group.currentTitle

/-- The rows of `messages_needing_geo`, in the order of their ids. -/
def needingGeo : List (Message M G) :=
  (db.messages.rows.filter fun m =>
    decide (db.Flagged m.id) && (db.geo.get m.id).isNone).insertionSort fun a b => a.id ≤ b.id

/-- `messages_needing_geo` -/
def messagesNeedingGeo (limit : ℕ) : List (M × String × Option String) :=
  (db.needingGeo.take limit).map fun m => (m.id, m.body, db.titleOf m)

/-- `put_message_geo_bulk`, in one transaction. -/
def putMessageGeo (rows : List (MessageGeo M)) : Db M G :=
  { db with geo := (db.geo.insertAll rows).getD db.geo }

/-- A post of a thread, than which no post of the thread is earlier. -/
def IsEarliest (m : Message M G) : Prop :=
  ∀ m' ∈ db.messages, m'.groupId = m.groupId → m.sentAtSource ≤ m'.sentAtSource

instance (m : Message M G) : Decidable (db.IsEarliest m) :=
  inferInstanceAs (Decidable (∀ m' ∈ db.messages, _))

/-- The rows of `forum_threads_needing_summary`: a thread and an earliest post. -/
def needingSummary : List (Group G × Message M G) :=
  (db.groups.rows.filter fun g =>
    g.isForumThread && (db.summaries.get g.id).isNone).flatMap fun g =>
    (db.messages.rows.filter fun m => decide (m.groupId = g.id) && decide (db.IsEarliest m)).map
      fun m => (g, m)

/-- What `forum_threads_needing_summary` may return; the statement has no order. -/
def ForumThreadsNeedingSummary (limit : ℕ) (page : List (Group G × Message M G)) : Prop :=
  page.Subperm db.needingSummary ∧ page.length = min limit db.needingSummary.length

instance (limit : ℕ) (page : List (Group G × Message M G)) :
    Decidable (db.ForumThreadsNeedingSummary limit page) :=
  inferInstanceAs (Decidable (_ ∧ _))

/-- `put_thread_summaries_bulk`, in one transaction. -/
def putThreadSummaries (rows : List (ThreadSummary M G)) : Db M G :=
  { db with summaries := (db.summaries.insertAll rows).getD db.summaries }

end Db

/-! ## The service -/

/-- Where the service is: between two batches, or with rows that it has yet to write. -/
inductive Phase (M G : Type)
  | idle
  | attributing (rows : List (MessageGeo M))
  | summarizing (rows : List (ThreadSummary M G))

structure State (M G : Type) where
  db : Db M G
  phase : Phase M G

/-- What happens: a write of the rest of the system, one half of a batch, or a batch that is given
up. -/
inductive Event (M G : Type)
  | putMessage (row : Message M G)
  | updateMessageContent (evidenceRef body : String)
  | putIncidents (messageIds : List M)
  | setIncidentLabel (messageId : M) (labels : List String)
  | upsertGroup (group : Group G)
  | readGeo (now : ℤ)
  | writeGeo
  | readThreads (page : List (Group G × Message M G)) (now : ℤ)
  | writeThreads
  | giveUp

section Service

variable (checks : GeoChecks) (engineVersion : String) (limit : ℕ)

/-- The row of a message, in `attribute_batch`. -/
def geoRow (now : ℤ) (p : M × String × Option String) : MessageGeo M :=
  let verdict := checks.classifyCountry p.2.1 p.2.2
  { messageId := p.1
    country := verdict.country
    status := verdict.status
    decidedBy := verdict.decidedBy
    engineVersion := engineVersion
    classifiedAt := now }

/-- The first row of each thread, in `summarize_threads_batch`. -/
def firstRows : List G → List (Group G × Message M G) → List (Group G × Message M G)
  | _, [] => []
  | seen, (g, m) :: page =>
    if g.id ∈ seen then firstRows seen page else (g, m) :: firstRows (g.id :: seen) page

/-- The row of a thread, in `summarize_threads_batch`. -/
def summaryRow (now : ℤ) (p : Group G × Message M G) : ThreadSummary M G :=
  let verdict := checks.classifyCountry p.2.body p.1.currentTitle
  { groupId := p.1.id
    opMessageId := p.2.id
    opSentAt := p.2.sentAtSource
    victimCountry := verdict.country
    victimStatus := verdict.status
    engineVersion := engineVersion
    computedAt := now }

/-- The system takes a step. A batch is read, classified and then written; other writes may come in
between. -/
def step (s : State M G) : Event M G → Option (State M G)
  | .putMessage row => some { s with db := s.db.putMessage row }
  | .updateMessageContent ref body => some { s with db := s.db.updateMessageContent ref body }
  | .putIncidents ids => some { s with db := s.db.putIncidents ids }
  | .setIncidentLabel id labels => some { s with db := s.db.setIncidentLabel id labels }
  | .upsertGroup group => some { s with db := s.db.upsertGroup group }
  | .readGeo now =>
    match s.phase with
    | .idle =>
      match s.db.messagesNeedingGeo limit with
      | [] => some s
      | pending => some ⟨s.db, .attributing (pending.map (geoRow checks engineVersion now))⟩
    | _ => none
  | .writeGeo =>
    match s.phase with
    | .attributing rows => some ⟨s.db.putMessageGeo rows, .idle⟩
    | _ => none
  | .readThreads page now =>
    match s.phase with
    | .idle =>
      if s.db.ForumThreadsNeedingSummary limit page then
        match page with
        | [] => some s
        | page =>
          some ⟨s.db, .summarizing ((firstRows [] page).map (summaryRow checks engineVersion now))⟩
      else none
    | _ => none
  | .writeThreads =>
    match s.phase with
    | .summarizing rows => some ⟨s.db.putThreadSummaries rows, .idle⟩
    | _ => none
  | .giveUp => some ⟨s.db, .idle⟩

/-! ## Where a row comes from -/

/-- A row holds a verdict. -/
def MessageGeo.Says (row : MessageGeo M) (v : CountryVerdict) : Prop :=
  row.country = v.country ∧ row.status = v.status ∧ row.decidedBy = v.decidedBy

instance (row : MessageGeo M) (v : CountryVerdict) : Decidable (row.Says v) :=
  inferInstanceAs (Decidable (_ ∧ _))

/-- A row holds a verdict. -/
def ThreadSummary.Says (row : ThreadSummary M G) (v : CountryVerdict) : Prop :=
  row.victimCountry = v.country ∧ row.victimStatus = v.status

/-- The row is the verdict on a flagged message as it is stored. -/
def AttributedIn (db : Db M G) (row : MessageGeo M) : Prop :=
  ∃ m ∈ db.messages, m.id = row.messageId ∧ db.Flagged m.id ∧
    row.Says (checks.classifyCountry m.body (db.titleOf m))

/-- The row names an earliest post of a thread, and holds the verdict on it, as it is stored. -/
def SummarizedIn (db : Db M G) (row : ThreadSummary M G) : Prop :=
  ∃ g ∈ db.groups, ∃ m ∈ db.messages, g.id = row.groupId ∧ m.groupId = g.id ∧
    m.id = row.opMessageId ∧ m.sentAtSource = row.opSentAt ∧ db.IsEarliest m ∧
    row.Says (checks.classifyCountry m.body g.currentTitle)

/-- A verdict on a message that is written, or about to be. -/
def HasGeo (s : State M G) (row : MessageGeo M) : Prop :=
  row ∈ s.db.geo ∨ ∃ rows, s.phase = .attributing rows ∧ row ∈ rows

/-- A verdict on a thread that is written, or about to be. -/
def HasSummary (s : State M G) (row : ThreadSummary M G) : Prop :=
  row ∈ s.db.summaries ∨ ∃ rows, s.phase = .summarizing rows ∧ row ∈ rows

namespace Db

variable {db : Db M G}

omit [DecidableEq G] in
theorem mem_putMessageGeo {rows : List (MessageGeo M)} {row : MessageGeo M}
    (h : row ∈ (db.putMessageGeo rows).geo) : row ∈ db.geo ∨ row ∈ rows := by
  rw [putMessageGeo] at h
  cases hinsert : db.geo.insertAll rows with
  | none =>
    rw [hinsert] at h
    exact Or.inl h
  | some geo =>
    rw [hinsert] at h
    exact (Table.mem_insertAll hinsert).mp h

omit [LinearOrder M] in
theorem mem_putThreadSummaries {rows : List (ThreadSummary M G)} {row : ThreadSummary M G}
    (h : row ∈ (db.putThreadSummaries rows).summaries) : row ∈ db.summaries ∨ row ∈ rows := by
  rw [putThreadSummaries] at h
  cases hinsert : db.summaries.insertAll rows with
  | none =>
    rw [hinsert] at h
    exact Or.inl h
  | some summaries =>
    rw [hinsert] at h
    exact (Table.mem_insertAll hinsert).mp h

omit [DecidableEq G] in
theorem mem_needingGeo {m : Message M G} : m ∈ db.needingGeo ↔
    m ∈ db.messages ∧ db.Flagged m.id ∧ db.geo.get m.id = none := by
  rw [needingGeo, List.mem_insertionSort, List.mem_filter, Bool.and_eq_true, decide_eq_true_eq,
    Option.isNone_iff_eq_none, Table.mem_rows]

omit [LinearOrder M] in
theorem mem_needingSummary {p : Group G × Message M G} : p ∈ db.needingSummary ↔
    (p.1 ∈ db.groups ∧ p.1.isForumThread = true ∧ db.summaries.get p.1.id = none) ∧
    p.2 ∈ db.messages ∧ p.2.groupId = p.1.id ∧ db.IsEarliest p.2 := by
  obtain ⟨g, m⟩ := p
  simp only [needingSummary, List.mem_flatMap, List.mem_filter, List.mem_map, Bool.and_eq_true,
    decide_eq_true_eq, Prod.mk.injEq, Option.isNone_iff_eq_none, Table.mem_rows]
  constructor
  · rintro ⟨g', hg, m', hm, rfl, rfl⟩
    exact ⟨hg, hm⟩
  · rintro ⟨hg, hm⟩
    exact ⟨g, hg, m, hm, rfl, rfl⟩

/-- What is flagged and not in the queue has a verdict. -/
theorem exists_geo {limit : ℕ} (hlimit : 0 < limit) (hempty : db.messagesNeedingGeo limit = [])
    {m : Message M G} (hm : m ∈ db.messages) (hflagged : db.Flagged m.id) :
    ∃ row, db.geo.get m.id = some row := by
  by_contra hnone
  have hneeds : m ∈ db.needingGeo :=
    mem_needingGeo.mpr ⟨hm, hflagged, Option.eq_none_iff_forall_ne_some.mpr (not_exists.mp hnone)⟩
  rw [messagesNeedingGeo, List.map_eq_nil_iff, List.take_eq_nil_iff] at hempty
  rcases hempty with hzero | hnil
  · omega
  · rw [hnil] at hneeds
    cases hneeds

omit [LinearOrder M] in
/-- One of the posts of a thread is an earliest one. -/
theorem exists_earliest {m : Message M G} (hm : m ∈ db.messages) :
    ∃ op ∈ db.messages, op.groupId = m.groupId ∧ db.IsEarliest op := by
  have hposts : m ∈ db.messages.rows.filter fun m' => m'.groupId = m.groupId :=
    List.mem_filter.mpr ⟨hm, decide_eq_true rfl⟩
  cases hop : (db.messages.rows.filter fun m' => m'.groupId = m.groupId).argmin
      Message.sentAtSource with
  | none =>
    rw [List.argmin_eq_none] at hop
    rw [hop] at hposts
    cases hposts
  | some op =>
    obtain ⟨hmem, hgroup⟩ := List.mem_filter.mp (List.argmin_mem hop)
    have hgroup := of_decide_eq_true hgroup
    refine ⟨op, hmem, hgroup, fun m' hm' heq => ?_⟩
    refine List.le_of_mem_argmin (List.mem_filter.mpr ⟨hm', ?_⟩) hop
    exact decide_eq_true (heq.trans hgroup)

omit [LinearOrder M] in
/-- A thread that has a post and is not in the queue has a verdict. -/
theorem exists_summary {limit : ℕ} (hlimit : 0 < limit)
    (hempty : db.ForumThreadsNeedingSummary limit []) {g : Group G} (hg : g ∈ db.groups)
    (hforum : g.isForumThread = true) (hpost : ∃ m ∈ db.messages, m.groupId = g.id) :
    ∃ row, db.summaries.get g.id = some row := by
  by_contra hnone
  obtain ⟨m, hm, hmg⟩ := hpost
  obtain ⟨op, hop, hopg, hearliest⟩ := exists_earliest hm
  have hneeds : (g, op) ∈ db.needingSummary :=
    mem_needingSummary.mpr ⟨⟨hg, hforum,
      Option.eq_none_iff_forall_ne_some.mpr (not_exists.mp hnone)⟩, hop, hopg.trans hmg, hearliest⟩
  have hpos := List.length_pos_of_mem hneeds
  have hlen := hempty.2
  rw [List.length_nil] at hlen
  omega

end Db

omit [LinearOrder M] in
theorem mem_firstRows {seen : List G} {page : List (Group G × Message M G)}
    {p : Group G × Message M G} (h : p ∈ firstRows seen page) : p ∈ page := by
  induction page generalizing seen with
  | nil => cases h
  | cons q page ih =>
    rw [firstRows] at h
    split_ifs at h
    · exact List.mem_cons_of_mem q (ih h)
    · exact (List.mem_cons.mp h).elim (fun h => h ▸ List.mem_cons_self)
        fun h => List.mem_cons_of_mem q (ih h)

variable {checks engineVersion limit} {s s' : State M G} {e : Event M G}

/-- A batch holds the verdicts on what is stored when it is read. -/
theorem attributedIn_of_batch {db : Db M G} {now : ℤ} {row : MessageGeo M}
    (h : row ∈ (db.messagesNeedingGeo limit).map (geoRow checks engineVersion now)) :
    AttributedIn checks db row := by
  obtain ⟨p, hp, rfl⟩ := List.mem_map.mp h
  obtain ⟨m, hm, rfl⟩ := List.mem_map.mp hp
  obtain ⟨hmem, hflagged, -⟩ := Db.mem_needingGeo.mp (List.mem_of_mem_take hm)
  exact ⟨m, hmem, rfl, hflagged, rfl, rfl, rfl⟩

omit [LinearOrder M] in
theorem summarizedIn_of_batch {db : Db M G} {page : List (Group G × Message M G)} {now : ℤ}
    {row : ThreadSummary M G} (hpage : db.ForumThreadsNeedingSummary limit page)
    (h : row ∈ (firstRows [] page).map (summaryRow checks engineVersion now)) :
    SummarizedIn checks db row := by
  obtain ⟨⟨g, m⟩, hp, rfl⟩ := List.mem_map.mp h
  obtain ⟨⟨hg, -⟩, hm, hgroup, hearliest⟩ :=
    Db.mem_needingSummary.mp (hpage.1.subset (mem_firstRows hp))
  exact ⟨g, hg, m, hm, rfl, hgroup, rfl, rfl, hearliest, rfl, rfl⟩

/-! ## What a step does -/

/-- What a step does to the verdicts and to the service. -/
inductive Effect (checks : GeoChecks) (engineVersion : String) (limit : ℕ) :
    State M G → State M G → Prop
  | outside {s s' : State M G} (hphase : s'.phase = s.phase) (hgeo : s'.db.geo = s.db.geo)
      (hsummaries : s'.db.summaries = s.db.summaries) : Effect checks engineVersion limit s s'
  | readGeo {db : Db M G} (now : ℤ) : Effect checks engineVersion limit ⟨db, .idle⟩
      ⟨db, .attributing ((db.messagesNeedingGeo limit).map (geoRow checks engineVersion now))⟩
  | writeGeo {db : Db M G} (rows : List (MessageGeo M)) :
      Effect checks engineVersion limit ⟨db, .attributing rows⟩ ⟨db.putMessageGeo rows, .idle⟩
  | readThreads {db : Db M G} {page : List (Group G × Message M G)} (now : ℤ)
      (hpage : db.ForumThreadsNeedingSummary limit page) :
      Effect checks engineVersion limit ⟨db, .idle⟩
        ⟨db, .summarizing ((firstRows [] page).map (summaryRow checks engineVersion now))⟩
  | writeThreads {db : Db M G} (rows : List (ThreadSummary M G)) :
      Effect checks engineVersion limit ⟨db, .summarizing rows⟩ ⟨db.putThreadSummaries rows, .idle⟩
  | giveUp (s : State M G) : Effect checks engineVersion limit s ⟨s.db, .idle⟩

theorem effect_of_step (h : step checks engineVersion limit s e = some s') :
    Effect checks engineVersion limit s s' := by
  obtain ⟨db, phase⟩ := s
  cases e with
  | putMessage row =>
    obtain rfl := Option.some.inj h
    rw [Db.putMessage]
    split_ifs
    · exact .outside rfl rfl rfl
    · exact .outside rfl rfl rfl
  | updateMessageContent ref body =>
    obtain rfl := Option.some.inj h
    exact .outside rfl rfl rfl
  | putIncidents ids =>
    obtain rfl := Option.some.inj h
    exact .outside rfl rfl rfl
  | setIncidentLabel id labels =>
    obtain rfl := Option.some.inj h
    exact .outside rfl rfl rfl
  | upsertGroup group =>
    obtain rfl := Option.some.inj h
    exact .outside rfl rfl rfl
  | readGeo now =>
    cases phase with
    | idle =>
      simp only [step] at h
      split at h
      · obtain rfl := Option.some.inj h
        exact .outside rfl rfl rfl
      · obtain rfl := Option.some.inj h
        exact .readGeo now
    | attributing rows => cases h
    | summarizing rows => cases h
  | writeGeo =>
    cases phase with
    | idle => cases h
    | attributing rows =>
      obtain rfl := Option.some.inj h
      exact .writeGeo rows
    | summarizing rows => cases h
  | readThreads page now =>
    cases phase with
    | idle =>
      simp only [step] at h
      split_ifs at h with hpage
      split at h
      · obtain rfl := Option.some.inj h
        exact .outside rfl rfl rfl
      · obtain rfl := Option.some.inj h
        exact .readThreads now hpage
    | attributing rows => cases h
    | summarizing rows => cases h
  | writeThreads =>
    cases phase with
    | idle => cases h
    | attributing rows => cases h
    | summarizing rows =>
      obtain rfl := Option.some.inj h
      exact .writeThreads rows
  | giveUp =>
    obtain rfl := Option.some.inj h
    exact .giveUp _

/-- A verdict on a message is made when its batch is read. -/
theorem hasGeo_of_step {row : MessageGeo M} (hstep : step checks engineVersion limit s e = some s')
    (h : HasGeo s' row) : HasGeo s row ∨ AttributedIn checks s.db row := by
  cases effect_of_step hstep with
  | outside hphase hgeo =>
    left
    rw [HasGeo, hgeo, hphase] at h
    exact h
  | readGeo now =>
    rcases h with h | ⟨rows, hrows, h⟩
    · exact Or.inl (Or.inl h)
    · obtain rfl := Phase.attributing.inj hrows
      exact Or.inr (attributedIn_of_batch h)
  | writeGeo rows =>
    rcases h with h | ⟨rows', hrows, -⟩
    · exact Or.inl ((Db.mem_putMessageGeo h).imp_right fun h => ⟨rows, rfl, h⟩)
    · cases hrows
  | readThreads now hpage =>
    rcases h with h | ⟨rows, hrows, -⟩
    · exact Or.inl (Or.inl h)
    · cases hrows
  | writeThreads rows =>
    rcases h with h | ⟨rows', hrows, -⟩
    · exact Or.inl (Or.inl h)
    · cases hrows
  | giveUp =>
    rcases h with h | ⟨rows, hrows, -⟩
    · exact Or.inl (Or.inl h)
    · cases hrows

/-- A verdict on a thread is made when its batch is read. -/
theorem hasSummary_of_step {row : ThreadSummary M G}
    (hstep : step checks engineVersion limit s e = some s') (h : HasSummary s' row) :
    HasSummary s row ∨ SummarizedIn checks s.db row := by
  cases effect_of_step hstep with
  | outside hphase _ hsummaries =>
    left
    rw [HasSummary, hsummaries, hphase] at h
    exact h
  | readGeo now =>
    rcases h with h | ⟨rows, hrows, -⟩
    · exact Or.inl (Or.inl h)
    · cases hrows
  | writeGeo rows =>
    rcases h with h | ⟨rows', hrows, -⟩
    · exact Or.inl (Or.inl h)
    · cases hrows
  | readThreads now hpage =>
    rcases h with h | ⟨rows, hrows, h⟩
    · exact Or.inl (Or.inl h)
    · obtain rfl := Phase.summarizing.inj hrows
      exact Or.inr (summarizedIn_of_batch hpage h)
  | writeThreads rows =>
    rcases h with h | ⟨rows', hrows, -⟩
    · exact Or.inl ((Db.mem_putThreadSummaries h).imp_right fun h => ⟨rows, rfl, h⟩)
    · cases hrows
  | giveUp =>
    rcases h with h | ⟨rows, hrows, -⟩
    · exact Or.inl (Or.inl h)
    · cases hrows

/-! ## The inserts -/

/-- The rows that are about to be written have keys of their own, which are free. -/
structure Clear (s : State M G) : Prop where
  geo : ∀ rows, s.phase = .attributing rows →
    (∀ row ∈ rows, s.db.geo.get row.messageId = none) ∧ (rows.map MessageGeo.messageId).Nodup
  summaries : ∀ rows, s.phase = .summarizing rows →
    (∀ row ∈ rows, s.db.summaries.get row.groupId = none) ∧
      (rows.map ThreadSummary.groupId).Nodup

theorem clear_of_idle {db : Db M G} : Clear ⟨db, .idle⟩ := by
  constructor
  · intro rows hrows
    cases hrows
  · intro rows hrows
    cases hrows

/-- A batch of messages is without a verdict, and names no message twice. -/
theorem clear_readGeo {db : Db M G} {now : ℤ} : Clear ⟨db, .attributing
    ((db.messagesNeedingGeo limit).map (geoRow checks engineVersion now))⟩ := by
  constructor
  · intro rows hrows
    obtain rfl := Phase.attributing.inj hrows
    constructor
    · intro row hrow
      obtain ⟨p, hp, rfl⟩ := List.mem_map.mp hrow
      obtain ⟨m, hm, rfl⟩ := List.mem_map.mp hp
      exact (Db.mem_needingGeo.mp (List.mem_of_mem_take hm)).2.2
    · have hids : (db.needingGeo.map Message.id).Nodup :=
        ((List.perm_insertionSort _ _).map _).nodup_iff.mpr
          (db.messages.nodup.sublist (List.filter_sublist.map _))
      rw [Db.messagesNeedingGeo, List.map_map, List.map_map]
      exact hids.sublist ((List.take_sublist limit _).map _)
  · intro rows hrows
    cases hrows

omit [LinearOrder M] in
theorem not_mem_firstRows {seen : List G} {page : List (Group G × Message M G)} {g : G}
    (h : g ∈ seen) : g ∉ (firstRows seen page).map fun p => p.1.id := by
  induction page generalizing seen with
  | nil => exact List.not_mem_nil
  | cons p page ih =>
    rw [firstRows]
    split_ifs with hseen
    · exact ih h
    · rw [List.map_cons, List.mem_cons, not_or]
      exact ⟨fun heq => hseen (heq ▸ h), ih (List.mem_cons_of_mem _ h)⟩

omit [LinearOrder M] in
/-- Of each thread there is one row. -/
theorem nodup_firstRows (seen : List G) (page : List (Group G × Message M G)) :
    ((firstRows seen page).map fun p => p.1.id).Nodup := by
  induction page generalizing seen with
  | nil => exact List.nodup_nil
  | cons p page ih =>
    rw [firstRows]
    split_ifs with hseen
    · exact ih seen
    · rw [List.map_cons]
      exact List.nodup_cons.mpr ⟨not_mem_firstRows List.mem_cons_self, ih _⟩

theorem clear_readThreads {db : Db M G} {page : List (Group G × Message M G)} {now : ℤ}
    (hpage : db.ForumThreadsNeedingSummary limit page) :
    Clear ⟨db, .summarizing ((firstRows [] page).map (summaryRow checks engineVersion now))⟩ := by
  constructor
  · intro rows hrows
    cases hrows
  · intro rows hrows
    obtain rfl := Phase.summarizing.inj hrows
    constructor
    · intro row hrow
      obtain ⟨p, hp, rfl⟩ := List.mem_map.mp hrow
      exact (Db.mem_needingSummary.mp (hpage.1.subset (mem_firstRows hp))).1.2.2
    · rw [List.map_map]
      exact nodup_firstRows [] page

theorem clear_of_step (hclear : Clear s) (hstep : step checks engineVersion limit s e = some s') :
    Clear s' := by
  cases effect_of_step hstep with
  | outside hphase hgeo hsummaries =>
    obtain ⟨hg, hs⟩ := hclear
    constructor
    · rw [hphase, hgeo]
      exact hg
    · rw [hphase, hsummaries]
      exact hs
  | readGeo now => exact clear_readGeo
  | writeGeo rows => exact clear_of_idle
  | readThreads now hpage => exact clear_readThreads hpage
  | writeThreads rows => exact clear_of_idle
  | giveUp => exact clear_of_idle

/-! ## Runs -/

/-- There are no verdicts yet, and the service is between two batches. -/
structure Fresh (s : State M G) : Prop where
  phase : s.phase = .idle
  geo : ∀ row, row ∉ s.db.geo
  summaries : ∀ row, row ∉ s.db.summaries

omit [LinearOrder M] [DecidableEq G] in
theorem Fresh.not_hasGeo (h : Fresh s) (row : MessageGeo M) : ¬ HasGeo s row := by
  rintro (hrow | ⟨rows, hrows, -⟩)
  · exact h.geo row hrow
  · rw [h.phase] at hrows
    cases hrows

omit [LinearOrder M] [DecidableEq G] in
theorem Fresh.not_hasSummary (h : Fresh s) (row : ThreadSummary M G) : ¬ HasSummary s row := by
  rintro (hrow | ⟨rows, hrows, -⟩)
  · exact h.summaries row hrow
  · rw [h.phase] at hrows
    cases hrows

theorem Fresh.clear (h : Fresh s) : Clear s := by
  obtain ⟨db, phase⟩ := s
  obtain rfl := h.phase
  exact clear_of_idle

/-- **An insert never conflicts**: the verdicts of a batch are all written. -/
theorem exists_insertAll_geo {s₀ : State M G} {events : List (Event M G)} (hfresh : Fresh s₀)
    (hrun : Machine.run (step checks engineVersion limit) s₀ events = some s)
    {rows : List (MessageGeo M)} (hphase : s.phase = .attributing rows) :
    ∃ geo, s.db.geo.insertAll rows = some geo := by
  obtain ⟨hfree, hnodup⟩ := (Machine.run_preserves clear_of_step hfresh.clear hrun).geo rows hphase
  exact Table.insertAll_isSome hfree hnodup

theorem exists_insertAll_summaries {s₀ : State M G} {events : List (Event M G)} (hfresh : Fresh s₀)
    (hrun : Machine.run (step checks engineVersion limit) s₀ events = some s)
    {rows : List (ThreadSummary M G)} (hphase : s.phase = .summarizing rows) :
    ∃ summaries, s.db.summaries.insertAll rows = some summaries := by
  obtain ⟨hfree, hnodup⟩ :=
    (Machine.run_preserves clear_of_step hfresh.clear hrun).summaries rows hphase
  exact Table.insertAll_isSome hfree hnodup

open Machine in
/-- **Both queues are empty**: what is flagged has exactly one verdict, that of what was stored when
its batch was read, and so has each thread that has a post. -/
theorem sidecars_of_quiescent {s₀ : State M G} {events : List (Event M G)} (hlimit : 0 < limit)
    (hfresh : Fresh s₀) (hrun : run (step checks engineVersion limit) s₀ events = some s)
    (hgeo : s.db.messagesNeedingGeo limit = [])
    (hthreads : s.db.ForumThreadsNeedingSummary limit []) :
    (∀ m ∈ s.db.messages, s.db.Flagged m.id →
      ∃ row, s.db.geo.get m.id = some row ∧
        ∃ before after t, events = before ++ after ∧
          run (step checks engineVersion limit) s₀ before = some t ∧
          AttributedIn checks t.db row) ∧
    ∀ g ∈ s.db.groups, g.isForumThread = true → (∃ m ∈ s.db.messages, m.groupId = g.id) →
      ∃ row, s.db.summaries.get g.id = some row ∧
        ∃ before after t, events = before ++ after ∧
          run (step checks engineVersion limit) s₀ before = some t ∧
          SummarizedIn checks t.db row := by
  constructor
  · intro m hm hflagged
    obtain ⟨row, hrow⟩ := Db.exists_geo hlimit hgeo hm hflagged
    have hhas : HasGeo s row := Or.inl (Table.get_eq_some.mp hrow).1
    rcases exists_origin hasGeo_of_step hrun hhas with h | h
    · exact absurd h (hfresh.not_hasGeo row)
    · exact ⟨row, hrow, h⟩
  · intro g hg hforum hpost
    obtain ⟨row, hrow⟩ := Db.exists_summary hlimit hthreads hg hforum hpost
    have hhas : HasSummary s row := Or.inl (Table.get_eq_some.mp hrow).1
    rcases exists_origin hasSummary_of_step hrun hhas with h | h
    · exact absurd h (hfresh.not_hasSummary row)
    · exact ⟨row, hrow, h⟩

end Service

/-! ## The unlocked body -/

/-- Checks that know one bank account. -/
def oneIban : GeoChecks where
  nfc text := text
  nameSignals _ := []
  cctldSignals _ := []
  nationalIds := []
  ibanSignals text := if text = "CL93" then [("CL", "CL93")] else []
  phoneSignals _ := []

/-- Nothing is stored. -/
def blank : State ℕ ℕ :=
  ⟨⟨.empty, .empty, [], .empty, .empty, .empty⟩, .idle⟩

theorem blank_fresh : Fresh blank :=
  ⟨rfl, fun row => Table.not_mem_empty row, fun row => Table.not_mem_empty row⟩

/-- A post whose body is hidden is flagged and attributed. -/
def attributed : List (Event ℕ ℕ) :=
  [.putMessage ⟨1, 2, "post:1", "[hide]", 0⟩, .putIncidents [1], .readGeo 10, .writeGeo]

theorem sidecars_of_quiescent_attributed :
    ∃ s, Machine.run (step oneIban "1" 500) blank attributed = some s ∧
      (∀ m ∈ s.db.messages, s.db.Flagged m.id → ∃ row, s.db.geo.get m.id = some row ∧
        ∃ before after t, attributed = before ++ after ∧
          Machine.run (step oneIban "1" 500) blank before = some t ∧
          AttributedIn oneIban t.db row) ∧
      ∀ g ∈ s.db.groups, g.isForumThread = true → (∃ m ∈ s.db.messages, m.groupId = g.id) →
        ∃ row, s.db.summaries.get g.id = some row ∧
          ∃ before after t, attributed = before ++ after ∧
            Machine.run (step oneIban "1" 500) blank before = some t ∧
            SummarizedIn oneIban t.db row :=
  ⟨_, rfl, sidecars_of_quiescent (by decide) blank_fresh rfl rfl (by decide)⟩

/-- The body is unlocked, and the verdict stays. -/
theorem unlocked_body_stale :
    ∃ s, Machine.run (step oneIban "1" 500) blank
        (attributed ++ [.updateMessageContent "post:1" "CL93"]) = some s ∧
      s.db.messagesNeedingGeo 500 = [] ∧ s.db.ForumThreadsNeedingSummary 500 [] ∧
      ∃ m ∈ s.db.messages, s.db.Flagged m.id ∧ ∀ row ∈ s.db.geo, row.messageId = m.id →
        ¬ row.Says (oneIban.classifyCountry m.body (s.db.titleOf m)) := by
  decide +kernel

end GeoSidecars

end Eyenet
