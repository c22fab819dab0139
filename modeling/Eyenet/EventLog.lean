import Eyenet.Enums
import Eyenet.Paging

/-!
# The event logs and their replay

Operator decisions leave a row in one of three event logs
(`sqlmodel_repo/event_logs.py`). A client that reconnects gets the events of its topics after the
last one it received, page by page, each page merged from the three logs
(`streaming/replay.py`, `streaming/sse.py`).

* `EventLogs.appendEvent` — an appended row gets a key of its own.
* `replay_source` — a page of `replay` is a page of the merged logs, less what the limit of the
  single queries hides.
* `replay_complete_iff` — when draining the pages yields every event.
-/

namespace Eyenet

/-! ## The logs -/

instance : LinearOrder Uuid where
  le_refl _ := BitVec.le_refl _
  le_trans _ _ _ := BitVec.le_trans
  le_antisymm _ _ := BitVec.le_antisymm
  le_total _ _ := BitVec.le_total _ _
  lt_iff_le_not_ge a b := by
    simp only [BitVec.lt_def, BitVec.le_def]
    omega
  toDecidableLE := inferInstance

/-- The three tables. -/
inductive EventLogTable where
  | linkage
  | persona
  | identity
  deriving DecidableEq, Repr

/-- A row of one of the three tables. -/
structure EventLogRow where
  log : EventLogTable
  parentId : Uuid
  eventSeq : ℕ
  eventSubject : String
  eventId : Uuid
  ts : ℤ
  traceparent : String
  tracestate : Option String
  actor : Option String
  payloadDigest : Option String
  deriving DecidableEq

/-- The primary key, with the table it is the key of. -/
def EventLogRow.key (r : EventLogRow) : EventLogTable × Uuid × ℕ := (r.log, r.parentId, r.eventSeq)

/-- The three tables together. -/
structure EventLogs where
  rows : List EventLogRow
  keyed : (rows.map EventLogRow.key).Nodup

namespace EventLogs

variable {logs : EventLogs}

def empty : EventLogs := ⟨[], List.nodup_nil⟩

theorem nodup (logs : EventLogs) : logs.rows.Nodup := logs.keyed.of_map

/-- One table. -/
def table (logs : EventLogs) (log : EventLogTable) : List EventLogRow :=
  logs.rows.filter fun r => r.log = log

/-- `MAX(event_seq) + 1` of a parent. -/
def nextSeq (logs : EventLogs) (log : EventLogTable) (parentId : Uuid) : ℕ :=
  (((logs.table log).filter fun r => r.parentId = parentId).map
    EventLogRow.eventSeq).max?.getD 0 + 1

theorem lt_nextSeq {r : EventLogRow} (h : r ∈ logs.rows) :
    r.eventSeq < logs.nextSeq r.log r.parentId := by
  have hmem : r.eventSeq ∈ ((logs.table r.log).filter fun q => q.parentId = r.parentId).map
      EventLogRow.eventSeq :=
    List.mem_map_of_mem (by simp [table, h])
  exact Nat.lt_succ_of_le (List.le_max?_getD_of_mem hmem)

/-- `_append_event`, when it does not lose the race for the sequence number. -/
def appendEvent (logs : EventLogs) (r : EventLogRow) : EventLogs where
  rows := logs.rows ++ [{ r with eventSeq := logs.nextSeq r.log r.parentId }]
  keyed := by
    rw [List.map_append, List.nodup_append]
    refine ⟨logs.keyed, List.nodup_singleton _, ?_⟩
    rintro k hk k' hk' rfl
    obtain ⟨q, hq, rfl⟩ := List.mem_map.mp hk
    simp only [List.map_cons, List.map_nil, List.mem_singleton, EventLogRow.key,
      Prod.mk.injEq] at hk'
    obtain ⟨hlog, hparent, hseq⟩ := hk'
    -- the rows of the parent have smaller numbers
    have hlt := lt_nextSeq hq
    rw [hlog, hparent] at hlt
    omega

/-! ## Replay -/

/-- The topics of the streams. -/
inductive StreamTopic where
  /-- `attribution.linkage` -/
  | linkage
  /-- `attribution.persona` -/
  | persona
  /-- `eyenet.audit` -/
  | audit
  /-- `eyenet.control` -/
  | control
  /-- `incident.detected` -/
  | incident
  deriving DecidableEq, Repr

/-- `ORDER BY event_id`; rows with the same id stay in the order of the index. -/
def sortById (rows : List EventLogRow) : List EventLogRow :=
  rows.insertionSort fun r q => r.eventId ≤ q.eventId

/-- `_events_since` -/
def eventsSince (logs : EventLogs) (log : EventLogTable) (after : Option Uuid) (limit : ℕ) :
    List EventLogRow :=
  ((sortById (logs.table log)).filter (Paging.after EventLogRow.eventId after)).take limit

/-- `_CONTROL_IDENTITY_SUBJECTS` -/
def controlIdentitySubjects : List String := ["eyenet.identity.released"]

/-- `StreamReplaySource.replay` -/
def replay (logs : EventLogs) (topics : List StreamTopic) (after : Option Uuid) (limit : ℕ) :
    List EventLogRow :=
  (sortById <|
    (if .linkage ∈ topics then logs.eventsSince .linkage after limit else []) ++
    (if .persona ∈ topics then logs.eventsSince .persona after limit else []) ++
    (if .control ∈ topics then
      (logs.eventsSince .identity after limit).filter
        fun r => r.eventSubject ∈ controlIdentitySubjects
    else [])).take limit

/-- `_replay_phase`: pages until one comes back short. -/
def replayPhase (logs : EventLogs) (topics : List StreamTopic) (limit fuel : ℕ)
    (lastEventId : Option Uuid) : Option (List EventLogRow) :=
  Paging.drain EventLogRow.eventId (fun after => logs.replay topics after limit) limit fuel
    lastEventId

/-! ## What a replay should yield -/

/-- The event belongs to one of the topics; of the identity events the control stream gets the
releases only. -/
def inTopics (topics : List StreamTopic) (r : EventLogRow) : Bool :=
  match r.log with
  | .linkage => .linkage ∈ topics
  | .persona => .persona ∈ topics
  | .identity => .control ∈ topics ∧ r.eventSubject ∈ controlIdentitySubjects

/-- The events of the topics after the cursor. -/
def eventsAfter (logs : EventLogs) (topics : List StreamTopic) (after : Option Uuid) :
    List EventLogRow :=
  logs.rows.filter fun r => inTopics topics r && Paging.after EventLogRow.eventId after r

/-- Rows of the three tables, merged by id. -/
def mergeTables (rows : EventLogTable → List EventLogRow) : List EventLogRow :=
  sortById (rows .linkage ++ rows .persona ++ rows .identity)

/-- All events of the topics in the order of a replay. -/
def merged (logs : EventLogs) (topics : List StreamTopic) : List EventLogRow :=
  mergeTables fun log => (sortById (logs.table log)).filter (inTopics topics)

/-- The query of its table, from this cursor on, returns the event. -/
def queried (logs : EventLogs) (limit : ℕ) (after : Option Uuid) (r : EventLogRow) : Bool :=
  r ∈ logs.eventsSince r.log after limit

section Replay

variable {topics : List StreamTopic} {after : Option Uuid} {limit : ℕ} {log : EventLogTable}
variable {rows : List EventLogRow} {r : EventLogRow}

theorem perm_sortById (rows : List EventLogRow) : (sortById rows).Perm rows :=
  List.perm_insertionSort _ _

theorem mem_sortById : r ∈ sortById rows ↔ r ∈ rows := (perm_sortById rows).mem_iff

instance : Std.Total fun r q : EventLogRow => r.eventId ≤ q.eventId := ⟨fun _ _ => le_total _ _⟩

instance : IsTrans EventLogRow fun r q => r.eventId ≤ q.eventId := ⟨fun _ _ _ => le_trans⟩

theorem sorted_sortById (rows : List EventLogRow) :
    (sortById rows).Pairwise fun r q => r.eventId ≤ q.eventId :=
  List.pairwise_insertionSort _ rows

theorem filter_sortById (rows : List EventLogRow) (p : EventLogRow → Bool) :
    (sortById rows).filter p = sortById (rows.filter p) :=
  Paging.filter_insertionSort

theorem filter_mergeTables (f : EventLogTable → List EventLogRow) (p : EventLogRow → Bool) :
    (mergeTables f).filter p = mergeTables fun log => (f log).filter p := by
  simp only [mergeTables, filter_sortById, List.filter_append]

theorem mem_table : r ∈ logs.table log ↔ r ∈ logs.rows ∧ r.log = log := by simp [table]

/-- The rows of the topics, table by table. -/
theorem filter_inTopics (h : ∀ r ∈ rows, r.log = log) :
    rows.filter (inTopics topics) =
      match log with
      | .linkage => if .linkage ∈ topics then rows else []
      | .persona => if .persona ∈ topics then rows else []
      | .identity => if .control ∈ topics then
          rows.filter fun r => r.eventSubject ∈ controlIdentitySubjects else [] := by
  have hcongr : rows.filter (inTopics topics) = rows.filter fun r =>
      match log with
      | .linkage => decide (.linkage ∈ topics)
      | .persona => decide (.persona ∈ topics)
      | .identity => decide (.control ∈ topics ∧ r.eventSubject ∈ controlIdentitySubjects) := by
    refine List.filter_congr fun r hr => ?_
    rw [inTopics, h r hr]
  rw [hcongr]
  cases log with
  | linkage => by_cases htopic : StreamTopic.linkage ∈ topics <;> simp [htopic]
  | persona => by_cases htopic : StreamTopic.persona ∈ topics <;> simp [htopic]
  | identity => by_cases htopic : StreamTopic.control ∈ topics <;> simp [htopic]

theorem log_eventsSince (h : r ∈ logs.eventsSince log after limit) : r.log = log :=
  (mem_table.mp (mem_sortById.mp (List.mem_filter.mp (List.mem_of_mem_take h)).1)).2

/-- A page merges the rows that the queries return. -/
theorem replay_eq : logs.replay topics after limit =
    (mergeTables fun log => (logs.eventsSince log after limit).filter (inTopics topics)).take
      limit := by
  simp only [replay, mergeTables, filter_inTopics fun _ => log_eventsSince]

/-- What a query returns, as a filter. -/
theorem filter_queried :
    ((sortById (logs.table log)).filter (Paging.after EventLogRow.eventId after)).filter
      (logs.queried limit after) = logs.eventsSince log after limit := by
  have hnodup : ((sortById (logs.table log)).filter
      (Paging.after EventLogRow.eventId after)).Nodup :=
    ((perm_sortById _).nodup_iff.mpr (logs.nodup.filter _)).filter _
  rw [eventsSince, ← Paging.filter_mem_take hnodup limit]
  refine List.filter_congr fun r hr => ?_
  have hlog : r.log = log := (mem_table.mp (mem_sortById.mp (List.mem_filter.mp hr).1)).2
  rw [queried, hlog]
  rfl

theorem ofTables_perm (rows : List EventLogRow) :
    (rows.filter (·.log = .linkage) ++ rows.filter (·.log = .persona) ++
      rows.filter (·.log = .identity)).Perm rows := by
  induction rows with
  | nil => rfl
  | cons r rows ih =>
    -- the row is the first of the part of its table
    cases hlog : r.log with
    | linkage => simpa [List.filter_cons, hlog] using ih
    | persona =>
      simp only [List.filter_cons, hlog, reduceCtorEq, decide_false, decide_true, if_true,
        Bool.false_eq_true, if_false]
      exact (List.perm_middle.append_right _).trans (ih.cons r)
    | identity =>
      simp only [List.filter_cons, hlog, reduceCtorEq, decide_false, decide_true, if_true,
        Bool.false_eq_true, if_false]
      exact List.perm_middle.trans (ih.cons r)

/-- Merging loses nothing. -/
theorem merged_perm (logs : EventLogs) (topics : List StreamTopic) :
    (logs.merged topics).Perm (logs.rows.filter (inTopics topics)) := by
  calc logs.merged topics
    _ |>.Perm ((sortById (logs.table .linkage)).filter (inTopics topics) ++
        (sortById (logs.table .persona)).filter (inTopics topics) ++
        (sortById (logs.table .identity)).filter (inTopics topics)) := perm_sortById _
    _ = (sortById (logs.table .linkage) ++ sortById (logs.table .persona) ++
        sortById (logs.table .identity)).filter (inTopics topics) := by
      simp only [List.filter_append]
    _ |>.Perm ((logs.table .linkage ++ logs.table .persona ++
        logs.table .identity).filter (inTopics topics)) :=
      (((perm_sortById _).append (perm_sortById _)).append (perm_sortById _)).filter _
    _ |>.Perm (logs.rows.filter (inTopics topics)) := (ofTables_perm logs.rows).filter _

/-- **Pages.** The pages of a replay show the events that the single queries return. -/
theorem replay_source (logs : EventLogs) (topics : List StreamTopic) (hlim : 1 ≤ limit) :
    Paging.Source EventLogRow.eventId (fun after => logs.replay topics after limit) limit
      (logs.queried limit) (logs.merged topics) where
  sorted := sorted_sortById _
  nodup := (merged_perm logs topics).nodup_iff.mpr (logs.nodup.filter _)
  limit_pos := hlim
  page_eq := by
    intro after
    simp only [replay_eq, merged, filter_mergeTables]
    -- in each table the query and the topics are two filters of one sorted list
    congr 2
    funext log
    rw [← filter_queried]
    simp only [List.filter_filter]
    congr 1
    funext r
    ac_rfl

/-- The events of the topics after the cursor, in order. -/
theorem merged_after_perm :
    ((logs.merged topics).filter (Paging.after EventLogRow.eventId after)).Perm
      (logs.eventsAfter topics after) := by
  have hfilter : logs.eventsAfter topics after =
      (logs.rows.filter (inTopics topics)).filter (Paging.after EventLogRow.eventId after) := by
    rw [eventsAfter, List.filter_filter]
    simp only [Bool.and_comm]
  rw [hfilter]
  exact (merged_perm logs topics).filter _

/-- The rows of one table among the events of the topics. -/
theorem filter_log_merged_after (h : r ∈ (logs.merged topics).filter
    (Paging.after EventLogRow.eventId after)) (hlog : r.log ≠ .identity) :
    ((logs.merged topics).filter (Paging.after EventLogRow.eventId after)).filter
      (fun q => q.log = r.log) =
      (sortById (logs.table r.log)).filter (Paging.after EventLogRow.eventId after) := by
  have htopic : inTopics topics r :=
    (List.mem_filter.mp ((merged_perm logs topics).mem_iff.mp (List.mem_filter.mp h).1)).2
  have htable : ∀ log, ((sortById (logs.table log)).filter (inTopics topics)).filter
      (fun q => q.log = r.log) =
        if log = r.log then sortById (logs.table log) else [] := by
    intro log
    have hlogs : ∀ q ∈ sortById (logs.table log), q.log = log :=
      fun q hq => (mem_table.mp (mem_sortById.mp hq)).2
    split
    · next heq =>
      rw [List.filter_filter, List.filter_eq_self]
      intro q hq
      have hq' := hlogs q hq
      subst heq
      simp only [hq', decide_true, Bool.true_and]
      revert htopic
      cases hr : r.log with
      | identity => exact absurd hr hlog
      | _ => simp [inTopics, hr, hq']
    · next hne =>
      rw [List.filter_filter, List.filter_eq_nil_iff]
      intro q hq
      simp [hlogs q hq, hne]
  rw [List.filter_comm, merged, filter_mergeTables]
  congr 1
  -- of the merged parts only the sorted one of this table is left
  simp only [htable, mergeTables]
  cases hr : r.log with
  | identity => exact absurd hr hlog
  | _ => simpa [sortById] using (sorted_sortById _).insertionSort_eq

/-- Without the control topic the limits of the single queries hide nothing. -/
theorem replay_eq_take (hlim : 1 ≤ limit) (htopics : .control ∉ topics) :
    logs.replay topics after limit =
      ((logs.merged topics).filter (Paging.after EventLogRow.eventId after)).take limit := by
  rw [(replay_source logs topics hlim).page_eq, Paging.take_filter_eq_take]
  intro r hr
  have hmem := List.mem_of_mem_take hr
  have hlog : r.log ≠ .identity := by
    intro hlog
    have htopic : inTopics topics r :=
      (List.mem_filter.mp ((merged_perm logs topics).mem_iff.mp (List.mem_filter.mp hmem).1)).2
    simp [inTopics, hlog, htopics] at htopic
  have htake := Paging.mem_take_filter (p := fun q => decide (q.log = r.log)) hr (by simp)
  rw [filter_log_merged_after hmem hlog] at htake
  exact decide_eq_true htake

/-- The ids of the events of the topics after the cursor. -/
theorem merged_after_ids (hids : (logs.rows.map EventLogRow.eventId).Nodup) :
    (((logs.merged topics).filter (Paging.after EventLogRow.eventId after)).map
      EventLogRow.eventId).Pairwise (· < ·) := by
  have hperm := (merged_perm logs topics).filter (Paging.after EventLogRow.eventId after)
  have hnodup : (((logs.merged topics).filter (Paging.after EventLogRow.eventId after)).map
      EventLogRow.eventId).Nodup := by
    rw [(hperm.map _).nodup_iff]
    exact hids.sublist ((List.filter_sublist.trans List.filter_sublist).map _)
  have hsorted : (((logs.merged topics).filter (Paging.after EventLogRow.eventId after)).map
      EventLogRow.eventId).Pairwise (· ≤ ·) :=
    List.pairwise_map.mpr ((sorted_sortById _).filter _)
  exact hsorted.imp₂ (fun _ _ hle hne => lt_of_le_of_ne hle hne) hnodup

/-- **Replay.** Draining the pages terminates and yields exactly the events of the topics after the
cursor, each once and in the order of their ids, exactly when each of them is among the first rows
that the query of its table returns at the start of its page, and has a later id than the last
event of the page before. -/
theorem replay_complete_iff (logs : EventLogs) (topics : List StreamTopic) (after : Option Uuid)
    {limit : ℕ} (hlim : 1 ≤ limit) :
    (∃ out, (∀ fuel, logs.rows.length < fuel →
        logs.replayPhase topics limit fuel after = some out) ∧
      out.Perm (logs.eventsAfter topics after) ∧ out.Pairwise fun r q => r.eventId ≤ q.eventId) ↔
    Paging.Windowed EventLogRow.eventId (logs.queried limit) limit after
      ((logs.merged topics).filter (Paging.after EventLogRow.eventId after)) := by
  have hsource := replay_source logs topics hlim
  have htotal : ∀ fuel, logs.rows.length < fuel →
      ∃ out, logs.replayPhase topics limit fuel after = some out := by
    intro fuel hfuel
    refine hsource.drain_total (lt_of_le_of_lt ?_ hfuel)
    rw [merged_after_perm.length_eq]
    exact List.length_filter_le _ _
  refine ⟨?_, ?_⟩
  · rintro ⟨out, hdrain, hperm, -⟩
    have hout := hdrain _ (Nat.lt_succ_self _)
    -- what is drained is a sublist, and it has the length of the whole
    refine (hsource.drain_eq_iff hout).mp ?_
    exact (hsource.drain_sublist hout).eq_of_length
      (hperm.trans merged_after_perm.symm).length_eq
  · intro hwin
    refine ⟨_, fun fuel hfuel => ?_, merged_after_perm, hsource.sorted_after⟩
    obtain ⟨out, hout⟩ := htotal fuel hfuel
    rw [hout, (hsource.drain_eq_iff hout).mpr hwin]

/-- An event of the given number. -/
def sampleEvent (log : EventLogTable) (n : ℕ) (subject : String) : EventLogRow :=
  ⟨log, n, 1, subject, n, 0, "", none, none, none⟩

/-- Events of two topics over two pages. -/
def sampleLogs : EventLogs where
  rows := [sampleEvent .linkage 1 "attribution.linkage.confirmed",
    sampleEvent .identity 2 "eyenet.identity.claimed",
    sampleEvent .identity 3 "eyenet.identity.released",
    sampleEvent .linkage 4 "attribution.linkage.rejected"]
  keyed := by decide

theorem replay_complete_iff_sample :
    ∃ out, (∀ fuel, sampleLogs.rows.length < fuel →
        sampleLogs.replayPhase [.linkage, .control] 2 fuel none = some out) ∧
      out.Perm (sampleLogs.eventsAfter [.linkage, .control] none) ∧
      out.Pairwise fun r q => r.eventId ≤ q.eventId :=
  (replay_complete_iff sampleLogs [.linkage, .control] none (by decide)).mpr (by decide)

/-- An identity is claimed, another one is released. -/
def claimedThenReleased : EventLogs where
  rows := [sampleEvent .identity 1 "eyenet.identity.claimed",
    sampleEvent .identity 2 "eyenet.identity.released"]
  keyed := by decide

/-- A page without releases looks like the end of the log. -/
theorem release_not_replayed :
    claimedThenReleased.replayPhase [.control] 1 3 none = some [] ∧
      claimedThenReleased.eventsAfter [.control] none =
        [sampleEvent .identity 2 "eyenet.identity.released"] := by
  decide

end Replay

end EventLogs

end Eyenet
