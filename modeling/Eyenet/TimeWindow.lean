import Eyenet.AuditChain
import Eyenet.Exoneration

/-!
# Time windows over the audit database

Two queries of the audit API take a window: the by-user exoneration
(`api_list_file_access_by_user.py`) and the audit list (`api_list_audit.py`). Both compare texts. A
bound is bound as the column type writes it, without its offset; a journal row is stored the same
way, an audit row in its JSON spelling.

* `TimeWindow.byUser_exact_iff` — exactly when a signed by-user answer lists the accesses within the
  window.
* `TimeWindow.audit_exact_iff` — exactly when the audit list is the rows within the window, newest
  first.
-/

namespace Eyenet.TimeWindow

open Framing

/-! ## Accesses by user -/

/-- What `_journal_row` reads of a stored timestamp: the text has no offset, and UTC is assumed. -/
def readBackUtc (d : Datetime) : Datetime := { d with utcoffset := some AuditChain.utc }

/-- `audit_file_access_by_user`, when no append falls between its two reads. -/
def auditFileAccessByUser (rows : List JournalRow) (userId : Uuid) (since until_ : Option Datetime)
    (queryTime : Datetime) : Exoneration :=
  let query := ExonerationQuery.byUser userId since until_
  PendingQuery.answer ⟨0, query, listFileAccess rows query⟩ queryTime (fileAccessJournalHead rows)

/-- The instant lies in the window, both bounds included. -/
def Within (since until_ : Option Datetime) (t : ℤ) : Prop :=
  (∀ s ∈ since, s.instant ≤ t) ∧ ∀ u ∈ until_, t ≤ u.instant

/-- The instant lies in the window when each bound is moved by its own offset: later for a zone
ahead of UTC, earlier for one behind. -/
def WithinMoved (since until_ : Option Datetime) (t : ℤ) : Prop :=
  (∀ s ∈ since, s.instant + s.offsetMicros ≤ t) ∧ ∀ u ∈ until_, t ≤ u.instant + u.offsetMicros

instance (since until_ : Option Datetime) (t : ℤ) : Decidable (Within since until_ t) :=
  inferInstanceAs (Decidable (_ ∧ _))

instance (since until_ : Option Datetime) (t : ℤ) : Decidable (WithinMoved since until_ t) :=
  inferInstanceAs (Decidable (_ ∧ _))

section ByUser

variable {sha256 : Bytes → Bytes} {appends : List Append} {rows : List JournalRow}
variable {row : JournalRow} {userId : Uuid} {since until_ : Option Datetime} {queryTime : Datetime}

theorem wall_eq (d : Datetime) : (d.wall : ℤ) = d.instant + d.offsetMicros := by
  have h := d.instant_eq
  omega

theorem instant_of_utc {d : Datetime} (h : d.utcoffset = some AuditChain.utc) :
    d.instant = d.wall := by
  rw [d.instant_eq, Datetime.offsetMicros, h]
  simp [AuditChain.utc]

/-- Every row of a journal carries UTC, and its own `access_id`. -/
theorem journal_rows (sha256 : Bytes → Bytes) (appends : List Append) :
    Numbered (journal sha256 readBackUtc appends) ∧
      (∀ row ∈ journal sha256 readBackUtc appends,
        row.prepared.servedAt.utcoffset = some AuditChain.utc) ∧
      ((journal sha256 readBackUtc appends).map fun row => row.prepared.accessId).Nodup := by
  apply journal_preserves (I := fun rows => Numbered rows ∧
    (∀ row ∈ rows, row.prepared.servedAt.utcoffset = some AuditChain.utc) ∧
      (rows.map fun row => row.prepared.accessId).Nodup)
  · exact ⟨rfl, fun row hrow => absurd hrow List.not_mem_nil, List.nodup_nil⟩
  · rintro rows a - ⟨hnum, hutc, hids⟩
    rcases append_cases sha256 readBackUtc rows a with h | ⟨row, hrow, h⟩
    · rw [h]
      exact ⟨hnum, hutc, hids⟩
    · obtain ⟨hseq, -⟩ := appendRow_eq_some hnum hrow
      rw [appendRow, nextLink_of_numbered hnum] at hrow
      obtain ⟨-, -, -, hprepared, hfresh, -⟩ := insertRow_eq_some hrow
      rw [h]
      refine ⟨hnum.append hseq, ?_, ?_⟩
      · intro r hr
        rcases List.mem_append.mp hr with hr | hr
        · exact hutc r hr
        · rw [List.mem_singleton.mp hr, hprepared]
          rfl
      · rw [List.map_append, List.map_singleton, List.nodup_append]
        refine ⟨hids, List.nodup_singleton _, fun id hid id' hid' heq => ?_⟩
        obtain ⟨r, hr, rfl⟩ := List.mem_map.mp hid
        rw [List.mem_singleton.mp hid', hprepared] at heq
        exact hfresh r hr heq

/-- What the query selects among rows in UTC: the moved window. -/
theorem selects_byUser_iff (hutc : row.prepared.servedAt.utcoffset = some AuditChain.utc) :
    (ExonerationQuery.byUser userId since until_).selects row ↔
      row.prepared.userId = userId ∧
        WithinMoved since until_ row.prepared.servedAt.instant := by
  have hinst := instant_of_utc hutc
  simp only [ExonerationQuery.selects, Bool.and_eq_true, beq_iff_eq, Option.all_eq_true,
    decide_eq_true_eq, Datetime.storageText_le_iff, WithinMoved, hinst, ← wall_eq,
    Int.ofNat_le, and_assoc, Option.mem_def]

/-- Two selections of rows with distinct keys that give the same keys select the same rows. -/
theorem filter_map_eq_iff {α β : Type*} {l : List α} {key : α → β} {p q : α → Bool}
    (hnodup : (l.map key).Nodup) :
    (l.filter p).map key = (l.filter q).map key ↔ ∀ x ∈ l, (p x ↔ q x) := by
  have hinj := List.inj_on_of_nodup_map hnodup
  refine ⟨?_, ?_⟩
  · intro h x hx
    have hmem : ∀ {r r' : α → Bool}, (l.filter r).map key = (l.filter r').map key →
        r x → r' x := by
      intro r r' h hr
      have hkey : key x ∈ (l.filter r').map key := by
        rw [← h]
        exact List.mem_map_of_mem (List.mem_filter.mpr ⟨hx, hr⟩)
      obtain ⟨y, hy, hyx⟩ := List.mem_map.mp hkey
      obtain ⟨hyl, hry⟩ := List.mem_filter.mp hy
      rwa [hinj hyl hx hyx] at hry
    exact ⟨hmem h, hmem h.symm⟩
  · intro h
    rw [List.filter_congr fun x hx => Bool.eq_iff_iff.mpr (h x hx)]

/-- Bounds in UTC are never misread. -/
theorem within_iff_moved (hsince : ∀ s ∈ since, s.offsetMicros = 0)
    (huntil : ∀ u ∈ until_, u.offsetMicros = 0) (t : ℤ) :
    Within since until_ t ↔ WithinMoved since until_ t := by
  refine and_congr (forall₂_congr fun s hs => ?_) (forall₂_congr fun u hu => ?_)
  · rw [hsince s hs, add_zero]
  · rw [huntil u hu, add_zero]

end ByUser

/-- One hour past midnight, two hours ahead of UTC: an hour before the sample access. -/
def sampleSince : Datetime :=
  (Datetime.ofFields 2026 1 1 1 0 0 0 (UtcOffset.ofMicros false 7200000000)).get (by decide)

open AuditChain (AuditRowData AuditLogRow AuditRecord AuditAppend appendChain auditLog
  computeSelfHash)

/-- A timestamp in JSON mode; `zone` prints its offset. -/
def jsonText (zone : Option UtcOffset → List Char) (d : Datetime) : String :=
  String.ofList (d.dateChars ++ 'T' ::
    (d.timeChars ++ (Datetime.formatMicros d.microsecond ++ zone d.utcoffset)))

/-- The filters of the audit list. -/
structure AuditQuery where
  since : Option Datetime
  until_ : Option Datetime
  user : Option Uuid
  subject : Option String
  subjectId : Option Uuid

/-- `_audit_filters` -/
def auditFilters (q : AuditQuery) (r : AuditRecord) : Bool :=
  (q.since.all fun t => decide (t.storageText ≤ r.occurredAt)) &&
    (q.until_.all fun t => decide (r.occurredAt < t.storageText)) &&
    (q.user.all fun u => r.systemUserId == some (uuidText u)) &&
    (q.subject.all fun s => r.event == s) &&
    (q.subjectId.all fun u => r.subjectId == some (uuidText u))

/-- `ORDER BY at DESC, id DESC` -/
def listedBefore (a b : AuditRecord) : Prop :=
  toLex (b.occurredAt, b.id) ≤ toLex (a.occurredAt, a.id)

instance : DecidableRel listedBefore := fun _ _ => inferInstanceAs (Decidable (_ ≤ _))

/-- `list_audit` -/
def listAudit (records : List AuditRecord) (q : AuditQuery) (limit offset : ℕ) :
    List AuditRecord :=
  (((records.filter (auditFilters q)).insertionSort listedBefore).drop offset).take limit

/-- `count_audit` -/
def countAudit (records : List AuditRecord) (q : AuditQuery) : ℕ :=
  (records.filter (auditFilters q)).length

/-- The row that `append_audit` returns, with its `seq`; `none` when the call fails. -/
def returnedRow (dumpAt : Datetime → String) (sha256 : Bytes → AuditChain.Digest)
    (records : List AuditRecord) (a : AuditAppend) : Option (AuditLogRow × ℕ) :=
  if a.aborted ∨ (appendChain dumpAt sha256 records a.data).isNone then none
  else
    let (nextSeq, prev) := AuditChain.nextLink records
    let row : AuditLogRow := ⟨a.data, prev, genesisPrevHash⟩
    some ({ row with selfHash := computeSelfHash dumpAt sha256 row }, nextSeq)

/-- The record of a row that was returned. -/
def recordOf (dumpAt : Datetime → String) (row : AuditLogRow × ℕ) : AuditRecord :=
  row.1.record dumpAt row.2

/-- The rows that a sequence of calls returned. -/
def returnedRows (dumpAt : Datetime → String) (sha256 : Bytes → AuditChain.Digest)
    (appends : List AuditAppend) : List (AuditLogRow × ℕ) :=
  appends.foldl (fun rows a =>
    match returnedRow dumpAt sha256 (rows.map (recordOf dumpAt)) a with
    | none => rows
    | some row => rows ++ [row]) []

/-- The row passes the filters other than the window. -/
def AuditQuery.Asks (q : AuditQuery) (d : AuditRowData) : Prop :=
  (∀ u ∈ q.user, d.systemUserId = some u) ∧ (∀ s ∈ q.subject, d.event = s) ∧
    ∀ u ∈ q.subjectId, d.subjectId = some u

/-- The row lies in the window, as an instant; the upper bound is excluded. -/
def AuditQuery.Within (q : AuditQuery) (d : AuditRowData) : Prop :=
  (∀ s ∈ q.since, s.instant ≤ d.occurredAt.instant) ∧
    ∀ u ∈ q.until_, d.occurredAt.instant < u.instant

/-- The date that the row spells lies between the dates that the bounds spell. -/
def AuditQuery.WithinDays (q : AuditQuery) (d : AuditRowData) : Prop :=
  (∀ s ∈ q.since, s.ordinalDay ≤ d.occurredAt.ordinalDay) ∧
    ∀ u ∈ q.until_, d.occurredAt.ordinalDay < u.ordinalDay

instance (q : AuditQuery) (d : AuditRowData) : Decidable (q.Asks d) :=
  decidable_of_iff ((q.user.all fun u => d.systemUserId = some u) ∧
      (q.subject.all fun s => d.event = s) ∧ q.subjectId.all fun u => d.subjectId = some u)
    (by simp only [AuditQuery.Asks, Option.all_eq_true, decide_eq_true_eq, Option.mem_def])

instance (q : AuditQuery) (d : AuditRowData) : Decidable (q.Within d) :=
  inferInstanceAs (Decidable (_ ∧ _))

instance (q : AuditQuery) (d : AuditRowData) : Decidable (q.WithinDays d) :=
  inferInstanceAs (Decidable (_ ∧ _))

section Audit

variable {zone : Option UtcOffset → List Char} {sha256 : Bytes → AuditChain.Digest}
variable {dumpAt : Datetime → String} {appends : List AuditAppend} {q : AuditQuery}
variable {row : AuditLogRow × ℕ} {d t : Datetime}

/-- A bound has a blank where a row has its `T`, so a row of the bound's day sorts after it. -/
theorem le_jsonText_iff : t.storageText ≤ jsonText zone d ↔ t.ordinalDay ≤ d.ordinalDay := by
  have hblank : ¬ ('T' < ' ') ∧ 'T' ≠ ' ' := by decide
  rw [← not_lt, String.lt_iff_toList_lt, Datetime.storageText, jsonText, String.toList_ofList,
    String.toList_ofList, append_lt_append_iff (by simp), Datetime.dateChars_lt_iff,
    List.cons_lt_cons_iff]
  simp [hblank.1, hblank.2]

theorem jsonText_lt_iff : jsonText zone d < t.storageText ↔ d.ordinalDay < t.ordinalDay := by
  rw [← not_le, le_jsonText_iff, not_le]

theorem uuidText_eq_iff {u : Uuid} {v : Option Uuid} :
    v.map uuidText = some (uuidText u) ↔ v = some u := by
  cases v <;> simp [uuidText_injective.eq_iff]

/-- **What the filters select**: rows by the dates that they spell. -/
theorem auditFilters_iff : auditFilters q (recordOf (jsonText zone) row) ↔
    q.Asks row.1.data ∧ q.WithinDays row.1.data := by
  simp only [auditFilters, recordOf, AuditLogRow.record, Bool.and_eq_true, Option.all_eq_true,
    decide_eq_true_eq, beq_iff_eq, le_jsonText_iff, jsonText_lt_iff, uuidText_eq_iff,
    AuditQuery.Asks, AuditQuery.WithinDays, Option.mem_def]
  tauto

/-- What a call returns is what it appends, under an `id` that is new. -/
theorem append_cases_returned (dumpAt : Datetime → String) (sha256 : Bytes → AuditChain.Digest)
    (records : List AuditRecord) (a : AuditAppend) :
    returnedRow dumpAt sha256 records a = none ∧
        AuditChain.append dumpAt sha256 records a = records ∨
      ∃ row, returnedRow dumpAt sha256 records a = some row ∧
        AuditChain.append dumpAt sha256 records a = records ++ [recordOf dumpAt row] ∧
        ∀ r ∈ records, r.id ≠ uuidText row.1.data.id := by
  rw [returnedRow, AuditChain.append]
  cases habort : a.aborted with
  | true => exact .inl ⟨rfl, rfl⟩
  | false =>
    simp only [Bool.false_eq_true, false_or, if_false]
    cases hchain : appendChain dumpAt sha256 records a.data with
    | none => exact .inl ⟨rfl, rfl⟩
    | some record =>
      refine .inr ⟨_, rfl, ?_⟩
      simp only [appendChain] at hchain
      split_ifs at hchain with hvalid htaken
      obtain rfl := Option.some.inj hchain
      refine ⟨rfl, fun r hr heq => htaken ?_⟩
      simp only [List.any_eq_true, decide_eq_true_eq]
      exact ⟨r, hr, .inl heq⟩

/-- The log is the records of the rows that the calls returned, and each row has its own `id`. -/
theorem auditLog_eq (dumpAt : Datetime → String) (sha256 : Bytes → AuditChain.Digest)
    (appends : List AuditAppend) :
    auditLog dumpAt sha256 appends =
        (returnedRows dumpAt sha256 appends).map (recordOf dumpAt) ∧
      ((returnedRows dumpAt sha256 appends).map fun row => uuidText row.1.data.id).Nodup := by
  induction appends using List.reverseRecOn with
  | nil => exact ⟨rfl, List.nodup_nil⟩
  | append_singleton before a ih =>
    obtain ⟨hlog, hids⟩ := ih
    have hstep : auditLog dumpAt sha256 (before ++ [a]) =
        AuditChain.append dumpAt sha256 (auditLog dumpAt sha256 before) a := by
      rw [auditLog, List.foldl_append]
      rfl
    have hrows : returnedRows dumpAt sha256 (before ++ [a]) =
        match returnedRow dumpAt sha256
          ((returnedRows dumpAt sha256 before).map (recordOf dumpAt)) a with
        | none => returnedRows dumpAt sha256 before
        | some row => returnedRows dumpAt sha256 before ++ [row] := by
      rw [returnedRows, List.foldl_append]
      rfl
    rw [hstep, hrows, ← hlog]
    rcases append_cases_returned dumpAt sha256 (auditLog dumpAt sha256 before) a with
      ⟨hnone, hsame⟩ | ⟨row, hsome, hgrow, hnew⟩
    · rw [hnone, hsame]
      exact ⟨hlog, hids⟩
    · rw [hsome, hgrow]
      refine ⟨by rw [hlog, List.map_append, List.map_singleton], ?_⟩
      rw [List.map_append, List.map_singleton, List.nodup_append]
      refine ⟨hids, List.nodup_singleton _, fun id hid id' hid' heq => ?_⟩
      obtain ⟨r, hr, rfl⟩ := List.mem_map.mp hid
      rw [List.mem_singleton.mp hid'] at heq
      exact hnew (recordOf dumpAt r) (hlog ▸ List.mem_map_of_mem hr) heq

/-- The key that the list is sorted by. -/
def sortKey (zone : Option UtcOffset → List Char) (d : AuditRowData) : String ×ₗ String :=
  toLex (jsonText zone d.occurredAt, uuidText d.id)

/-- The order of the list on rows. -/
def rowBefore (zone : Option UtcOffset → List Char) (a b : AuditLogRow × ℕ) : Prop :=
  sortKey zone b.1.data ≤ sortKey zone a.1.data

instance (zone : Option UtcOffset → List Char) : DecidableRel (rowBefore zone) :=
  fun _ _ => inferInstanceAs (Decidable (_ ≤ _))

instance (zone : Option UtcOffset → List Char) : Std.Total (rowBefore zone) :=
  ⟨fun a b => le_total (sortKey zone b.1.data) (sortKey zone a.1.data)⟩

instance (zone : Option UtcOffset → List Char) : IsTrans _ (rowBefore zone) :=
  ⟨fun _ _ _ hab hbc => le_trans hbc hab⟩

/-- The list and the count for a query are those of the window, newest first, for every page. -/
def AnswersExactly (zone : Option UtcOffset → List Char) (sha256 : Bytes → AuditChain.Digest)
    (appends : List AuditAppend) (q : AuditQuery) : Prop :=
  let log := auditLog (jsonText zone) sha256 appends
  ∃ rows : List (AuditLogRow × ℕ),
    rows.Perm ((returnedRows (jsonText zone) sha256 appends).filter fun row =>
      q.Asks row.1.data ∧ q.Within row.1.data) ∧
    rows.Pairwise (fun a b => b.1.data.occurredAt.instant ≤ a.1.data.occurredAt.instant) ∧
    (∀ limit offset, listAudit log q limit offset =
      ((rows.drop offset).take limit).map (recordOf (jsonText zone))) ∧
    countAudit log q = rows.length

/-- Members of a list that are not the same stand in the relation one way or the other. -/
theorem pairwise_or {α : Type*} {R : α → α → Prop} {l : List α} {a b : α} (h : l.Pairwise R)
    (ha : a ∈ l) (hb : b ∈ l) (hne : a ≠ b) : R a b ∨ R b a := by
  have hsymm : Std.Symm fun a b => R a b ∨ R b a := ⟨fun _ _ => Or.symm⟩
  exact (h.imp fun hab => Or.inl hab : l.Pairwise fun a b => R a b ∨ R b a).forall ha hb hne

/-- The rows that the query selects, in the order of the list. -/
def listedRows (zone : Option UtcOffset → List Char) (sha256 : Bytes → AuditChain.Digest)
    (appends : List AuditAppend) (q : AuditQuery) : List (AuditLogRow × ℕ) :=
  ((returnedRows (jsonText zone) sha256 appends).filter fun row =>
    q.Asks row.1.data ∧ q.WithinDays row.1.data).insertionSort (rowBefore zone)

theorem listed_records (zone : Option UtcOffset → List Char) (sha256 : Bytes → AuditChain.Digest)
    (appends : List AuditAppend) (q : AuditQuery) :
    ((auditLog (jsonText zone) sha256 appends).filter (auditFilters q)).insertionSort
        listedBefore = (listedRows zone sha256 appends q).map (recordOf (jsonText zone)) := by
  rw [(auditLog_eq (jsonText zone) sha256 appends).1, List.filter_map]
  have hfilter : (returnedRows (jsonText zone) sha256 appends).filter
        (auditFilters q ∘ recordOf (jsonText zone)) =
      (returnedRows (jsonText zone) sha256 appends).filter fun row =>
        q.Asks row.1.data ∧ q.WithinDays row.1.data := by
    refine List.filter_congr fun row _ => ?_
    rw [Bool.eq_iff_iff, decide_eq_true_iff]
    exact auditFilters_iff
  rw [hfilter, listedRows]
  exact (List.map_insertionSort (r := rowBefore zone) (s := listedBefore) _ _
    fun a _ b _ => Iff.rfl).symm

theorem listAudit_eq (zone : Option UtcOffset → List Char) (sha256 : Bytes → AuditChain.Digest)
    (appends : List AuditAppend) (q : AuditQuery) (limit offset : ℕ) :
    listAudit (auditLog (jsonText zone) sha256 appends) q limit offset =
      (((listedRows zone sha256 appends q).drop offset).take limit).map
        (recordOf (jsonText zone)) := by
  rw [listAudit, listed_records, List.map_take, List.map_drop]

theorem countAudit_eq (zone : Option UtcOffset → List Char) (sha256 : Bytes → AuditChain.Digest)
    (appends : List AuditAppend) (q : AuditQuery) :
    countAudit (auditLog (jsonText zone) sha256 appends) q =
      (listedRows zone sha256 appends q).length := by
  have h := congrArg List.length (listed_records zone sha256 appends q)
  rwa [List.length_insertionSort, List.length_map] at h

/-- Lists over elements with distinct keys are the same when their keys are. -/
theorem eq_of_keys_eq {α β : Type*} {key : α → β} {all l l' : List α} (hnodup : (all.map key).Nodup)
    (hl : l ⊆ all) (hl' : l' ⊆ all) (h : l.map key = l'.map key) : l = l' := by
  have hinj := List.inj_on_of_nodup_map hnodup
  induction l generalizing l' with
  | nil => exact (List.map_eq_nil_iff.mp h.symm).symm
  | cons x l ih =>
    cases l' with
    | nil => cases h
    | cons y l' =>
      obtain ⟨hxy, hrest⟩ := List.cons.inj h
      rw [hinj (hl List.mem_cons_self) (hl' List.mem_cons_self) hxy,
        ih (List.subset_of_cons_subset hl) (List.subset_of_cons_subset hl') hrest]

theorem listedRows_subset : listedRows zone sha256 appends q ⊆
    returnedRows (jsonText zone) sha256 appends := fun _ hrow =>
  List.mem_of_mem_filter ((List.perm_insertionSort _ _).mem_iff.mp hrow)

/-- An exact answer is the listed rows. -/
theorem answersExactly_iff : AnswersExactly zone sha256 appends q ↔
    (listedRows zone sha256 appends q).Perm
        ((returnedRows (jsonText zone) sha256 appends).filter fun row =>
          q.Asks row.1.data ∧ q.Within row.1.data) ∧
      (listedRows zone sha256 appends q).Pairwise fun a b =>
        b.1.data.occurredAt.instant ≤ a.1.data.occurredAt.instant := by
  refine ⟨?_, ?_⟩
  · rintro ⟨rows, hperm, hnewest, hlist, hcount⟩
    have hlength := (countAudit_eq zone sha256 appends q).symm.trans hcount
    have hpage := hlist rows.length 0
    rw [listAudit_eq, List.drop_zero, List.drop_zero, List.take_length,
      List.take_of_length_le hlength.le] at hpage
    -- two rows differ in their ids, and the records show them
    have hkeys := congrArg (List.map AuditRecord.id) hpage
    rw [List.map_map, List.map_map] at hkeys
    have heq := eq_of_keys_eq (auditLog_eq (jsonText zone) sha256 appends).2 listedRows_subset
      (fun row hrow => List.mem_of_mem_filter (hperm.mem_iff.mp hrow)) hkeys
    rw [heq]
    exact ⟨hperm, hnewest⟩
  · rintro ⟨hperm, hnewest⟩
    exact ⟨_, hperm, hnewest, listAudit_eq zone sha256 appends q,
      countAudit_eq zone sha256 appends q⟩

theorem mem_listedRows : row ∈ listedRows zone sha256 appends q ↔
    row ∈ returnedRows (jsonText zone) sha256 appends ∧ q.Asks row.1.data ∧
      q.WithinDays row.1.data := by
  rw [listedRows, (List.perm_insertionSort _ _).mem_iff, List.mem_filter, decide_eq_true_iff]

theorem listedRows_sorted : (listedRows zone sha256 appends q).Pairwise (rowBefore zone) :=
  List.pairwise_insertionSort _ _

/-- The older of two rows is sorted before the newer one, by spelling and `id`. -/
def Misordered (zone : Option UtcOffset → List Char) (a b : AuditRowData) : Prop :=
  a.occurredAt.instant < b.occurredAt.instant ∧ sortKey zone b < sortKey zone a

instance (zone : Option UtcOffset → List Char) (a b : AuditRowData) :
    Decidable (Misordered zone a b) := inferInstanceAs (Decidable (_ ∧ _))

/-- **The audit list.** List and count are those of the window, newest first, exactly when no row
that passes the other filters lies in only one of the two windows, of instants and of whole days
as they are spelled, and no two rows of the window are spelled in the wrong order. -/
theorem audit_exact_iff (zone : Option UtcOffset → List Char)
    (sha256 : Bytes → AuditChain.Digest) (appends : List AuditAppend) (q : AuditQuery) :
    let rows := returnedRows (jsonText zone) sha256 appends
    AnswersExactly zone sha256 appends q ↔
      (∀ row ∈ rows, q.Asks row.1.data → (q.Within row.1.data ↔ q.WithinDays row.1.data)) ∧
        ∀ a ∈ rows, ∀ b ∈ rows, q.Asks a.1.data → q.Within a.1.data → q.Asks b.1.data →
          q.Within b.1.data → ¬ Misordered zone a.1.data b.1.data := by
  intro rows
  rw [answersExactly_iff]
  refine ⟨?_, ?_⟩
  · rintro ⟨hperm, hnewest⟩
    have hmem : ∀ row, row ∈ listedRows zone sha256 appends q ↔
        row ∈ rows ∧ q.Asks row.1.data ∧ q.Within row.1.data := fun row => by
      rw [hperm.mem_iff, List.mem_filter, decide_eq_true_iff]
    refine ⟨fun row hrow hasks => ?_, fun a ha b hb hasksA hinA hasksB hinB hmis => ?_⟩
    · have hiff := (hmem row).symm.trans mem_listedRows
      simpa [hrow, hasks, rows] using hiff
    · obtain ⟨holder, hkey⟩ := hmis
      have hne : a ≠ b := fun h => by simp [h] at holder
      rcases pairwise_or (listedRows_sorted.and hnewest) ((hmem a).mpr ⟨ha, hasksA, hinA⟩)
        ((hmem b).mpr ⟨hb, hasksB, hinB⟩) hne with ⟨-, hlate⟩ | ⟨hbefore, -⟩
      · exact absurd hlate holder.not_ge
      · exact absurd hbefore hkey.not_ge
  · rintro ⟨hwindow, horder⟩
    have hfilter : (rows.filter fun row => q.Asks row.1.data ∧ q.WithinDays row.1.data) =
        rows.filter fun row => q.Asks row.1.data ∧ q.Within row.1.data := by
      refine List.filter_congr fun row hrow => ?_
      rw [decide_eq_decide]
      exact and_congr_right fun hasks => (hwindow row hrow hasks).symm
    refine ⟨by rw [← hfilter]; exact List.perm_insertionSort _ _, ?_⟩
    refine listedRows_sorted.imp_of_mem fun {a b} ha hb hbefore => not_lt.mp fun holder => ?_
    obtain ⟨ha, hasksA, hdaysA⟩ := mem_listedRows.mp ha
    obtain ⟨hb, hasksB, hdaysB⟩ := mem_listedRows.mp hb
    have hnot := horder a ha b hb hasksA ((hwindow a ha hasksA).mpr hdaysA) hasksB
      ((hwindow b hb hasksB).mpr hdaysB)
    -- keys in the wrong order that are not misordered are the same key, of one row
    have hkey : sortKey zone b.1.data = sortKey zone a.1.data :=
      le_antisymm hbefore (not_lt.mp fun hlt => hnot ⟨holder, hlt⟩)
    have hid : uuidText b.1.data.id = uuidText a.1.data.id := congrArg (fun k => (ofLex k).2) hkey
    have hinj := List.inj_on_of_nodup_map (auditLog_eq (jsonText zone) sha256 appends).2
    rw [hinj hb ha hid] at holder
    exact lt_irrefl _ holder

/-- A fraction is left out when it is zero, and what comes next then is the `Z`. -/
theorem fraction_lt_iff {m n : ℕ} (hm : m < 10 ^ 6) (hn : n < 10 ^ 6) :
    Datetime.formatMicros m ++ ['Z'] < Datetime.formatMicros n ++ ['Z'] ↔
      m ≠ 0 ∧ (n = 0 ∨ m < n) := by
  have hpoint : ¬ ('Z' < '.') ∧ '.' < 'Z' := by decide
  rw [Datetime.formatMicros, Datetime.formatMicros]
  by_cases hm0 : m = 0
  · by_cases hn0 : n = 0
    · simp [hm0, hn0]
    · simp [hm0, hn0, List.cons_lt_cons_iff, hpoint.1]
  · by_cases hn0 : n = 0
    · simp [hm0, hn0, List.cons_lt_cons_iff, hpoint.2]
    · rw [if_neg hm0, if_neg hn0, List.cons_append, List.cons_append, List.cons_lt_cons_iff,
        append_lt_append_iff (by simp [Datetime.padded]), Datetime.padded_lt_iff hm hn]
      simp [hm0, hn0]

/-- Two spellings in UTC. -/
theorem jsonText_lt_of_utc (hzone : zone (some AuditChain.utc) = ['Z'])
    (hd : d.utcoffset = some AuditChain.utc) (ht : t.utcoffset = some AuditChain.utc) :
    jsonText zone d < jsonText zone t ↔ d.ordinalDay < t.ordinalDay ∨
      d.ordinalDay = t.ordinalDay ∧ (d.daySeconds < t.daySeconds ∨
        d.daySeconds = t.daySeconds ∧ d.microsecond ≠ 0 ∧
          (t.microsecond = 0 ∨ d.microsecond < t.microsecond)) := by
  have hus := d.microsecond_bound
  have hus' := t.microsecond_bound
  rw [String.lt_iff_toList_lt, jsonText, jsonText, String.toList_ofList, String.toList_ofList,
    append_lt_append_iff (by simp), Datetime.dateChars_lt_iff, Datetime.dateChars_eq_iff,
    List.cons_lt_cons_iff, append_lt_append_iff (by simp), Datetime.timeChars_lt_iff,
    Datetime.timeChars_eq_iff, hd, ht, hzone, fraction_lt_iff hus hus']
  simp

/-- **Spelling and time, in UTC.** Of two rows the older is sorted first exactly when both are of
one second and it is on the full second, for a point sorts before the `Z`. -/
theorem misordered_utc_iff (hzone : zone (some AuditChain.utc) = ['Z']) {a b : AuditRowData}
    (ha : a.occurredAt.utcoffset = some AuditChain.utc)
    (hb : b.occurredAt.utcoffset = some AuditChain.utc) :
    Misordered zone a b ↔ a.occurredAt.ordinalDay = b.occurredAt.ordinalDay ∧
      a.occurredAt.daySeconds = b.occurredAt.daySeconds ∧ a.occurredAt.microsecond = 0 ∧
      b.occurredAt.microsecond ≠ 0 := by
  have hua := a.occurredAt.microsecond_bound
  have hub := b.occurredAt.microsecond_bound
  have hda := a.occurredAt.dayMicros_lt
  have hdb := b.occurredAt.dayMicros_lt
  have hlt := jsonText_lt_of_utc hzone hb ha
  have hgt := jsonText_lt_of_utc hzone ha hb
  rw [Misordered, instant_of_utc ha, instant_of_utc hb, Int.ofNat_lt, sortKey, sortKey,
    Prod.Lex.toLex_lt_toLex, hlt]
  -- equal spellings are of equal times
  have hsame : jsonText zone b.occurredAt = jsonText zone a.occurredAt →
      ¬ a.occurredAt.wall < b.occurredAt.wall := by
    intro heq hwall
    rw [heq] at hlt hgt
    have hnlt := (not_congr hlt).mp (lt_irrefl _)
    have hngt := (not_congr hgt).mp (lt_irrefl _)
    simp only [Datetime.wall, Datetime.dayMicros_eq] at hwall
    omega
  simp only [Datetime.wall_lt_iff, Datetime.dayMicros_eq] at hsame hda hdb ⊢
  refine ⟨?_, ?_⟩
  · rintro ⟨holder, hkey | ⟨heq, -⟩⟩
    · omega
    · exact absurd holder (hsame heq)
  · intro h
    refine ⟨?_, .inl ?_⟩ <;> omega

end Audit

/-- The first call on an empty log. -/
theorem returnedRows_one (dumpAt : Datetime → String) (sha256 : Bytes → AuditChain.Digest)
    (d : AuditRowData) :
    ∃ row, returnedRows dumpAt sha256 [⟨d, false⟩] = [row] ∧ row.1.data = d := by
  have hchain : (appendChain dumpAt sha256 [] d).isNone = false := by
    have hvalid : AuditChain.ValidHash genesisPrevHash := AuditChain.length_genesisPrevHash
    simp [appendChain, AuditChain.nextLink, AuditChain.orderBySeq, hvalid]
  have hreturned : ∃ row, returnedRow dumpAt sha256 [] ⟨d, false⟩ = some row ∧ row.1.data = d := by
    refine ⟨_, if_neg (by simp [hchain]), rfl⟩
  obtain ⟨row, hrow, hdata⟩ := hreturned
  refine ⟨row, ?_, hdata⟩
  rw [returnedRows, List.foldl_cons, List.foldl_nil, List.map_nil, hrow]
  rfl

/-- Noon of the day of the sample row. -/
def sampleNoon : Datetime := { AuditChain.sampleAt with hour := 12, hour_bound := by decide }

/-- The rows since noon. -/
def sinceNoon : AuditQuery := ⟨some sampleNoon, none, none, none, none⟩

/-- The row is of the morning, and the list for the afternoon has it. -/
theorem audit_lists_morning : ¬ AnswersExactly (fun _ => ['Z']) AuditChain.hashlibSha256
    [⟨AuditChain.sampleData 1, false⟩] sinceNoon := by
  intro h
  obtain ⟨row, hrows, hdata⟩ := returnedRows_one (jsonText fun _ => ['Z'])
    AuditChain.hashlibSha256 (AuditChain.sampleData 1)
  have hlisted : row ∈ listedRows (fun _ => ['Z']) AuditChain.hashlibSha256
      [⟨AuditChain.sampleData 1, false⟩] sinceNoon := by
    rw [mem_listedRows, hrows, hdata]
    exact ⟨List.mem_singleton_self row, by decide +kernel, by decide +kernel⟩
  have hwithin := List.of_mem_filter ((answersExactly_iff.mp h).1.mem_iff.mp hlisted)
  rw [decide_eq_true_iff, hdata] at hwithin
  exact absurd hwithin.2 (by decide +kernel)

end Eyenet.TimeWindow
