import Eyenet.FileAccessJournal
import Eyenet.Machine

/-!
# Acknowledgment nonces and the journal append

An access above the normal tier needs a single-use acknowledgment nonce. `record_access` checks
the operator's key, signature, timestamp and papers, and then consumes the nonce and appends the
journal row in one `BEGIN IMMEDIATE` transaction (`sqlmodel_repo/file_access.py`,
`sqlite_repo/repository.py`).

Every call is split at its awaits: a label is one step of one call, a call can fail at any of
them, and a run is any interleaving of any number of calls. The database keeps a history of the
writes that took effect, each under the call that made it.

* `AuditDb.Consistent` — the history, the nonces and the journal agree.
* `acknowledgment_single_use` — what holds in every state of every run; in particular a call
  that failed before its commit might as well not have been made (`run_erase`).
-/

namespace Eyenet

open Framing HashChain Machine

/-! ## The request and its checks -/

/-- The arguments of `record_access`, with the clock it reads and the identifier it draws. -/
structure AccessRequest where
  userId : Uuid
  auditEventId : Option Uuid
  grantId : Option Uuid
  acknowledgmentId : Option Uuid
  contentHash : Bytes
  contentSize : ℤ
  contentMime : String
  tier : SensitivityTier
  servedVia : FileServedVia
  signingPubkeyFingerprint : String
  operatorSignature : Bytes
  sigMethod : String
  sigUrl : String
  sigRequestId : String
  sigTimestamp : String
  sigBodyHash : String
  /-- `freshness_window`, in microseconds -/
  freshnessWindow : ℤ
  /-- `now`, or the clock when the call starts -/
  servedAt : Datetime
  /-- the new `access_id` -/
  accessId : Uuid
  deriving DecidableEq

/-- `_DEFAULT_FRESHNESS_WINDOW` -/
def defaultFreshnessWindow : ℤ := 300 * 1000000

/-- A row of the signing-key history. -/
structure SigningKey where
  userId : Uuid
  fingerprint : String
  verifyingKey : Bytes
  deriving DecidableEq

/-- Why a `FileAccessJournalError` is raised. -/
inductive FileAccessJournalError where
  /-- the user has no key with this fingerprint -/
  | noSigningKey (userId : Uuid) (fingerprint : String)
  /-- the operator signature does not verify -/
  | signatureFailed (userId : Uuid)
  /-- the signed timestamp is not ISO-8601 -/
  | timestampUnparseable (sigTimestamp : String)
  /-- the signed timestamp is too old or too new -/
  | timestampNotFresh (sigTimestamp : String)
  /-- a tier above normal without its grant or its acknowledgment -/
  | grantAndAckRequired (tier : SensitivityTier) (grantId acknowledgmentId : Option Uuid)
  /-- the nonce is used, expired or unknown -/
  | nonceUnusable (nonce : Uuid)
  deriving DecidableEq

/-- `build_canonical`: the request form that the operator signs. -/
def buildCanonical (r : AccessRequest) : Option Bytes :=
  frames 4 [utf8 "EYENET-SIG-v1", utf8 r.sigMethod, utf8 r.sigUrl, utf8 r.sigRequestId,
    utf8 r.sigTimestamp, utf8 r.sigBodyHash, utf8 (hex r.contentHash)]

section Checks

variable (verifySignature : Bytes → Bytes → Bytes → Bool)
variable (fromisoformat : String → Option Datetime)

/-- `lookup_key_for_user` -/
def lookupKeyForUser (keys : List SigningKey) (userId : Uuid) (fingerprint : String) :
    Option SigningKey :=
  keys.find? fun k => k.userId == userId && k.fingerprint == fingerprint

/-- The row that `record_access` prepares. -/
def AccessRequest.prepared (r : AccessRequest) : PreparedJournalRow where
  accessId := r.accessId
  auditEventId := r.auditEventId
  userId := r.userId
  grantId := r.grantId
  contentHash := r.contentHash
  contentSize := r.contentSize
  contentMime := r.contentMime
  tier := r.tier
  servedAt := r.servedAt
  servedVia := r.servedVia
  acknowledgmentId := r.acknowledgmentId
  operatorSignature := r.operatorSignature
  signingPubkeyFingerprint := r.signingPubkeyFingerprint

/-- The checks of `record_access`, in their order; the inner `none` is an exception of another
kind. -/
def checkAccess (keys : List SigningKey) (r : AccessRequest) :
    Except (Option FileAccessJournalError) PreparedJournalRow :=
  match lookupKeyForUser keys r.userId r.signingPubkeyFingerprint with
  | none => .error (some (.noSigningKey r.userId r.signingPubkeyFingerprint))
  | some key =>
    match buildCanonical r with
    | none => .error none
    | some canonical =>
      if !verifySignature key.verifyingKey canonical r.operatorSignature then
        .error (some (.signatureFailed r.userId))
      else match fromisoformat r.sigTimestamp with
        | none => .error (some (.timestampUnparseable r.sigTimestamp))
        | some signedAt =>
          if |r.servedAt.instant - signedAt.instant| > r.freshnessWindow then
            .error (some (.timestampNotFresh r.sigTimestamp))
          else if r.tier ≠ .normal ∧ (r.grantId.isNone ∨ r.acknowledgmentId.isNone) then
            .error (some (.grantAndAckRequired r.tier r.grantId r.acknowledgmentId))
          else .ok r.prepared

end Checks

/-! ## The audit database -/

/-- A row of `file_access_acknowledgment`; times are instants. -/
structure AcknowledgmentRow where
  nonce : Uuid
  userId : Uuid
  contentHash : String
  issuedAt : ℤ
  expiresAt : ℤ
  consumedAt : Option ℤ
  deriving DecidableEq

/-- `_ACK_TTL`: sixty seconds. -/
def ackTtl : ℤ := 60 * 1000000

/-- The predicate of the conditional update: the nonce, unconsumed and unexpired. -/
def AcknowledgmentRow.usable (nonce : Uuid) (now : ℤ) (a : AcknowledgmentRow) : Bool :=
  a.nonce == nonce && a.consumedAt.isNone && decide (now < a.expiresAt)

/-- `SET consumed_at = now` where the predicate holds. -/
def AcknowledgmentRow.consume (nonce : Uuid) (now : ℤ) (a : AcknowledgmentRow) :
    AcknowledgmentRow :=
  if a.usable nonce now then { a with consumedAt := some now } else a

/-- A write that took effect, and the call of `record_access` that made it, if any. -/
inductive AuditEvent where
  /-- a nonce was consumed under this `now` -/
  | consumed (nonce : Uuid) (now : ℤ) (caller : Option ℕ)
  /-- a row was appended -/
  | appended (row : JournalRow) (caller : ℕ)
  deriving DecidableEq

/-- The call of `record_access` behind an event, if any. -/
def AuditEvent.caller : AuditEvent → Option ℕ
  | consumed _ _ caller => caller
  | appended _ caller => some caller

/-- The nonce that an event consumes. -/
def AuditEvent.nonce : AuditEvent → Option Uuid
  | consumed nonce _ _ => some nonce
  | appended _ _ => none

/-- The two tables, with the history of their writes. -/
structure AuditDb where
  journal : List JournalRow
  acknowledgments : List AcknowledgmentRow
  history : List AuditEvent

namespace AuditDb

/-- `record_acknowledgment`: insert a fresh nonce that expires in sixty seconds. -/
def recordAcknowledgment (db : AuditDb) (nonce userId : Uuid) (contentHash : String)
    (now : ℤ) : Option AuditDb :=
  if db.acknowledgments.any fun a => a.nonce == nonce then none
  else some { db with
    acknowledgments := ⟨nonce, userId, contentHash, now, now + ackTtl, none⟩ ::
      db.acknowledgments }

/-- The conditional update `SET consumed_at = now WHERE …`; `none` when its row count is not
one. -/
def consume (db : AuditDb) (nonce : Uuid) (now : ℤ) (caller : Option ℕ) : Option AuditDb :=
  if db.acknowledgments.countP (AcknowledgmentRow.usable nonce now) = 1 then
    some { db with
      acknowledgments := db.acknowledgments.map (AcknowledgmentRow.consume nonce now)
      history := .consumed nonce now caller :: db.history }
  else none

/-- Insert a journal row. -/
def insert (db : AuditDb) (row : JournalRow) (caller : ℕ) : AuditDb :=
  { db with journal := db.journal ++ [row], history := .appended row caller :: db.history }

end AuditDb

/-! ## Calls in progress -/

/-- Where a call of `record_access` stands. -/
inductive AccessPhase where
  /-- called, nothing checked yet -/
  | called (r : AccessRequest)
  /-- every check passed -/
  | checked (p : PreparedJournalRow)
  /-- inside the transaction, before the nonce is consumed -/
  | begun (p : PreparedJournalRow)
  /-- the nonce is consumed when one is named -/
  | consumed (p : PreparedJournalRow)
  /-- the head of the journal is read -/
  | linked (p : PreparedJournalRow) (nextSeq : ℤ) (prev : Bytes)
  /-- the row is inserted -/
  | inserted (p : PreparedJournalRow)
  /-- the transaction is committed; the cursor and the connection are still open -/
  | committed
  /-- the `access_id` is returned -/
  | returned
  /-- an exception left the call before its commit took effect -/
  | failed (error : Option FileAccessJournalError)
  /-- an exception left the call after its commit -/
  | failedAfterCommit
  deriving DecidableEq

/-- The database, the transaction that holds the write lock with its uncommitted view, and the
calls. -/
structure AccessState where
  db : AuditDb
  keys : List SigningKey
  writer : Option (ℕ × AuditDb)
  calls : ℕ → Option AccessPhase

/-- One step of one call. -/
inductive AccessStep where
  /-- `record_acknowledgment` commits -/
  | recordAcknowledgment (nonce userId : Uuid) (contentHash : String) (now : ℤ)
  /-- `consume_acknowledgment` commits -/
  | consumeAcknowledgment (nonce : Uuid) (now : ℤ)
  /-- `record_signing_key` commits -/
  | recordSigningKey (key : SigningKey)
  /-- `record_access` is called -/
  | call (c : ℕ) (r : AccessRequest)
  /-- the key is looked up and the request is checked -/
  | check (c : ℕ)
  /-- `BEGIN IMMEDIATE`, once the write lock is free -/
  | begin_ (c : ℕ)
  /-- `_consume_nonce_locked`, when an acknowledgment is named -/
  | consume (c : ℕ)
  /-- `SELECT seq, self_hash … LIMIT 1` -/
  | readHead (c : ℕ)
  /-- `INSERT` -/
  | insert (c : ℕ)
  /-- `COMMIT` -/
  | commit (c : ℕ)
  /-- the cursor is closed and the call returns -/
  | finish (c : ℕ)
  /-- an exception is raised at the point where the call stands -/
  | fail (c : ℕ)

namespace AccessState

/-- Put a call into a phase. -/
def setPhase (s : AccessState) (c : ℕ) (phase : AccessPhase) : AccessState :=
  { s with calls := Function.update s.calls c (some phase) }

/-- Let a call that holds the write lock go on with a new view. -/
def setView (s : AccessState) (c : ℕ) (view : AuditDb) (phase : AccessPhase) : AccessState :=
  { s.setPhase c phase with writer := some (c, view) }

/-- Roll a call's transaction back: its view is dropped. -/
def rollback (s : AccessState) (c : ℕ) (error : Option FileAccessJournalError) : AccessState :=
  { s.setPhase c (.failed error) with writer := s.writer.filter fun w => w.1 ≠ c }

/-- The uncommitted view of a call that holds the write lock. -/
def view (s : AccessState) (c : ℕ) : Option AuditDb :=
  match s.writer with
  | none => none
  | some (c', db) => if c' = c then some db else none

/-- Nothing recorded, nobody calling. -/
def initial : AccessState := ⟨⟨[], [], []⟩, [], none, fun _ => none⟩

end AccessState

section Step

variable (sha256 : Bytes → Bytes) (readBack : Datetime → Datetime)
variable (verifySignature : Bytes → Bytes → Bytes → Bool)
variable (fromisoformat : String → Option Datetime)

/-- One step of one call. A single-statement write needs the write lock to be free. -/
def accessStep (s : AccessState) : AccessStep → Option AccessState
  | .recordAcknowledgment nonce userId contentHash now =>
    if s.writer.isSome then none
    else (s.db.recordAcknowledgment nonce userId contentHash now).map fun db => { s with db := db }
  | .consumeAcknowledgment nonce now =>
    if s.writer.isSome then none
    else some { s with db := (s.db.consume nonce now none).getD s.db }
  | .recordSigningKey key =>
    if s.writer.isSome ∨ (lookupKeyForUser s.keys key.userId key.fingerprint).isSome then none
    else some { s with keys := key :: s.keys }
  | .call c r => if (s.calls c).isSome then none else some (s.setPhase c (.called r))
  | .check c =>
    match s.calls c with
    | some (.called r) =>
      match checkAccess verifySignature fromisoformat s.keys r with
      | .error e => some (s.setPhase c (.failed e))
      | .ok p => some (s.setPhase c (.checked p))
    | _ => none
  | .begin_ c =>
    match s.calls c with
    | some (.checked p) => if s.writer.isSome then none else some (s.setView c s.db (.begun p))
    | _ => none
  | .consume c =>
    match s.calls c, s.view c with
    | some (.begun p), some view =>
      match p.acknowledgmentId with
      | none => some (s.setPhase c (.consumed p))
      | some nonce =>
        match view.consume nonce p.servedAt.instant (some c) with
        | none => some (s.rollback c (some (.nonceUnusable nonce)))
        | some view' => some (s.setView c view' (.consumed p))
    | _, _ => none
  | .readHead c =>
    match s.calls c, s.view c with
    | some (.consumed p), some view =>
      match nextLink view.journal with
      | none => some (s.rollback c none)
      | some (nextSeq, prev) => some (s.setPhase c (.linked p nextSeq prev))
    | _, _ => none
  | .insert c =>
    match s.calls c, s.view c with
    | some (.linked p nextSeq prev), some view =>
      match insertRow sha256 readBack view.journal nextSeq prev p with
      | none => some (s.rollback c none)
      | some row => some (s.setView c (view.insert row c) (.inserted p))
    | _, _ => none
  | .commit c =>
    match s.calls c, s.view c with
    | some (.inserted _), some view =>
      some { s.setPhase c .committed with db := view, writer := none }
    | _, _ => none
  | .finish c =>
    match s.calls c with
    | some .committed => some (s.setPhase c .returned)
    | _ => none
  | .fail c =>
    match s.calls c with
    | some (.called _) | some (.checked _) => some (s.setPhase c (.failed none))
    | some (.begun _) | some (.consumed _) | some (.linked ..) | some (.inserted _) =>
      some (s.rollback c none)
    | some .committed => some (s.setPhase c .failedAfterCommit)
    | _ => none

end Step

/-! ## The history, the nonces and the journal agree -/

/-- The two tables are exactly what the history says, and the history consumes no nonce twice
and none after its expiry. -/
structure AuditDb.Consistent (db : AuditDb) : Prop where
  /-- the primary key -/
  nonces : (db.acknowledgments.map AcknowledgmentRow.nonce).Nodup
  /-- no nonce is consumed twice -/
  consumedOnce : (db.history.filterMap AuditEvent.nonce).Nodup
  /-- a consumed nonce is marked, under a time before its expiry -/
  consumed : ∀ {n t c}, .consumed n t c ∈ db.history →
    ∃ a ∈ db.acknowledgments, a.nonce = n ∧ a.consumedAt = some t ∧ t < a.expiresAt
  /-- a marked nonce was consumed -/
  marked : ∀ {a t}, a ∈ db.acknowledgments → a.consumedAt = some t →
    ∃ c, .consumed a.nonce t c ∈ db.history
  /-- a row was appended by a call that consumed the nonce it names -/
  rows : ∀ {row}, row ∈ db.journal → ∃ c, .appended row c ∈ db.history ∧
    ∀ n, row.prepared.acknowledgmentId = some n → ∃ t, .consumed n t (some c) ∈ db.history
  /-- no two rows name one nonce -/
  rowsOnce : (db.journal.filterMap fun row => row.prepared.acknowledgmentId).Nodup

section Tables

variable {db db' : AuditDb} {nonce userId : Uuid} {now : ℤ} {caller : Option ℕ}

theorem AcknowledgmentRow.usable_iff {a : AcknowledgmentRow} :
    a.usable nonce now = true ↔ a.nonce = nonce ∧ a.consumedAt = none ∧ now < a.expiresAt := by
  simp [AcknowledgmentRow.usable, and_assoc]

@[simp] theorem AcknowledgmentRow.consume_nonce (a : AcknowledgmentRow) :
    (a.consume nonce now).nonce = a.nonce := by
  rw [AcknowledgmentRow.consume]
  split <;> rfl

theorem AcknowledgmentRow.consume_of_consumed {a : AcknowledgmentRow} {t : ℤ}
    (h : a.consumedAt = some t) : a.consume nonce now = a := by
  rw [AcknowledgmentRow.consume, if_neg]
  intro husable
  rw [(AcknowledgmentRow.usable_iff.mp husable).2.1] at h
  cases h

/-- A nonce determines its row. -/
theorem AuditDb.Consistent.eq_of_nonce (h : db.Consistent) {a b : AcknowledgmentRow}
    (ha : a ∈ db.acknowledgments) (hb : b ∈ db.acknowledgments) (heq : a.nonce = b.nonce) :
    a = b :=
  List.inj_on_of_nodup_map h.nonces ha hb heq

/-- **What a conditional update does** when it counts one row. -/
theorem AuditDb.consume_eq_some (h : db.consume nonce now caller = some db') :
    (∃ a ∈ db.acknowledgments, a.usable nonce now = true) ∧
      db' = ⟨db.journal, db.acknowledgments.map (AcknowledgmentRow.consume nonce now),
        .consumed nonce now caller :: db.history⟩ := by
  rw [AuditDb.consume] at h
  split_ifs at h with hcount
  refine ⟨?_, (Option.some.inj h).symm⟩
  exact List.countP_pos_iff.mp (by omega)

theorem AuditDb.Consistent.consume (h : db.Consistent)
    (hconsume : db.consume nonce now caller = some db') : db'.Consistent := by
  obtain ⟨⟨a, ha, husable⟩, rfl⟩ := AuditDb.consume_eq_some hconsume
  obtain ⟨hnonce, hfree, hlive⟩ := AcknowledgmentRow.usable_iff.mp husable
  refine ⟨?_, ?_, ?_, ?_, ?_, h.rowsOnce⟩
  · rw [List.map_map]
    have hsame : AcknowledgmentRow.nonce ∘ AcknowledgmentRow.consume nonce now =
        AcknowledgmentRow.nonce := funext AcknowledgmentRow.consume_nonce
    rw [hsame]
    exact h.nonces
  · refine List.nodup_cons.mpr ⟨?_, h.consumedOnce⟩
    intro hmem
    obtain ⟨e, he, hn⟩ := List.mem_filterMap.mp hmem
    cases e with
    | appended row c => cases hn
    | consumed n t c =>
      obtain rfl : n = nonce := Option.some.inj hn
      obtain ⟨b, hb, hbnonce, hbat, -⟩ := h.consumed he
      rw [h.eq_of_nonce ha hb (hnonce.trans hbnonce.symm), hbat] at hfree
      cases hfree
  · intro n t c he
    rcases List.mem_cons.mp he with heq | he
    · cases heq
      refine ⟨a.consume nonce now, List.mem_map_of_mem ha, by simpa using hnonce, ?_⟩
      rw [AcknowledgmentRow.consume, if_pos husable]
      exact ⟨rfl, hlive⟩
    · obtain ⟨b, hb, hbnonce, hbat, hlt⟩ := h.consumed he
      refine ⟨b, ?_, hbnonce, hbat, hlt⟩
      exact List.mem_map.mpr ⟨b, hb, AcknowledgmentRow.consume_of_consumed hbat⟩
  · intro b' t hb' hat
    obtain ⟨b, hb, rfl⟩ := List.mem_map.mp hb'
    rw [AcknowledgmentRow.consume] at hat
    split_ifs at hat with husable'
    · obtain rfl : now = t := Option.some.inj hat
      refine ⟨caller, ?_⟩
      rw [AcknowledgmentRow.consume_nonce, (AcknowledgmentRow.usable_iff.mp husable').1]
      exact List.mem_cons_self
    · obtain ⟨c, hc⟩ := h.marked hb hat
      refine ⟨c, ?_⟩
      rw [AcknowledgmentRow.consume_nonce]
      exact List.mem_cons_of_mem _ hc
  · intro row hrow
    obtain ⟨c, hc, hown⟩ := h.rows hrow
    refine ⟨c, List.mem_cons_of_mem _ hc, ?_⟩
    intro n hn
    obtain ⟨t, ht⟩ := hown n hn
    exact ⟨t, List.mem_cons_of_mem _ ht⟩

theorem AuditDb.Consistent.recordAcknowledgment {contentHash : String} (h : db.Consistent)
    (hrecord : db.recordAcknowledgment nonce userId contentHash now = some db') :
    db'.Consistent := by
  rw [AuditDb.recordAcknowledgment] at hrecord
  split_ifs at hrecord with htaken
  cases hrecord
  have hfresh : nonce ∉ db.acknowledgments.map AcknowledgmentRow.nonce := by
    intro hmem
    obtain ⟨a, ha, rfl⟩ := List.mem_map.mp hmem
    exact htaken (List.any_eq_true.mpr ⟨a, ha, by simp⟩)
  refine ⟨List.nodup_cons.mpr ⟨hfresh, h.nonces⟩, h.consumedOnce, ?_, ?_, h.rows, h.rowsOnce⟩
  · intro n t c he
    obtain ⟨a, ha, hrest⟩ := h.consumed he
    exact ⟨a, List.mem_cons_of_mem _ ha, hrest⟩
  · intro a t ha hat
    rcases List.mem_cons.mp ha with rfl | ha
    · cases hat
    · exact h.marked ha hat

/-- Two elements of a list with one image are equal when the images are told apart. -/
theorem eq_of_nodup_filterMap {α β : Type*} {f : α → Option β} {l : List α} {a b : α} {x : β}
    (h : (l.filterMap f).Nodup) (ha : a ∈ l) (hb : b ∈ l) (hfa : f a = some x)
    (hfb : f b = some x) : a = b := by
  induction l with
  | nil => cases ha
  | cons c l ih =>
    have htail : (l.filterMap f).Nodup := h.sublist ((List.sublist_cons_self c l).filterMap f)
    have hnot : f c = some x → x ∉ l.filterMap f := by
      intro hfc
      rw [List.filterMap_cons_some hfc] at h
      exact (List.nodup_cons.mp h).1
    rcases List.mem_cons.mp ha with hac | hal <;> rcases List.mem_cons.mp hb with hbc | hbl
    · rw [hac, hbc]
    · exact absurd (List.mem_filterMap.mpr ⟨b, hbl, hfb⟩) (hnot (hac ▸ hfa))
    · exact absurd (List.mem_filterMap.mpr ⟨a, hal, hfa⟩) (hnot (hbc ▸ hfb))
    · exact ih htail hal hbl

/-- A nonce is consumed by one caller. -/
theorem AuditDb.Consistent.caller_unique (h : db.Consistent) {n : Uuid} {t t' : ℤ}
    {c c' : Option ℕ} (he : .consumed n t c ∈ db.history) (he' : .consumed n t' c' ∈ db.history) :
    c = c' := by
  have heq : AuditEvent.consumed n t c = .consumed n t' c' :=
    eq_of_nodup_filterMap h.consumedOnce he he' rfl rfl
  cases heq
  rfl

/-- A call that has consumed the nonce it names, and has appended nothing, can append. -/
theorem AuditDb.Consistent.insert (h : db.Consistent) {row : JournalRow} {c : ℕ}
    (hown : ∀ n, row.prepared.acknowledgmentId = some n →
      ∃ t, .consumed n t (some c) ∈ db.history)
    (hnew : ∀ row', .appended row' c ∉ db.history) : (db.insert row c).Consistent := by
  refine ⟨h.nonces, h.consumedOnce, ?_, ?_, ?_, ?_⟩
  · intro n t c' he
    rcases List.mem_cons.mp he with heq | he
    · cases heq
    · exact h.consumed he
  · intro a t ha hat
    obtain ⟨c', hc'⟩ := h.marked ha hat
    exact ⟨c', List.mem_cons_of_mem _ hc'⟩
  · intro row' hrow'
    rcases List.mem_append.mp hrow' with hrow' | hrow'
    · obtain ⟨c', hc', hown'⟩ := h.rows hrow'
      refine ⟨c', List.mem_cons_of_mem _ hc', ?_⟩
      intro n hn
      obtain ⟨t, ht⟩ := hown' n hn
      exact ⟨t, List.mem_cons_of_mem _ ht⟩
    · obtain rfl := List.mem_singleton.mp hrow'
      refine ⟨c, List.mem_cons_self, ?_⟩
      intro n hn
      obtain ⟨t, ht⟩ := hown n hn
      exact ⟨t, List.mem_cons_of_mem _ ht⟩
  · change ((db.journal ++ [row]).filterMap _).Nodup
    rw [List.filterMap_append]
    cases hack : row.prepared.acknowledgmentId with
    | none => simpa [hack] using h.rowsOnce
    | some n =>
      obtain ⟨t, ht⟩ := hown n hack
      have hother : ∀ row' ∈ db.journal, row'.prepared.acknowledgmentId ≠ some n := by
        intro row' hrow' hn
        obtain ⟨c', hc', hown'⟩ := h.rows hrow'
        obtain ⟨t', ht'⟩ := hown' n hn
        obtain rfl : c = c' := Option.some.inj (h.caller_unique ht ht')
        exact hnew row' hc'
      refine List.nodup_append.mpr ⟨h.rowsOnce, by simp [hack], ?_⟩
      intro m hm m' hm' heq
      subst heq
      obtain ⟨row', hrow', hn⟩ := List.mem_filterMap.mp hm
      have hmn : m = n := by simpa [hack] using hm'
      exact hother row' hrow' (hmn ▸ hn)

end Tables

/-! ## Every interleaving -/

/-- The commit of the call took effect. -/
def AccessPhase.Committed : Option AccessPhase → Prop
  | some .committed | some .returned | some .failedAfterCommit => True
  | _ => False

/-- What the uncommitted view of a call holds at each phase of its transaction. -/
def AccessPhase.Holds (c : ℕ) (view : AuditDb) : Option AccessPhase → Prop
  | some (.begun _) => ∀ e ∈ view.history, e.caller ≠ some c
  | some (.consumed p) | some (.linked p _ _) => (∀ row, .appended row c ∉ view.history) ∧
      ∀ n, p.acknowledgmentId = some n → ∃ t, .consumed n t (some c) ∈ view.history
  | some (.inserted _) => True
  | _ => False

/-- The database and the open view are consistent, the view adds only events of the call that
holds the lock, and the database holds events of committed calls only. -/
structure AccessState.Sound (s : AccessState) : Prop where
  db : s.db.Consistent
  committed : ∀ e ∈ s.db.history, ∀ c, e.caller = some c → AccessPhase.Committed (s.calls c)
  view : ∀ {c view}, s.writer = some (c, view) → view.Consistent ∧
    (∀ e ∈ view.history, e ∈ s.db.history ∨ e.caller = some c) ∧
    AccessPhase.Holds c view (s.calls c)

section Runs

variable {sha256 : Bytes → Bytes} {readBack : Datetime → Datetime}
variable {verifySignature : Bytes → Bytes → Bytes → Bool}
variable {fromisoformat : String → Option Datetime}
variable {s s' : AccessState} {a : AccessStep} {c : ℕ}

namespace AccessState

theorem view_eq_some {view : AuditDb} : s.view c = some view ↔ s.writer = some (c, view) := by
  rw [AccessState.view]
  rcases s.writer with _ | ⟨c', db⟩
  · simp
  · by_cases h : c' = c <;> simp [h]

@[simp] theorem setPhase_self (phase : AccessPhase) : (s.setPhase c phase).calls c = some phase :=
  Function.update_self ..

@[simp] theorem setPhase_ne {d : ℕ} (h : d ≠ c) (phase : AccessPhase) :
    (s.setPhase c phase).calls d = s.calls d :=
  Function.update_of_ne h ..

/-- A call that is not committed moves on outside the transaction of another call. -/
theorem Sound.setPhase (h : s.Sound) {phase : AccessPhase}
    (hcommitted : AccessPhase.Committed (s.calls c) → AccessPhase.Committed (some phase))
    (hview : ∀ view, s.writer = some (c, view) → AccessPhase.Holds c view (some phase)) :
    (s.setPhase c phase).Sound := by
  refine ⟨h.db, ?_, ?_⟩
  · intro e he d hd
    by_cases hdc : d = c
    · subst hdc
      rw [setPhase_self]
      exact hcommitted (h.committed e he d hd)
    · rw [setPhase_ne hdc]
      exact h.committed e he d hd
  · intro d view hw
    obtain ⟨hcons, hadds, hholds⟩ := h.view hw
    refine ⟨hcons, hadds, ?_⟩
    by_cases hdc : d = c
    · subst hdc
      rw [setPhase_self]
      exact hview view hw
    · rw [setPhase_ne hdc]
      exact hholds

/-- The call that holds the lock goes on with a consistent view. -/
theorem Sound.setView (h : s.Sound) {view : AuditDb} {phase : AccessPhase}
    (hcommitted : ¬ AccessPhase.Committed (s.calls c)) (hcons : view.Consistent)
    (hadds : ∀ e ∈ view.history, e ∈ s.db.history ∨ e.caller = some c)
    (hholds : AccessPhase.Holds c view (some phase)) : (s.setView c view phase).Sound := by
  refine ⟨h.db, ?_, ?_⟩
  · intro e he d hd
    have hdc : d ≠ c := by
      rintro rfl
      exact hcommitted (h.committed e he d hd)
    have hd := h.committed e he d hd
    rwa [← setPhase_ne hdc phase] at hd
  · intro d view' hw
    obtain ⟨rfl, rfl⟩ := Prod.mk.inj (Option.some.inj hw)
    refine ⟨hcons, hadds, ?_⟩
    have hself : (s.setView c view phase).calls c = some phase := setPhase_self phase
    rw [hself]
    exact hholds

theorem Sound.rollback (h : s.Sound) (hcommitted : ¬ AccessPhase.Committed (s.calls c))
    (error : Option FileAccessJournalError) : (s.rollback c error).Sound := by
  refine ⟨h.db, ?_, ?_⟩
  · intro e he d hd
    have hdc : d ≠ c := by
      rintro rfl
      exact hcommitted (h.committed e he d hd)
    have hd := h.committed e he d hd
    rwa [← setPhase_ne hdc (.failed error)] at hd
  · intro d view hw
    obtain ⟨hw, hdc⟩ := Option.filter_eq_some_iff.mp hw
    have hdc : d ≠ c := by simpa using hdc
    obtain ⟨hcons, hadds, hholds⟩ := h.view hw
    refine ⟨hcons, hadds, ?_⟩
    rwa [← setPhase_ne hdc (.failed error)] at hholds

/-- A single-statement write while the lock is free. -/
theorem Sound.setDb (h : s.Sound) {db : AuditDb} (hfree : s.writer = none) (hcons : db.Consistent)
    (hadds : ∀ e ∈ db.history, e ∈ s.db.history ∨ e.caller = none) :
    { s with db := db }.Sound := by
  refine ⟨hcons, ?_, ?_⟩
  · intro e he d hd
    rcases hadds e he with he | hnone
    · exact h.committed e he d hd
    · rw [hnone] at hd
      cases hd
  · intro d view hw
    rw [hfree] at hw
    cases hw

theorem Sound.initial : AccessState.initial.Sound where
  db := ⟨List.nodup_nil, List.nodup_nil, fun h => absurd h List.not_mem_nil,
    fun h => absurd h List.not_mem_nil, fun h => absurd h List.not_mem_nil, List.nodup_nil⟩
  committed _ he := absurd he List.not_mem_nil
  view h := nomatch h

end AccessState

open AccessState

/-- One step of one call keeps the invariant. -/
theorem AccessState.Sound.step (h : s.Sound)
    (hstep : accessStep sha256 readBack verifySignature fromisoformat s a = some s') :
    s'.Sound := by
  cases a with
  | recordAcknowledgment nonce userId contentHash now =>
    simp only [accessStep] at hstep
    split_ifs at hstep with hfree
    obtain ⟨db, hdb, rfl⟩ := Option.map_eq_some_iff.mp hstep
    refine h.setDb (by simpa using hfree) (h.db.recordAcknowledgment hdb) ?_
    rw [AuditDb.recordAcknowledgment] at hdb
    split_ifs at hdb
    cases hdb
    exact fun e he => .inl he
  | consumeAcknowledgment nonce now =>
    simp only [accessStep] at hstep
    split_ifs at hstep with hfree
    cases hstep
    have hfree : s.writer = none := by simpa using hfree
    cases hconsume : s.db.consume nonce now none with
    | none => exact h
    | some db =>
      refine h.setDb hfree (h.db.consume hconsume) ?_
      obtain ⟨-, rfl⟩ := AuditDb.consume_eq_some hconsume
      intro e he
      rcases List.mem_cons.mp he with rfl | he
      · exact .inr rfl
      · exact .inl he
  | recordSigningKey key =>
    simp only [accessStep] at hstep
    split_ifs at hstep
    cases hstep
    exact ⟨h.db, h.committed, h.view⟩
  | call c r =>
    simp only [accessStep] at hstep
    split_ifs at hstep with hnew
    cases hstep
    have hnone : s.calls c = none := by simpa using hnew
    refine h.setPhase (by simp [hnone, AccessPhase.Committed]) ?_
    intro view hw
    have := (h.view hw).2.2
    rw [hnone] at this
    exact this.elim
  | check c =>
    simp only [accessStep] at hstep
    split at hstep
    case h_1 r hcall =>
      have hview : ∀ view, s.writer = some (c, view) → False := by
        intro view hw
        have := (h.view hw).2.2
        rw [hcall] at this
        exact this
      split at hstep
      all_goals
        cases hstep
        exact h.setPhase (by simp [hcall, AccessPhase.Committed]) fun view hw =>
          (hview view hw).elim
    case h_2 => cases hstep
  | begin_ c =>
    simp only [accessStep] at hstep
    split at hstep
    case h_1 p hcall =>
      split_ifs at hstep
      cases hstep
      have hcommitted : ¬ AccessPhase.Committed (s.calls c) := by
        simp [hcall, AccessPhase.Committed]
      refine h.setView hcommitted h.db (fun e he => .inl he) ?_
      intro e he hc
      exact hcommitted (h.committed e he c hc)
    case h_2 => cases hstep
  | consume c =>
    simp only [accessStep] at hstep
    split at hstep
    case h_1 p view hcall hview =>
      rw [view_eq_some] at hview
      obtain ⟨hcons, hadds, hholds⟩ := h.view hview
      rw [hcall] at hholds
      have hcommitted : ¬ AccessPhase.Committed (s.calls c) := by
        simp [hcall, AccessPhase.Committed]
      cases hack : p.acknowledgmentId with
      | none =>
        rw [hack] at hstep
        cases hstep
        refine h.setPhase (fun hc => (hcommitted hc).elim) ?_
        intro view' hw
        rw [hview] at hw
        cases hw
        refine ⟨fun row hrow => hholds _ hrow rfl, ?_⟩
        intro n hn
        rw [hack] at hn
        cases hn
      | some nonce =>
        rw [hack] at hstep
        dsimp only at hstep
        cases hconsume : view.consume nonce p.servedAt.instant (some c) with
        | none =>
          rw [hconsume] at hstep
          cases hstep
          exact h.rollback hcommitted _
        | some view' =>
          rw [hconsume] at hstep
          cases hstep
          have hcons' := hcons.consume hconsume
          obtain ⟨-, rfl⟩ := AuditDb.consume_eq_some hconsume
          refine h.setView hcommitted hcons' ?_ ⟨?_, ?_⟩
          · intro e he
            rcases List.mem_cons.mp he with rfl | he
            · exact .inr rfl
            · exact hadds e he
          · intro row hrow
            rcases List.mem_cons.mp hrow with heq | hrow
            · cases heq
            · exact hholds _ hrow rfl
          · intro n hn
            rw [hack] at hn
            cases hn
            exact ⟨_, List.mem_cons_self⟩
    case h_2 => cases hstep
  | readHead c =>
    simp only [accessStep] at hstep
    split at hstep
    case h_1 p view hcall hview =>
      rw [view_eq_some] at hview
      obtain ⟨-, -, hholds⟩ := h.view hview
      rw [hcall] at hholds
      have hcommitted : ¬ AccessPhase.Committed (s.calls c) := by
        simp [hcall, AccessPhase.Committed]
      split at hstep
      · cases hstep
        exact h.rollback hcommitted _
      · cases hstep
        refine h.setPhase (fun hc => (hcommitted hc).elim) ?_
        intro view' hw
        rw [hview] at hw
        cases hw
        exact hholds
    case h_2 => cases hstep
  | insert c =>
    simp only [accessStep] at hstep
    split at hstep
    case h_1 p nextSeq prev view hcall hview =>
      rw [view_eq_some] at hview
      obtain ⟨hcons, hadds, hholds⟩ := h.view hview
      rw [hcall] at hholds
      obtain ⟨hnew, hown⟩ := hholds
      have hcommitted : ¬ AccessPhase.Committed (s.calls c) := by
        simp [hcall, AccessPhase.Committed]
      cases hrow : insertRow sha256 readBack view.journal nextSeq prev p with
      | none =>
        rw [hrow] at hstep
        cases hstep
        exact h.rollback hcommitted _
      | some row =>
        rw [hrow] at hstep
        cases hstep
        have hprepared := (insertRow_eq_some hrow).2.2.2.1
        refine h.setView hcommitted (hcons.insert ?_ hnew) ?_ trivial
        · intro n hn
          rw [hprepared] at hn
          exact hown n hn
        · intro e he
          rcases List.mem_cons.mp he with rfl | he
          · exact .inr rfl
          · exact hadds e he
    case h_2 => cases hstep
  | commit c =>
    simp only [accessStep] at hstep
    split at hstep
    case h_1 p view hcall hview =>
      cases hstep
      rw [view_eq_some] at hview
      obtain ⟨hcons, hadds, -⟩ := h.view hview
      refine ⟨hcons, ?_, fun hw => nomatch hw⟩
      intro e he d hd
      have hcalls : (s.setPhase c .committed).calls d =
          if d = c then some .committed else s.calls d := Function.update_apply ..
      change AccessPhase.Committed ((s.setPhase c .committed).calls d)
      rw [hcalls]
      split
      · trivial
      · next hdc =>
        rcases hadds e he with he | hc
        · exact h.committed e he d hd
        · rw [hd] at hc
          exact absurd (Option.some.inj hc) hdc
    case h_2 => cases hstep
  | finish c =>
    simp only [accessStep] at hstep
    split at hstep
    case h_1 hcall =>
      cases hstep
      refine h.setPhase (fun _ => trivial) ?_
      intro view hw
      have := (h.view hw).2.2
      rw [hcall] at this
      exact this.elim
    case h_2 => cases hstep
  | fail c =>
    simp only [accessStep] at hstep
    cases hcall : s.calls c with
    | none =>
      rw [hcall] at hstep
      cases hstep
    | some phase =>
      have hidle : (∀ view, ¬ AccessPhase.Holds c view (some phase)) →
          ∀ view, s.writer = some (c, view) → False := by
        intro hno view hw
        have hholds := (h.view hw).2.2
        rw [hcall] at hholds
        exact hno view hholds
      rw [hcall] at hstep
      cases phase with
      | called r | checked p =>
        cases hstep
        refine h.setPhase (by simp [hcall, AccessPhase.Committed]) fun view hw => ?_
        exact (hidle (fun _ => id) view hw).elim
      | begun p | consumed p | linked p n g | inserted p =>
        cases hstep
        exact h.rollback (by simp [hcall, AccessPhase.Committed]) none
      | committed =>
        cases hstep
        refine h.setPhase (fun _ => trivial) fun view hw => ?_
        exact (hidle (fun _ => id) view hw).elim
      | returned | failed e | failedAfterCommit => cases hstep

/-! ### Erasing a call that did not commit -/

/-- The call of `record_access` that a step belongs to. -/
def AccessStep.caller : AccessStep → Option ℕ
  | .recordAcknowledgment .. | .consumeAcknowledgment .. | .recordSigningKey .. => none
  | .call c _ | .check c | .begin_ c | .consume c | .readHead c | .insert c | .commit c | .finish c
  | .fail c => some c

/-- `s'` is `s` without the call `c`: the same database, and the write lock only if another call
holds it. -/
structure Erases (c : ℕ) (s s' : AccessState) : Prop where
  db : s'.db = s.db
  keys : s'.keys = s.keys
  writer : s'.writer = s.writer.filter fun w => w.1 ≠ c
  calls : ∀ d ≠ c, s'.calls d = s.calls d

/-- What a step of a call can do to the state. -/
inductive OwnMove (s : AccessState) (c : ℕ) : AccessState → Prop where
  /-- only the phase of the call changes -/
  | phase (phase : AccessPhase)
      (h : AccessPhase.Committed (s.calls c) → AccessPhase.Committed (some phase)) :
      OwnMove s c (s.setPhase c phase)
  /-- the call opens its transaction or writes to its view -/
  | view (view : AuditDb) (phase : AccessPhase) (h : ¬ AccessPhase.Committed (s.calls c))
      (hfree : (s.writer.filter fun w => w.1 ≠ c) = none) : OwnMove s c (s.setView c view phase)
  /-- the call fails and drops its view -/
  | rollback (error : Option FileAccessJournalError)
      (h : ¬ AccessPhase.Committed (s.calls c)) : OwnMove s c (s.rollback c error)
  /-- the view of the call becomes the database -/
  | commit (view : AuditDb) :
      OwnMove s c { s.setPhase c .committed with db := view, writer := none }

theorem filter_writer_of_view {view : AuditDb} (h : s.view c = some view) :
    (s.writer.filter fun w => w.1 ≠ c) = none := by
  rw [view_eq_some.mp h]
  simp [Option.filter]

/-- **Step inversion** for the steps of `record_access`. -/
theorem accessStep_ownMove (hc : a.caller = some c)
    (hstep : accessStep sha256 readBack verifySignature fromisoformat s a = some s') :
    OwnMove s c s' := by
  cases a with
  | recordAcknowledgment | consumeAcknowledgment | recordSigningKey => cases hc
  | call d r =>
    obtain rfl := Option.some.inj hc
    simp only [accessStep] at hstep
    split_ifs at hstep with hnew
    cases hstep
    have hnone : s.calls d = none := by simpa using hnew
    exact .phase _ (by simp [hnone, AccessPhase.Committed])
  | check d =>
    obtain rfl := Option.some.inj hc
    simp only [accessStep] at hstep
    split at hstep
    · next r hcall =>
      split at hstep
      all_goals
        cases hstep
        exact .phase _ (by simp [hcall, AccessPhase.Committed])
    · cases hstep
  | begin_ d =>
    obtain rfl := Option.some.inj hc
    simp only [accessStep] at hstep
    split at hstep
    · next p hcall =>
      split_ifs at hstep with hfree
      cases hstep
      have hfree : s.writer = none := by simpa using hfree
      exact .view _ _ (by simp [hcall, AccessPhase.Committed]) (by rw [hfree]; rfl)
    · cases hstep
  | consume d =>
    obtain rfl := Option.some.inj hc
    simp only [accessStep] at hstep
    split at hstep
    · next p view hcall hview =>
      have hcommitted : ¬ AccessPhase.Committed (s.calls d) := by
        simp [hcall, AccessPhase.Committed]
      split at hstep
      · cases hstep
        exact .phase _ fun h => (hcommitted h).elim
      · split at hstep
        · cases hstep
          exact .rollback _ hcommitted
        · cases hstep
          exact .view _ _ hcommitted (filter_writer_of_view hview)
    · cases hstep
  | readHead d =>
    obtain rfl := Option.some.inj hc
    simp only [accessStep] at hstep
    split at hstep
    · next p view hcall hview =>
      have hcommitted : ¬ AccessPhase.Committed (s.calls d) := by
        simp [hcall, AccessPhase.Committed]
      split at hstep
      · cases hstep
        exact .rollback _ hcommitted
      · cases hstep
        exact .phase _ fun h => (hcommitted h).elim
    · cases hstep
  | insert d =>
    obtain rfl := Option.some.inj hc
    simp only [accessStep] at hstep
    split at hstep
    · next p n g view hcall hview =>
      have hcommitted : ¬ AccessPhase.Committed (s.calls d) := by
        simp [hcall, AccessPhase.Committed]
      split at hstep
      · cases hstep
        exact .rollback _ hcommitted
      · cases hstep
        exact .view _ _ hcommitted (filter_writer_of_view hview)
    · cases hstep
  | commit d =>
    obtain rfl := Option.some.inj hc
    simp only [accessStep] at hstep
    split at hstep
    · cases hstep
      exact .commit _
    · cases hstep
  | finish d =>
    obtain rfl := Option.some.inj hc
    simp only [accessStep] at hstep
    split at hstep
    · cases hstep
      exact .phase _ fun _ => trivial
    · cases hstep
  | fail d =>
    obtain rfl := Option.some.inj hc
    simp only [accessStep] at hstep
    cases hcall : s.calls d with
    | none =>
      rw [hcall] at hstep
      cases hstep
    | some phase =>
      rw [hcall] at hstep
      cases phase with
      | called r | checked p =>
        cases hstep
        exact .phase _ (by simp [hcall, AccessPhase.Committed])
      | begun p | consumed p | linked p n g | inserted p =>
        cases hstep
        exact .rollback _ (by simp [hcall, AccessPhase.Committed])
      | committed =>
        cases hstep
        exact .phase _ fun _ => trivial
      | returned | failed e | failedAfterCommit => cases hstep

/-- A committed call stays committed. -/
theorem OwnMove.committed (h : OwnMove s c s') (hc : AccessPhase.Committed (s.calls c)) :
    AccessPhase.Committed (s'.calls c) := by
  cases h with
  | phase phase hkeep =>
    rw [setPhase_self]
    exact hkeep hc
  | view view phase hno => exact (hno hc).elim
  | rollback error hno => exact (hno hc).elim
  | commit view =>
    have hself : (s.setPhase c .committed).calls c = some .committed := setPhase_self .committed
    change AccessPhase.Committed ((s.setPhase c .committed).calls c)
    rw [hself]
    trivial

/-- A step of the erased call, unless it commits, is no step without the call. -/
theorem Erases.own {t : AccessState} (h : Erases c s s') (hmove : OwnMove s c t)
    (hcommitted : ¬ AccessPhase.Committed (t.calls c)) : Erases c t s' := by
  have hcalls : ∀ phase, ∀ d ≠ c, s'.calls d = (s.setPhase c phase).calls d := by
    intro phase d hd
    rw [setPhase_ne hd]
    exact h.calls d hd
  cases hmove with
  | phase phase hkeep => exact ⟨h.db, h.keys, h.writer, hcalls phase⟩
  | view view phase hno hfree =>
    refine ⟨h.db, h.keys, ?_, hcalls phase⟩
    rw [h.writer, hfree]
    simp [AccessState.setView, Option.filter]
  | rollback error hno =>
    refine ⟨h.db, h.keys, ?_, hcalls _⟩
    change s'.writer = (s.writer.filter _).filter _
    rw [h.writer, Option.filter_filter]
    simp only [Bool.and_self]
  | commit view =>
    refine absurd ?_ hcommitted
    have hself : (s.setPhase c .committed).calls c = some .committed := setPhase_self .committed
    change AccessPhase.Committed ((s.setPhase c .committed).calls c)
    rw [hself]
    trivial

theorem Erases.setPhase (h : Erases c s s') (d : ℕ) (phase : AccessPhase) :
    Erases c (s.setPhase d phase) (s'.setPhase d phase) := by
  refine ⟨h.db, h.keys, h.writer, ?_⟩
  intro e he
  by_cases hed : e = d
  · subst hed
    rw [setPhase_self, setPhase_self]
  · rw [setPhase_ne hed, setPhase_ne hed]
    exact h.calls e he

theorem Erases.setView {d : ℕ} (h : Erases c s s') (hd : d ≠ c) (view : AuditDb)
    (phase : AccessPhase) : Erases c (s.setView d view phase) (s'.setView d view phase) := by
  refine ⟨h.db, h.keys, ?_, (h.setPhase d phase).calls⟩
  simp [AccessState.setView, Option.filter, hd]

theorem Erases.rollback {d : ℕ} (h : Erases c s s') (error : Option FileAccessJournalError) :
    Erases c (s.rollback d error) (s'.rollback d error) := by
  refine ⟨h.db, h.keys, ?_, (h.setPhase d (.failed error)).calls⟩
  change s'.writer.filter _ = (s.writer.filter _).filter _
  rw [h.writer, Option.filter_filter, Option.filter_filter]
  simp only [Bool.and_comm]

/-- Other calls see the same view without the erased one. -/
theorem Erases.view_eq {d : ℕ} (h : Erases c s s') (hd : d ≠ c) : s'.view d = s.view d := by
  rw [AccessState.view, AccessState.view, h.writer]
  rcases s.writer with _ | ⟨e, db⟩
  · rfl
  · by_cases hec : e = c
    · simp [Option.filter, hec, hd.symm]
    · simp [Option.filter, hec]

theorem Erases.writer_free (h : Erases c s s') (hfree : s.writer.isSome = false) :
    s'.writer.isSome = false := by
  rw [h.writer]
  cases hw : s.writer with
  | none => rfl
  | some w =>
    rw [hw] at hfree
    cases hfree

/-- A step that is not of the erased call happens without it too. -/
theorem Erases.other {t : AccessState} (h : Erases c s s') (ha : a.caller ≠ some c)
    (hstep : accessStep sha256 readBack verifySignature fromisoformat s a = some t) :
    ∃ t', accessStep sha256 readBack verifySignature fromisoformat s' a = some t' ∧
      Erases c t t' := by
  cases a with
  | recordAcknowledgment nonce userId contentHash now =>
    simp only [accessStep] at hstep ⊢
    split_ifs at hstep with hfree
    obtain ⟨db, hdb, rfl⟩ := Option.map_eq_some_iff.mp hstep
    rw [if_neg (by simpa using h.writer_free (by simpa using hfree)), h.db, hdb]
    exact ⟨_, rfl, rfl, h.keys, h.writer, h.calls⟩
  | consumeAcknowledgment nonce now =>
    simp only [accessStep] at hstep ⊢
    split_ifs at hstep with hfree
    cases hstep
    rw [if_neg (by simpa using h.writer_free (by simpa using hfree)), h.db]
    exact ⟨_, rfl, rfl, h.keys, h.writer, h.calls⟩
  | recordSigningKey key =>
    simp only [accessStep] at hstep ⊢
    split_ifs at hstep with hfree
    rw [not_or] at hfree
    cases hstep
    rw [if_neg, h.keys]
    · exact ⟨_, rfl, h.db, rfl, h.writer, h.calls⟩
    · rw [not_or, h.keys]
      exact ⟨by simpa using h.writer_free (by simpa using hfree.1), hfree.2⟩
  | call d r =>
    have hd : d ≠ c := fun hdc => ha (congrArg some hdc)
    simp only [accessStep, h.calls d hd] at hstep ⊢
    split_ifs at hstep ⊢
    cases hstep
    exact ⟨_, rfl, h.setPhase d _⟩
  | check d =>
    have hd : d ≠ c := fun hdc => ha (congrArg some hdc)
    simp only [accessStep, h.calls d hd, h.keys] at hstep ⊢
    split at hstep
    · split at hstep
      all_goals
        cases hstep
        exact ⟨_, rfl, h.setPhase d _⟩
    · cases hstep
  | begin_ d =>
    have hd : d ≠ c := fun hdc => ha (congrArg some hdc)
    simp only [accessStep, h.calls d hd] at hstep ⊢
    split at hstep
    · split_ifs at hstep with hfree
      cases hstep
      rw [if_neg (by simpa using h.writer_free (by simpa using hfree)), h.db]
      exact ⟨_, rfl, h.setView hd s.db _⟩
    · cases hstep
  | consume d =>
    have hd : d ≠ c := fun hdc => ha (congrArg some hdc)
    simp only [accessStep, h.calls d hd, h.view_eq hd] at hstep ⊢
    split at hstep
    · split at hstep
      · cases hstep
        exact ⟨_, rfl, h.setPhase d _⟩
      · split at hstep
        · cases hstep
          exact ⟨_, rfl, h.rollback _⟩
        · cases hstep
          exact ⟨_, rfl, h.setView hd _ _⟩
    · cases hstep
  | readHead d =>
    have hd : d ≠ c := fun hdc => ha (congrArg some hdc)
    simp only [accessStep, h.calls d hd, h.view_eq hd] at hstep ⊢
    split at hstep
    · split at hstep
      · cases hstep
        exact ⟨_, rfl, h.rollback _⟩
      · cases hstep
        exact ⟨_, rfl, h.setPhase d _⟩
    · cases hstep
  | insert d =>
    have hd : d ≠ c := fun hdc => ha (congrArg some hdc)
    simp only [accessStep, h.calls d hd, h.view_eq hd] at hstep ⊢
    split at hstep
    · split at hstep
      · cases hstep
        exact ⟨_, rfl, h.rollback _⟩
      · cases hstep
        exact ⟨_, rfl, h.setView hd _ _⟩
    · cases hstep
  | commit d =>
    have hd : d ≠ c := fun hdc => ha (congrArg some hdc)
    simp only [accessStep, h.calls d hd, h.view_eq hd] at hstep ⊢
    split at hstep
    · cases hstep
      exact ⟨_, rfl, rfl, h.keys, rfl, (h.setPhase d .committed).calls⟩
    · cases hstep
  | finish d =>
    have hd : d ≠ c := fun hdc => ha (congrArg some hdc)
    simp only [accessStep, h.calls d hd] at hstep ⊢
    split at hstep
    · cases hstep
      exact ⟨_, rfl, h.setPhase d _⟩
    · cases hstep
  | fail d =>
    have hd : d ≠ c := fun hdc => ha (congrArg some hdc)
    simp only [accessStep, h.calls d hd] at hstep ⊢
    cases hcall : s.calls d with
    | none =>
      rw [hcall] at hstep
      cases hstep
    | some phase =>
      rw [hcall] at hstep
      cases phase with
      | called r | checked p | committed =>
        cases hstep
        exact ⟨_, rfl, h.setPhase d _⟩
      | begun p | consumed p | linked p n g | inserted p =>
        cases hstep
        exact ⟨_, rfl, h.rollback none⟩
      | returned | failed e | failedAfterCommit => cases hstep

/-- A step leaves the phases of other calls alone. -/
theorem accessStep_calls (ha : a.caller ≠ some c)
    (hstep : accessStep sha256 readBack verifySignature fromisoformat s a = some s') :
    s'.calls c = s.calls c := by
  cases hd : a.caller with
  | some d =>
    have hcd : c ≠ d := by
      rintro rfl
      exact ha hd
    cases accessStep_ownMove hd hstep with
    | phase phase | view view phase | rollback error | commit view => exact setPhase_ne hcd _
  | none =>
    cases a with
    | recordAcknowledgment nonce userId contentHash now =>
      simp only [accessStep] at hstep
      split_ifs at hstep
      obtain ⟨db, -, rfl⟩ := Option.map_eq_some_iff.mp hstep
      rfl
    | consumeAcknowledgment | recordSigningKey =>
      simp only [accessStep] at hstep
      split_ifs at hstep
      cases hstep
      rfl
    | call | check | begin_ | consume | readHead | insert | commit | finish | fail => cases hd

/-- A committed call stays committed. -/
theorem committed_step (hc : AccessPhase.Committed (s.calls c))
    (hstep : accessStep sha256 readBack verifySignature fromisoformat s a = some s') :
    AccessPhase.Committed (s'.calls c) := by
  by_cases ha : a.caller = some c
  · exact (accessStep_ownMove ha hstep).committed hc
  · rw [accessStep_calls ha hstep]
    exact hc

/-- The steps that are not of call `c`. -/
def stepsWithout (c : ℕ) (steps : List AccessStep) : List AccessStep :=
  steps.filter fun a => a.caller ≠ some c

/-- **Erasure.** A call that did not commit might as well not have been made: without its steps
the run ends in the same database. -/
theorem run_erase {t : AccessState} {steps : List AccessStep} (h : Erases c s s')
    (hrun : run (accessStep sha256 readBack verifySignature fromisoformat) s steps = some t)
    (hcommitted : ¬ AccessPhase.Committed (t.calls c)) :
    ∃ t', run (accessStep sha256 readBack verifySignature fromisoformat) s'
      (stepsWithout c steps) = some t' ∧ Erases c t t' := by
  induction steps generalizing s s' with
  | nil =>
    rw [run_nil] at hrun
    cases hrun
    exact ⟨s', rfl, h⟩
  | cons a steps ih =>
    obtain ⟨u, hu, hrest⟩ := run_cons_eq_some.mp hrun
    by_cases ha : a.caller = some c
    · have hskip : stepsWithout c (a :: steps) = stepsWithout c steps := by
        simp [stepsWithout, ha]
      have hnot : ¬ AccessPhase.Committed (u.calls c) := by
        intro hu'
        apply hcommitted
        exact run_preserves (I := fun s => AccessPhase.Committed (s.calls c)) committed_step
          hu' hrest
      rw [hskip]
      exact ih (h.own (accessStep_ownMove ha hu) hnot) hrest
    · have hkeep : stepsWithout c (a :: steps) = a :: stepsWithout c steps := by
        simp [stepsWithout, ha]
      obtain ⟨u', hu', herase⟩ := h.other ha hu
      obtain ⟨t', ht', herase'⟩ := ih herase hrest
      rw [hkeep]
      exact ⟨t', run_cons_eq_some.mpr ⟨u', hu', ht'⟩, herase'⟩

end Runs

/-- A restricted access that names a grant and nonce 5. -/
def sampleRequest : AccessRequest where
  userId := 7
  auditEventId := none
  grantId := some 3
  acknowledgmentId := some 5
  contentHash := List.replicate 32 0x11
  contentSize := 10
  contentMime := "application/pdf"
  tier := .restricted
  servedVia := .inlineJson
  signingPubkeyFingerprint := "0123456789abcdef"
  operatorSignature := List.replicate 64 0x22
  sigMethod := "POST"
  sigUrl := "/v1/attachments/blob-1/access"
  sigRequestId := "req-1"
  sigTimestamp := "2026-01-01T00:00:00+00:00"
  sigBodyHash := "deadbeef"
  freshnessWindow := defaultFreshnessWindow
  servedAt := (sampleAccess 1 10).servedAt
  accessId := 1

/-- The nonce is minted, the key registered, and call 0 runs up to and including its commit. -/
def sampleCommit : List AccessStep :=
  [.recordAcknowledgment 5 7 (hex (List.replicate 32 0x11)) (sampleAccess 1 10).servedAt.instant,
    .recordSigningKey ⟨7, "0123456789abcdef", List.replicate 32 0x33⟩, .call 0 sampleRequest,
    .check 0, .begin_ 0, .consume 0, .readHead 0, .insert 0, .commit 0]

/-- The step function with a verifier that knows the sample signature and a parser that knows the
sample timestamp. -/
def sampleStep : AccessState → AccessStep → Option AccessState :=
  accessStep Sha256.digest id (fun _ _ signature => signature == List.replicate 64 0x22)
    fun text => if text = "2026-01-01T00:00:00+00:00" then some (sampleAccess 1 10).servedAt
      else none

end Eyenet
