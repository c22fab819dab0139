import Eyenet.FileAccessJournal
import Eyenet.Machine
import Eyenet.StampText

/-!
# Exoneration answers

An exoneration query reads the matching journal rows, then the journal head, and signs the two
together (`api_list_file_access.py`, `api_list_file_access_by_user.py`). The two reads are
separate storage calls, so appends can fall between them.

* `canonical_inj` — the signed bytes determine the query, the head and the access ids.
* `Exact` — the signed ids are those of the matching rows up to the signed head.
* `exoneration_exact` — every answer is exact in a run where no row that matches a query is
  appended between its two reads.
-/

namespace Eyenet

open Framing HashChain Machine

/-! ## The signed answer -/

/-- What an exoneration asks about. -/
inductive ExonerationQuery where
  /-- every access to the content with this hash -/
  | byHash (contentHash : Bytes)
  /-- every access of this user within a window -/
  | byUser (userId : Uuid) (since until_ : Option Datetime)
  deriving DecidableEq

namespace ExonerationQuery

/-- The `WHERE` clause of the query; a timestamp is compared as the text that its column type
writes. -/
def selects : ExonerationQuery → JournalRow → Bool
  | byHash contentHash, row => row.prepared.contentHash == contentHash
  | byUser userId since until_, row =>
    row.prepared.userId == userId &&
      (since.all fun t => decide (t.storageText ≤ row.prepared.servedAt.storageText)) &&
      (until_.all fun t => decide (row.prepared.servedAt.storageText ≤ t.storageText))

/-- An absent bound is the empty string. -/
def boundText : Option Datetime → String
  | none => ""
  | some t => t.isoformat

/-- `query_kind`, `content_hash`, `user_id`, `since` and `until`; what the kind does not use is
empty. -/
def fields : ExonerationQuery → List Bytes
  | byHash contentHash => [utf8 "by_hash", contentHash, [], utf8 "", utf8 ""]
  | byUser userId since until_ =>
    [utf8 "by_user", [], uuidBytes userId, utf8 (boundText since), utf8 (boundText until_)]

theorem boundText_injective : Function.Injective boundText := by
  have hne : ∀ t : Datetime, t.isoformat ≠ "" := by
    intro t h
    have hlen := congrArg String.length h
    simp [Datetime.isoformat, Datetime.isoChars, Datetime.padded] at hlen
  intro a b h
  cases a with
  | none =>
    cases b with
    | none => rfl
    | some b => exact absurd h.symm (hne b)
  | some a =>
    cases b with
    | none => exact absurd h (hne a)
    | some b => rw [Datetime.isoformat_injective h]

theorem length_fields (q : ExonerationQuery) : q.fields.length = 5 := by
  cases q <;> rfl

theorem fields_injective : Function.Injective fields := by
  intro p q h
  have hkind : utf8 "by_hash" ≠ utf8 "by_user" := by
    intro hkind
    exact absurd (utf8_injective hkind) (by decide)
  cases p with
  | byHash c =>
    cases q with
    | byHash d => simpa [fields] using h
    | byUser u s t => exact absurd (List.cons.inj h).1 hkind
  | byUser u s t =>
    cases q with
    | byHash d => exact absurd (List.cons.inj h).1.symm hkind
    | byUser u' s' t' =>
      simp only [fields, List.cons.injEq, uuidBytes_injective.eq_iff, utf8_injective.eq_iff,
        boundText_injective.eq_iff] at h
      obtain ⟨-, -, rfl, rfl, rfl, -⟩ := h
      rfl

end ExonerationQuery

/-- `_EXON_SCHEME` -/
def exonerationScheme : Bytes := utf8 "EYENET-EXONERATION-v1"

/-- A signed answer: the query, when it was answered, the journal head it names and the ids of
the accesses it lists. -/
structure Exoneration where
  query : ExonerationQuery
  queryTime : Datetime
  journalHead : Bytes
  accessIds : List Uuid
  deriving DecidableEq

/-- `build_exoneration_canonical`: the bytes that are signed. -/
def buildExonerationCanonical (e : Exoneration) : Option Bytes :=
  frames 4 ((exonerationScheme :: e.query.fields) ++
    [utf8 e.queryTime.isoformat, e.journalHead, utf8 (Nat.repr e.accessIds.length)] ++
      e.accessIds.map uuidBytes)

/-- **The signed bytes determine the answer.** The count of the ids is framed before them, so
answers with different counts already differ there. -/
theorem canonical_inj {d e : Exoneration} {bytes : Bytes}
    (hd : buildExonerationCanonical d = some bytes)
    (he : buildExonerationCanonical e = some bytes) : d = e := by
  rw [buildExonerationCanonical, frames_append_eq_some] at hd he
  obtain ⟨headD, idsD, hheadD, hidsD, rfl⟩ := hd
  obtain ⟨headE, idsE, hheadE, hidsE, heq⟩ := he
  have hlen : (exonerationScheme :: d.query.fields ++ [utf8 d.queryTime.isoformat,
        d.journalHead, utf8 (Nat.repr d.accessIds.length)]).length =
      (exonerationScheme :: e.query.fields ++ [utf8 e.queryTime.isoformat,
        e.journalHead, utf8 (Nat.repr e.accessIds.length)]).length := by
    simp [ExonerationQuery.length_fields]
  obtain ⟨hhead, rfl⟩ := frames_append_inj hlen hheadD hheadE heq
  obtain ⟨hquery, htail⟩ := List.append_inj' hhead (by simp only [List.length_cons])
  simp only [List.cons.injEq, utf8_injective.eq_iff, Datetime.isoformat_injective.eq_iff,
    Nat.repr_inj, and_true] at htail
  obtain ⟨htime, hjournal, hcount⟩ := htail
  have hids : d.accessIds.map uuidBytes = e.accessIds.map uuidBytes :=
    frames_inj (by simp [hcount]) hidsD hidsE
  have hfields := ExonerationQuery.fields_injective (List.cons.inj hquery).2
  have haccess := List.map_injective_iff.mpr uuidBytes_injective hids
  cases d
  cases e
  exact (Exoneration.mk.injEq ..).mpr ⟨hfields, htime, hjournal, haccess⟩

/-! ## Queries interleaved with appends -/

/-- A query between its two reads, with the rows that it has read. -/
structure PendingQuery where
  id : ℕ
  query : ExonerationQuery
  rows : List JournalRow

/-- The journal, the queries in flight, and the answers signed so far. -/
structure ExonerationState where
  journal : List JournalRow
  pending : List PendingQuery
  answers : List Exoneration

/-- One atomic storage call. -/
inductive ExonerationStep where
  /-- one append by any client -/
  | append (a : Append)
  /-- a query reads the matching rows -/
  | list (id : ℕ) (query : ExonerationQuery)
  /-- a query reads the journal head, and its answer is signed -/
  | head (id : ℕ) (queryTime : Datetime)

/-- `list_file_access_by_content_hash` and `list_file_access_by_user`. -/
def listFileAccess (rows : List JournalRow) (q : ExonerationQuery) : List JournalRow :=
  (orderBySeq rows).filter q.selects

/-- `file_access_journal_head` -/
def fileAccessJournalHead (rows : List JournalRow) : Bytes :=
  match (orderBySeq rows).getLast? with
  | none => genesisJournalHash
  | some last => last.selfHash

/-- The handler's answer from what its two reads returned. -/
def PendingQuery.answer (p : PendingQuery) (queryTime : Datetime) (journalHead : Bytes) :
    Exoneration :=
  ⟨p.query, queryTime, journalHead, p.rows.map fun row => row.prepared.accessId⟩

section Runs

variable (sha256 : Bytes → Bytes) (readBack : Datetime → Datetime)

/-- One step: a storage call of a query or of an append. An answer that cannot be serialised is
not signed. -/
def exonerationStep (s : ExonerationState) : ExonerationStep → Option ExonerationState
  | .append a => some { s with journal := append sha256 readBack s.journal a }
  | .list id query =>
    if s.pending.any fun p => p.id == id then none
    else some { s with pending := ⟨id, query, listFileAccess s.journal query⟩ :: s.pending }
  | .head id queryTime =>
    match s.pending.find? fun p => p.id == id with
    | none => none
    | some p =>
      let answer := p.answer queryTime (fileAccessJournalHead s.journal)
      let rest := s.pending.filter fun p => p.id != id
      match buildExonerationCanonical answer with
      | none => some { s with pending := rest }
      | some _ => some { s with pending := rest, answers := answer :: s.answers }

/-- Nothing appended, asked or answered yet. -/
def ExonerationState.initial : ExonerationState := ⟨[], [], []⟩

/-- No append lands a row that a query in flight selects. -/
def NoMatchInFlight (s : ExonerationState) : ExonerationStep → Prop
  | .append a => ∀ row ∈ (append sha256 readBack s.journal a).drop s.journal.length,
      ∀ p ∈ s.pending, p.query.selects row = false
  | _ => True

instance (s : ExonerationState) (a : ExonerationStep) :
    Decidable (NoMatchInFlight sha256 readBack s a) :=
  match a with
  | .append a => inferInstanceAs (Decidable (∀ row ∈ (append sha256 readBack s.journal a).drop
      s.journal.length, ∀ p ∈ s.pending, p.query.selects row = false))
  | .list _ _ => inferInstanceAs (Decidable True)
  | .head _ _ => inferInstanceAs (Decidable True)

end Runs

/-- The answer is exact for the journal head it names: its ids are, in chain order, those of the
selected rows among the rows up to and including the one with that `self_hash`. -/
def Exact (rows : List JournalRow) (e : Exoneration) : Prop :=
  ∃ upTo : List JournalRow, upTo <+: rows ∧
    e.journalHead = head genesisJournalHash (entries upTo) ∧
    e.accessIds = (upTo.filter e.query.selects).map fun row => row.prepared.accessId

instance (rows : List JournalRow) (e : Exoneration) : Decidable (Exact rows e) :=
  decidable_of_iff (∃ upTo ∈ rows.inits,
    e.journalHead = head genesisJournalHash (entries upTo) ∧
      e.accessIds = (upTo.filter e.query.selects).map fun row => row.prepared.accessId)
    (by simp only [List.mem_inits, Exact])

theorem Exact.mono {rows rows' : List JournalRow} {e : Exoneration} (h : Exact rows e)
    (hgrow : rows <+: rows') : Exact rows' e := by
  obtain ⟨upTo, hupTo, hrest⟩ := h
  exact ⟨upTo, hupTo.trans hgrow, hrest⟩

/-- On a linked journal without collisions the head names one row only. -/
theorem Exact.unique {sha256 : Bytes → Bytes} {rows upTo upTo' : List JournalRow}
    (hlinked : Linked (selfHash sha256) genesisJournalHash (entries rows))
    (hfree : CollisionFree (selfHash sha256) genesisJournalHash
      (hashed genesisJournalHash (entries rows)))
    (h : upTo <+: rows) (h' : upTo' <+: rows)
    (hhead : head genesisJournalHash (entries upTo) = head genesisJournalHash (entries upTo')) :
    upTo = upTo' := by
  have hentries : entries upTo <+: entries rows := h.map JournalRow.entry
  have hentries' : entries upTo' <+: entries rows := h'.map JournalRow.entry
  have heq : entries upTo = entries upTo' :=
    Linked.eq_of_head_eq hfree (hlinked.initial hentries) (hlinked.initial hentries')
      (hashed_initial hentries) (hashed_initial hentries') hhead
  have hlength : upTo.length = upTo'.length := by
    have := congrArg List.length heq
    simpa using this
  exact (List.prefix_of_prefix_length_le h h' hlength.le).eq_of_length hlength

/-! ## The invariant -/

section Invariant

variable {sha256 : Bytes → Bytes} {readBack : Datetime → Datetime}
variable {s s' : ExonerationState} {a : ExonerationStep}

/-- The journal is numbered, every query in flight has read exactly the rows that match it now,
and every signed answer is exact. -/
structure ExactSoFar (s : ExonerationState) : Prop where
  numbered : Numbered s.journal
  pending : ∀ p ∈ s.pending, p.rows = s.journal.filter p.query.selects
  answers : ∀ e ∈ s.answers, Exact s.journal e

theorem fileAccessJournalHead_eq {rows : List JournalRow} (h : Numbered rows) :
    fileAccessJournalHead rows = head genesisJournalHash (entries rows) := by
  rw [fileAccessJournalHead, orderBySeq_of_numbered h]
  rcases List.eq_nil_or_concat rows with rfl | ⟨before, last, rfl⟩
  · rfl
  · simp [head_append, head, JournalRow.entry]

/-- One step keeps the invariant, unless it appends a row that a query in flight selects. -/
theorem ExactSoFar.step (h : ExactSoFar s) (hC : NoMatchInFlight sha256 readBack s a)
    (hstep : exonerationStep sha256 readBack s a = some s') : ExactSoFar s' := by
  cases a with
  | append a =>
    cases hstep
    rcases append_cases sha256 readBack s.journal a with hsame | ⟨row, hrow, hgrow⟩
    · rw [hsame]
      exact h
    · rw [NoMatchInFlight, hgrow, List.drop_left] at hC
      rw [hgrow]
      obtain ⟨hseq, -⟩ := appendRow_eq_some h.numbered hrow
      refine ⟨h.numbered.append hseq, ?_, ?_⟩
      · intro p hp
        have hno : p.query.selects row = false := hC row List.mem_cons_self p hp
        rw [List.filter_append, h.pending p hp]
        simp [hno]
      · intro e he
        exact (h.answers e he).mono (List.prefix_append s.journal [row])
  | list id query =>
    rw [exonerationStep] at hstep
    split_ifs at hstep
    cases hstep
    refine ⟨h.numbered, ?_, h.answers⟩
    intro p hp
    rcases List.mem_cons.mp hp with rfl | hp
    · change listFileAccess s.journal query = _
      rw [listFileAccess, orderBySeq_of_numbered h.numbered]
    · exact h.pending p hp
  | head id queryTime =>
    rw [exonerationStep] at hstep
    cases hfind : s.pending.find? fun p => p.id == id with
    | none =>
      rw [hfind] at hstep
      cases hstep
    | some p =>
      rw [hfind] at hstep
      dsimp only at hstep
      have hp : p ∈ s.pending := List.mem_of_find?_eq_some hfind
      have hrest : ∀ q ∈ s.pending.filter (fun p => p.id != id),
          q.rows = s.journal.filter q.query.selects :=
        fun q hq => h.pending q (List.mem_of_mem_filter hq)
      cases hcanonical :
          buildExonerationCanonical (p.answer queryTime (fileAccessJournalHead s.journal)) with
      | none =>
        rw [hcanonical] at hstep
        cases hstep
        exact ⟨h.numbered, hrest, h.answers⟩
      | some bytes =>
        rw [hcanonical] at hstep
        cases hstep
        refine ⟨h.numbered, hrest, ?_⟩
        intro e he
        rcases List.mem_cons.mp he with rfl | he
        · refine ⟨s.journal, List.prefix_rfl, fileAccessJournalHead_eq h.numbered, ?_⟩
          change p.rows.map _ = _
          rw [h.pending p hp]
          rfl
        · exact h.answers e he

theorem ExactSoFar.initial : ExactSoFar ExonerationState.initial where
  numbered := rfl
  pending _ hp := absurd hp (List.not_mem_nil)
  answers _ he := absurd he (List.not_mem_nil)

/-- **Exact answers.** In every interleaving of queries with appends in which no row that a query
selects is appended between the two reads of that query, every signed answer is exact for the
journal head it names. -/
theorem exoneration_exact {steps : List ExonerationStep}
    (hC : Along (exonerationStep sha256 readBack) (NoMatchInFlight sha256 readBack)
      ExonerationState.initial steps)
    (hrun : run (exonerationStep sha256 readBack) ExonerationState.initial steps = some s) :
    ∀ e ∈ s.answers, Exact s.journal e :=
  (run_preserves_along ExactSoFar.step ExactSoFar.initial hC hrun).answers

end Invariant

/-- A run whose only query is asked and answered after a matching append. -/
def sampleQuery : List ExonerationStep :=
  [.append ⟨sampleAccess 1 10, false⟩, .list 0 (.byHash (List.replicate 32 0x11)),
    .head 0 (sampleAccess 1 10).servedAt]

theorem exoneration_exact_sample :
    ∃ s, run (exonerationStep Sha256.digest id) ExonerationState.initial sampleQuery = some s ∧
      s.answers.length = 1 ∧ ∀ e ∈ s.answers, Exact s.journal e := by
  have hrun : run (exonerationStep Sha256.digest id) ExonerationState.initial sampleQuery =
      some ⟨_, _, [_]⟩ := rfl
  exact ⟨_, hrun, rfl, exoneration_exact (by decide +kernel) hrun⟩

/-- The append falls between the two reads: the signed list is empty, and the row up to the
signed head has the hash. -/
theorem exoneration_empty_not_exact :
    ∃ s e, run (exonerationStep Sha256.digest id) ExonerationState.initial
        [.list 0 (.byHash (List.replicate 32 0x11)), .append ⟨sampleAccess 1 10, false⟩,
          .head 0 (sampleAccess 1 10).servedAt] = some s ∧
      e ∈ s.answers ∧ e.accessIds = [] ∧ ¬ Exact s.journal e := by
  refine ⟨⟨_, _, [_]⟩, _, rfl, List.mem_singleton_self _, rfl, ?_⟩
  decide +kernel

end Eyenet
