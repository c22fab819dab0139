import Mathlib
import Eyenet.Datetime
import Eyenet.Enums
import Eyenet.HashChain
import Eyenet.Sha256

/-!
# The file-access journal

Every served file is journalled as a row of a hash chain: a row carries the `self_hash` of the
row before it and the digest of its own canonical serialisation followed by that hash
(`sqlmodel_repo/file_access.py`, `sqlite_repo/repository.py`).

* `buildJournalRowCanonical_inj` — the serialisation determines the row and the hash that
  follows it.
* `WellChained.append` — one append, whether it succeeds or is rolled back, keeps the journal
  numbered and linked; `journal_numbered` and `journal_linked` carry it to every sequence of
  appends.
* `verifyFileAccessChain_detects` — what the audit walk accepts is not a tampered journal.

The digest function is a parameter `sha256`; so is `readBack`, the timestamp that a later
`SELECT` returns for a stored one.
-/

namespace Eyenet

open Framing HashChain

/-- `GENESIS_JOURNAL_HASH`: 32 zero bytes. -/
def genesisJournalHash : Bytes := List.replicate 32 0

/-- `_JOURNAL_ROW_SCHEME` -/
def journalRowScheme : Bytes := utf8 "EYENET-FAJ-v1"

/-- `_PreparedJournalRow`: a validated access, before it is linked into the chain. -/
structure PreparedJournalRow where
  accessId : Uuid
  auditEventId : Option Uuid
  userId : Uuid
  grantId : Option Uuid
  contentHash : Bytes
  contentSize : ℤ
  contentMime : String
  tier : SensitivityTier
  servedAt : Datetime
  servedVia : FileServedVia
  acknowledgmentId : Option Uuid
  operatorSignature : Bytes
  signingPubkeyFingerprint : String
  deriving DecidableEq

/-! ## The canonical serialisation -/

/-- `_uuid_bytes`: an absent identifier is the empty string. -/
def optionUuidBytes : Option Uuid → Bytes
  | none => []
  | some u => uuidBytes u

/-- The arguments of `build_journal_row_canonical`, in order, as bytes. -/
def PreparedJournalRow.fields (p : PreparedJournalRow) : List Bytes :=
  [uuidBytes p.accessId, optionUuidBytes p.auditEventId, uuidBytes p.userId,
    optionUuidBytes p.grantId, p.contentHash, utf8 p.contentSize.repr, utf8 p.contentMime,
    utf8 p.tier.name, utf8 p.servedAt.isoformat, utf8 p.servedVia.name,
    optionUuidBytes p.acknowledgmentId, p.operatorSignature, utf8 p.signingPubkeyFingerprint]

/-- `build_journal_row_canonical`: the scheme tag and every field, each behind its length in
four bytes; `none` is the `OverflowError` of a field too long for that. -/
def buildJournalRowCanonical (p : PreparedJournalRow) : Option Bytes :=
  frames 4 (journalRowScheme :: p.fields)

/-- `_PreparedJournalRow.self_hash` -/
def selfHash (sha256 : Bytes → Bytes) (p : PreparedJournalRow) (prevJournalHash : Bytes) :
    Option Bytes :=
  (buildJournalRowCanonical p).map fun canonical => sha256 (canonical ++ prevJournalHash)

theorem optionUuidBytes_injective : Function.Injective optionUuidBytes := by
  intro u v h
  have hlen := congrArg List.length h
  cases u with
  | none =>
    cases v with
    | none => rfl
    | some v => simp [optionUuidBytes] at hlen
  | some u =>
    cases v with
    | none => simp [optionUuidBytes] at hlen
    | some v => rw [uuidBytes_injective h]

theorem PreparedJournalRow.fields_injective : Function.Injective PreparedJournalRow.fields := by
  intro p q h
  simp only [PreparedJournalRow.fields, List.cons.injEq, uuidBytes_injective.eq_iff,
    optionUuidBytes_injective.eq_iff, utf8_injective.eq_iff, Int.repr_inj,
    SensitivityTier.name_injective.eq_iff, Datetime.isoformat_injective.eq_iff,
    FileServedVia.name_injective.eq_iff] at h
  cases p
  cases q
  simp_all

/-- **The serialisation is injective**, with whatever follows it. -/
theorem buildJournalRowCanonical_inj {p q : PreparedJournalRow} {a b x y : Bytes}
    (hp : buildJournalRowCanonical p = some a) (hq : buildJournalRowCanonical q = some b)
    (h : a ++ x = b ++ y) : p = q ∧ x = y := by
  rw [buildJournalRowCanonical] at hp hq
  have hlen : (journalRowScheme :: p.fields).length = (journalRowScheme :: q.fields).length := by
    simp only [List.length_cons, PreparedJournalRow.fields]
  obtain ⟨hfields, hrest⟩ := frames_append_inj hlen hp hq h
  exact ⟨PreparedJournalRow.fields_injective (List.cons.inj hfields).2, hrest⟩

/-! ## The table -/

/-- The longest blob or text that a database cell holds. -/
def maxCellBytes : ℕ := 2147483647

/-- The access fits the columns of the table. -/
def PreparedJournalRow.Storable (p : PreparedJournalRow) : Prop :=
  p.contentHash.length ≤ maxCellBytes ∧ p.operatorSignature.length ≤ maxCellBytes ∧
    (utf8 p.contentMime).length ≤ maxCellBytes ∧
    (utf8 p.signingPubkeyFingerprint).length ≤ maxCellBytes ∧
    p.contentSize.natAbs ≤ 2 ^ 63

instance (p : PreparedJournalRow) : Decidable p.Storable :=
  inferInstanceAs (Decidable (_ ∧ _))

/-- A row of `file_access_journal`. `seq` is nullable; the other columns are those of the
prepared access and the two hashes. -/
structure JournalRow where
  /-- the insertion sequence, the order of the walk -/
  seq : Option ℤ
  /-- the hashed columns -/
  prepared : PreparedJournalRow
  /-- `prev_journal_hash` -/
  prevJournalHash : Bytes
  /-- `self_hash` -/
  selfHash : Bytes
  storable : prepared.Storable
  deriving DecidableEq

/-- The row as an entry of the hash chain: everything but its place in the order. -/
def JournalRow.entry (r : JournalRow) : Entry PreparedJournalRow Bytes :=
  ⟨r.prepared, r.prevJournalHash, r.selfHash⟩

/-- `ORDER BY seq ASC`, with nulls first. -/
def seqLe : Option ℤ → Option ℤ → Bool
  | none, _ => true
  | some _, none => false
  | some m, some n => decide (m ≤ n)

/-- `SELECT … ORDER BY seq ASC` over the rows in insertion order. -/
def orderBySeq (rows : List JournalRow) : List JournalRow :=
  rows.insertionSort fun a b => seqLe a.seq b.seq = true

/-- `verify_file_access_chain`: walk the rows by `seq` from the genesis hash. `none` is an
exception while a row is serialised. -/
def verifyFileAccessChain (sha256 : Bytes → Bytes) (rows : List JournalRow) : Option Bool :=
  verify (selfHash sha256) genesisJournalHash ((orderBySeq rows).map JournalRow.entry)

/-- The `CHECK` of the table: a tier above normal names its grant and its acknowledgment. -/
def tierRequiresGrantAndAck (p : PreparedJournalRow) : Bool :=
  p.tier = .normal ∨ (p.grantId.isSome ∧ p.acknowledgmentId.isSome)

/-- `next_seq` and `prev`, read off the row with the greatest `seq`. `none` when that row has
no `seq`, which `int(None)` rejects. -/
def nextLink (rows : List JournalRow) : Option (ℤ × Bytes) :=
  match (orderBySeq rows).getLast? with
  | none => some (1, genesisJournalHash)
  | some last => last.seq.map fun n => (n + 1, last.selfHash)

/-- The row that is inserted under a given `next_seq` and `prev`; `none` when this raises: the
access cannot be serialised or stored, its `access_id` is taken, or the table's `CHECK` rejects
it. -/
def insertRow (sha256 : Bytes → Bytes) (readBack : Datetime → Datetime) (rows : List JournalRow)
    (nextSeq : ℤ) (prev : Bytes) (p : PreparedJournalRow) : Option JournalRow :=
  match selfHash sha256 p prev with
  | none => none
  | some hash =>
    let stored := { p with servedAt := readBack p.servedAt }
    if h : stored.Storable then
      if (rows.any fun r => r.prepared.accessId == p.accessId) || !tierRequiresGrantAndAck p then
        none
      else some ⟨some nextSeq, stored, prev, hash, h⟩
    else none

/-- The row that `_append_file_access_chain` appends to the rows it finds. -/
def appendRow (sha256 : Bytes → Bytes) (readBack : Datetime → Datetime) (rows : List JournalRow)
    (p : PreparedJournalRow) : Option JournalRow :=
  match nextLink rows with
  | none => none
  | some (nextSeq, prev) => insertRow sha256 readBack rows nextSeq prev p

/-- One append: the prepared access, and whether something outside this module makes its
transaction fail (the acknowledgment nonce, the database, a cancellation). -/
structure Append where
  prepared : PreparedJournalRow
  /-- the transaction is rolled back before its commit -/
  aborted : Bool

/-- One serialized append; every failure rolls the transaction back. -/
def append (sha256 : Bytes → Bytes) (readBack : Datetime → Datetime) (rows : List JournalRow)
    (a : Append) : List JournalRow :=
  if a.aborted then rows
  else match appendRow sha256 readBack rows a.prepared with
    | none => rows
    | some row => rows ++ [row]

/-- The journal after a sequence of appends by any clients, in the order in which the writer
lock serializes them. -/
def journal (sha256 : Bytes → Bytes) (readBack : Datetime → Datetime) (appends : List Append) :
    List JournalRow :=
  appends.foldl (append sha256 readBack) []

/-! ## One append -/

section Append

variable {sha256 : Bytes → Bytes} {readBack : Datetime → Datetime}
variable {rows : List JournalRow} {row : JournalRow} {p : PreparedJournalRow}

/-- The chain entries of a table, in the order of the rows. -/
abbrev entries (rows : List JournalRow) : List (Entry PreparedJournalRow Bytes) :=
  rows.map JournalRow.entry

/-- The rows carry `seq` 1, 2, 3, … in insertion order. -/
def Numbered (rows : List JournalRow) : Prop :=
  rows.map JournalRow.seq = (List.range' 1 rows.length).map fun n : ℕ => some (n : ℤ)

/-- Each row names the `self_hash` of the row before it, the first one the genesis hash. -/
def PrevLinked (rows : List JournalRow) : Prop :=
  rows.map JournalRow.prevJournalHash =
    (genesisJournalHash :: rows.map JournalRow.selfHash).dropLast

theorem orderBySeq_of_numbered (h : Numbered rows) : orderBySeq rows = rows := by
  apply List.Pairwise.insertionSort_eq
  have hsorted : (rows.map JournalRow.seq).Pairwise fun a b => seqLe a b = true := by
    rw [h, List.pairwise_map]
    refine List.Pairwise.imp ?_ List.pairwise_lt_range'
    intro m n hmn
    exact decide_eq_true (by omega)
  exact List.pairwise_map.mp hsorted

/-- The link that an append computes from a numbered table. -/
theorem nextLink_of_numbered (h : Numbered rows) :
    nextLink rows = some ((rows.length : ℤ) + 1, head genesisJournalHash (entries rows)) := by
  rw [nextLink, orderBySeq_of_numbered h]
  rcases List.eq_nil_or_concat rows with rfl | ⟨before, last, rfl⟩
  · rfl
  · rw [List.concat_eq_append] at *
    have hseq : last.seq = some ((before.length : ℤ) + 1) := by
      rw [Numbered, List.length_append, List.length_singleton, List.range'_1_concat] at h
      rw [List.map_append, List.map_append] at h
      have hlast := (List.append_inj' h rfl).2
      rw [(List.cons.inj hlast).1]
      simp [add_comm]
    rw [List.getLast?_concat]
    simp [hseq, entries, JournalRow.entry, head_append, head]

/-- **What an insert writes.** The number and the hash it was given, the digest of the prepared
access behind that hash, and the access itself with its timestamp as it is read back. -/
theorem insertRow_eq_some {nextSeq : ℤ} {prev : Bytes}
    (hrow : insertRow sha256 readBack rows nextSeq prev p = some row) :
    row.seq = some nextSeq ∧ row.prevJournalHash = prev ∧
      selfHash sha256 p row.prevJournalHash = some row.selfHash ∧
      row.prepared = { p with servedAt := readBack p.servedAt } ∧
      (∀ r ∈ rows, r.prepared.accessId ≠ p.accessId) ∧ tierRequiresGrantAndAck p = true := by
  rw [insertRow] at hrow
  cases hhash : selfHash sha256 p prev with
  | none =>
    rw [hhash] at hrow
    cases hrow
  | some hash =>
    rw [hhash] at hrow
    dsimp only at hrow
    split_ifs at hrow with hstore hreject
    rw [Bool.not_eq_true, Bool.or_eq_false_iff] at hreject
    obtain ⟨hfresh, hcheck⟩ := hreject
    cases hrow
    refine ⟨rfl, rfl, hhash, rfl, ?_, by simpa using hcheck⟩
    intro r hr heq
    simp only [List.any_eq_false] at hfresh
    exact hfresh r hr (by simp [heq])

/-- On a numbered table an append writes the next number and the head of the chain. -/
theorem appendRow_eq_some (h : Numbered rows) (hrow : appendRow sha256 readBack rows p = some row) :
    row.seq = some ((rows.length : ℤ) + 1) ∧
      row.prevJournalHash = head genesisJournalHash (entries rows) ∧
      selfHash sha256 p row.prevJournalHash = some row.selfHash ∧
      row.prepared = { p with servedAt := readBack p.servedAt } := by
  rw [appendRow, nextLink_of_numbered h] at hrow
  obtain ⟨hseq, hprev, hself, hprepared, -⟩ := insertRow_eq_some hrow
  exact ⟨hseq, hprev, hself, hprepared⟩

theorem Numbered.append (h : Numbered rows) (hseq : row.seq = some ((rows.length : ℤ) + 1)) :
    Numbered (rows ++ [row]) := by
  rw [Numbered, List.length_append, List.length_singleton, List.range'_1_concat, List.map_append,
    List.map_append, h]
  simp [hseq, add_comm]

theorem PrevLinked.append (h : PrevLinked rows)
    (hprev : row.prevJournalHash = head genesisJournalHash (entries rows)) :
    PrevLinked (rows ++ [row]) := by
  rw [PrevLinked, List.map_append, List.map_append, h, List.map_singleton, List.map_singleton,
    hprev, head_eq_getLast, entries, List.map_map, ← List.cons_append, List.dropLast_concat]
  exact List.dropLast_append_getLast (List.cons_ne_nil _ _)

/-- An append adds one row at the end or leaves the table as it was. -/
theorem append_cases (sha256 : Bytes → Bytes) (readBack : Datetime → Datetime)
    (rows : List JournalRow) (a : Append) :
    append sha256 readBack rows a = rows ∨
      ∃ row, appendRow sha256 readBack rows a.prepared = some row ∧
        append sha256 readBack rows a = rows ++ [row] := by
  rw [append]
  split
  · exact .inl rfl
  · cases hrow : appendRow sha256 readBack rows a.prepared with
    | none => exact .inl rfl
    | some row => exact .inr ⟨row, rfl, rfl⟩

/-- What every append preserves holds of every journal. -/
theorem journal_preserves {I : List JournalRow → Prop} {appends : List Append} (h0 : I [])
    (hstep : ∀ {rows a}, a ∈ appends → I rows → I (append sha256 readBack rows a)) :
    I (journal sha256 readBack appends) := by
  induction appends using List.reverseRecOn with
  | nil => exact h0
  | append_singleton before a ih =>
    rw [journal, List.foldl_append]
    apply hstep (List.mem_append_right before List.mem_cons_self)
    exact ih fun ha => hstep (List.mem_append_left _ ha)

/-- Every journal is numbered and names the hash before each row. -/
theorem journal_numbered (appends : List Append) :
    Numbered (journal sha256 readBack appends) ∧ PrevLinked (journal sha256 readBack appends) := by
  apply journal_preserves (I := fun rows => Numbered rows ∧ PrevLinked rows) ⟨rfl, rfl⟩
  rintro rows a - ⟨hnum, hprev⟩
  rcases append_cases sha256 readBack rows a with h | ⟨row, hrow, h⟩
  · rw [h]
    exact ⟨hnum, hprev⟩
  · rw [h]
    obtain ⟨hseq, hhead, -⟩ := appendRow_eq_some hnum hrow
    exact ⟨hnum.append hseq, hprev.append hhead⟩

/-- Every journal whose timestamps are read back as they were stored is linked. -/
theorem journal_linked (sha256 : Bytes → Bytes) {appends : List Append}
    (hread : ∀ a ∈ appends, readBack a.prepared.servedAt = a.prepared.servedAt) :
    Numbered (journal sha256 readBack appends) ∧
      Linked (selfHash sha256) genesisJournalHash (entries (journal sha256 readBack appends)) := by
  apply journal_preserves (I := fun rows => Numbered rows ∧
    Linked (selfHash sha256) genesisJournalHash (entries rows)) ⟨rfl, trivial⟩
  rintro rows a ha ⟨hnum, hlinked⟩
  rcases append_cases sha256 readBack rows a with h | ⟨row, hrow, h⟩
  · rw [h]
    exact ⟨hnum, hlinked⟩
  · obtain ⟨hseq, hhead, hself, hprepared⟩ := appendRow_eq_some hnum hrow
    rw [hread a ha] at hprepared
    rw [h, entries, List.map_append]
    refine ⟨hnum.append hseq, linked_concat.mpr ⟨hlinked, hhead, ?_⟩⟩
    rw [← hhead]
    simpa [JournalRow.entry, hprepared] using hself

end Append

/-! ## The walk -/

section Walk

variable {sha256 : Bytes → Bytes} {p : PreparedJournalRow}

theorem length_repr_le {n : ℤ} (h : n.natAbs ≤ 2 ^ 63) : n.repr.length ≤ 20 := by
  have hnat : ∀ {m : ℕ}, m ≤ 2 ^ 63 → m.repr.length ≤ 19 := by
    intro m hm
    rw [Nat.length_repr_le_iff (by omega)]
    omega
  rw [Int.repr_eq_if]
  split
  · have := @hnat n.toNat (by omega)
    omega
  · have := @hnat (-n).toNat (by omega)
    have hsign : "-".length = 1 := rfl
    rw [String.length_append]
    omega

/-- Every field of a storable access fits its length word. -/
theorem fields_length (h : p.Storable) :
    ∀ f ∈ journalRowScheme :: p.fields, f.length < 256 ^ 4 := by
  obtain ⟨hcontent, hsignature, hmime, hfingerprint, hsize⟩ := h
  have hopt : ∀ u, (optionUuidBytes u).length ≤ 16 := by
    intro u
    cases u <;> simp [optionUuidBytes]
  have hsizeText := length_utf8_le p.contentSize.repr
  have hsizeChars := length_repr_le hsize
  have hservedText := length_utf8_le p.servedAt.isoformat
  have hservedChars := p.servedAt.length_isoChars
  rw [Datetime.isoformat, String.length_ofList] at hservedText
  have htier : (utf8 p.tier.name).length ≤ 10 := by cases p.tier <;> decide
  have hvia : (utf8 p.servedVia.name).length ≤ 17 := by cases p.servedVia <;> decide
  have hscheme : journalRowScheme.length = 13 := by decide
  have haudit := hopt p.auditEventId
  have hgrant := hopt p.grantId
  have hack := hopt p.acknowledgmentId
  have hserved : (utf8 p.servedAt.isoformat).length ≤ 256 := by
    rw [Datetime.isoformat]
    omega
  have hfits : ∀ {f : Bytes}, f.length ≤ maxCellBytes → f.length < 256 ^ 4 := by
    intro f hf
    unfold maxCellBytes at hf
    omega
  have hsmall : ∀ {f : Bytes}, f.length ≤ 256 → f.length < 256 ^ 4 := by
    intro f hf
    omega
  have huuid : ∀ u : Uuid, (uuidBytes u).length ≤ 256 := by simp
  simp only [PreparedJournalRow.fields, List.forall_mem_cons, List.not_mem_nil, false_implies,
    implies_true, and_true]
  exact ⟨hsmall (by omega), hsmall (huuid _), hsmall (by omega), hsmall (huuid _),
    hsmall (by omega), hfits hcontent, hsmall (by omega), hfits hmime, hsmall (by omega),
    hsmall hserved, hsmall (by omega), hsmall (by omega), hfits hsignature, hfits hfingerprint⟩

/-- A stored row can always be serialised. -/
theorem selfHash_isSome (h : p.Storable) (g : Bytes) : (selfHash sha256 p g).isSome := by
  rw [selfHash, Option.isSome_map]
  exact frames_isSome (fields_length h)

/-- The walk accepts a table exactly when its rows, in the order of `seq`, are linked. -/
theorem verifyFileAccessChain_eq_true_iff (rows : List JournalRow) :
    verifyFileAccessChain sha256 rows = some true ↔
      Linked (selfHash sha256) genesisJournalHash (entries (orderBySeq rows)) :=
  verify_eq_true_iff

/-- The walk over a table ends in a verdict. -/
theorem verifyFileAccessChain_eq_false {rows : List JournalRow}
    (h : verifyFileAccessChain sha256 rows ≠ some true) :
    verifyFileAccessChain sha256 rows = some false := by
  have hsome : (verifyFileAccessChain sha256 rows).isSome := by
    apply verify_isSome
    intro e he g
    obtain ⟨row, -, rfl⟩ := List.mem_map.mp he
    exact selfHash_isSome row.storable g
  obtain ⟨b, hb⟩ := Option.isSome_iff_exists.mp hsome
  cases b with
  | true => exact absurd hb h
  | false => exact hb

/-! ## Tampering -/

/-- The byte strings that a walk over a table hashes. -/
def hashedBytes (rows : List JournalRow) : List Bytes :=
  (hashed genesisJournalHash (entries (orderBySeq rows))).filterMap fun pair =>
    (buildJournalRowCanonical pair.1).map fun canonical => canonical ++ pair.2

/-- On the byte strings of `hashes`, `sha256` has no collision and does not hit the genesis
hash. -/
structure Sound (sha256 : Bytes → Bytes) (hashes : List Bytes) : Prop where
  /-- injectivity on the hashed bytes -/
  injective : ∀ a ∈ hashes, ∀ b ∈ hashes, sha256 a = sha256 b → a = b
  /-- the genesis hash stands for no row -/
  genesis : ∀ a ∈ hashes, sha256 a ≠ genesisJournalHash

theorem Sound.mono {hashes hashes' : List Bytes} (h : Sound sha256 hashes)
    (hsub : hashes' ⊆ hashes) : Sound sha256 hashes' where
  injective a ha b hb := h.injective a (hsub ha) b (hsub hb)
  genesis a ha := h.genesis a (hsub ha)

/-- Digests whose first bytes are distinct and not zero. -/
theorem Sound.of_headD {hashes : List Bytes} {heads : List UInt8}
    (h : (hashes.map fun b => (sha256 b).headD 0) = heads) (hnodup : heads.Nodup)
    (hzero : (0 : UInt8) ∉ heads) : Sound sha256 hashes where
  injective a ha b hb hab := by
    rw [← h] at hnodup
    exact List.inj_on_of_nodup_map hnodup ha hb (by rw [hab])
  genesis a ha hgenesis := by
    apply hzero
    rw [← h]
    refine List.mem_map.mpr ⟨a, ha, ?_⟩
    rw [hgenesis]
    rfl

theorem Sound.collisionFree {rows tampered : List JournalRow}
    (h : Sound sha256 (hashedBytes rows ++ hashedBytes tampered)) :
    CollisionFree (selfHash sha256) genesisJournalHash
      (hashed genesisJournalHash (entries (orderBySeq rows)) ++
        hashed genesisJournalHash (entries (orderBySeq tampered))) := by
  rw [hashedBytes, hashedBytes, ← List.filterMap_append] at h
  refine ⟨?_, ?_⟩
  · intro p q x hp hq hpx hqx
    obtain ⟨a, ha, rfl⟩ := Option.map_eq_some_iff.mp hpx
    obtain ⟨b, hb, heq⟩ := Option.map_eq_some_iff.mp hqx
    have hbytes : a ++ p.2 = b ++ q.2 :=
      h.injective _ (List.mem_filterMap.mpr ⟨p, hp, by rw [ha]; rfl⟩) _
        (List.mem_filterMap.mpr ⟨q, hq, by rw [hb]; rfl⟩) heq.symm
    obtain ⟨hcontent, hprev⟩ := buildJournalRowCanonical_inj ha hb hbytes
    exact Prod.ext hcontent hprev
  · intro p hp hgenesis
    obtain ⟨a, ha, heq⟩ := Option.map_eq_some_iff.mp hgenesis
    exact h.genesis _ (List.mem_filterMap.mpr ⟨p, hp, by rw [ha]; rfl⟩) heq

/-- How a journal `A` can be tampered with, as the walk meets its rows: `W` is what the walk
meets afterwards. -/
inductive Tampered (A W : List (Entry PreparedJournalRow Bytes)) : Prop where
  /-- hashed fields of some rows are altered, their `self_hash` columns are not -/
  | altered (hself : W.map Entry.self = A.map Entry.self) (hne : W ≠ A)
  /-- the rows come in another order -/
  | reordered (hperm : W.Perm A) (hne : W ≠ A)
  /-- rows are inserted, not all of them behind the last row -/
  | inserted (hsub : List.Sublist A W) (hne : ¬ A <+: W)
  /-- rows are deleted, not just the last ones -/
  | deleted (hsub : List.Sublist W A) (hne : ¬ W <+: A)

/-- **The walk detects tampering** with a table that it accepts. -/
theorem verifyFileAccessChain_detects {rows tampered : List JournalRow}
    (hrows : verifyFileAccessChain sha256 rows = some true)
    (hsound : Sound sha256 (hashedBytes rows ++ hashedBytes tampered))
    (h : Tampered (entries (orderBySeq rows)) (entries (orderBySeq tampered))) :
    verifyFileAccessChain sha256 tampered = some false := by
  apply verifyFileAccessChain_eq_false
  intro haccepted
  have hA := (verifyFileAccessChain_eq_true_iff rows).mp hrows
  have hW := (verifyFileAccessChain_eq_true_iff tampered).mp haccepted
  have hfree := hsound.collisionFree
  cases h with
  | altered hself hne => exact hne (Linked.eq_of_self_eq hfree hA hW hself)
  | reordered hperm hne => exact hne (Linked.eq_of_perm hfree hA hW hperm)
  | inserted hsub hne => exact hne (Linked.prefix_of_sublist hfree hA hW hsub)
  | deleted hsub hne => exact hne (Linked.prefix_of_subset hfree hA hW hsub.subset)

end Walk

/-! ## The journal as a whole -/

/-- A journal whose timestamps are read back as they were stored is accepted. -/
theorem journal_accepted (sha256 : Bytes → Bytes) {readBack : Datetime → Datetime}
    {appends : List Append}
    (hread : ∀ a ∈ appends, readBack a.prepared.servedAt = a.prepared.servedAt) :
    verifyFileAccessChain sha256 (journal sha256 readBack appends) = some true := by
  obtain ⟨hnum, hlinked⟩ := journal_linked sha256 hread
  rw [verifyFileAccessChain_eq_true_iff, orderBySeq_of_numbered hnum]
  exact hlinked

/-- Later appends leave the rows of earlier ones in place. -/
theorem journal_initial (sha256 : Bytes → Bytes) (readBack : Datetime → Datetime)
    (earlier later : List Append) :
    journal sha256 readBack earlier <+: journal sha256 readBack (earlier ++ later) := by
  induction later using List.reverseRecOn with
  | nil => rw [List.append_nil]
  | append_singleton later a ih =>
    have hlast : journal sha256 readBack (earlier ++ (later ++ [a])) =
        append sha256 readBack (journal sha256 readBack (earlier ++ later)) a := by
      simp only [journal, List.foldl_append, List.foldl_cons, List.foldl_nil]
    rw [hlast]
    rcases append_cases sha256 readBack (journal sha256 readBack (earlier ++ later)) a with
      h | ⟨row, -, h⟩
    · rw [h]
      exact ih
    · rw [h]
      exact ih.trans (List.prefix_append _ [row])

/-- **The journal is tamper-evident.** After every sequence of appends the rows are numbered
from 1, each names the hash before it, and the walk accepts them; and as long as `sha256`
neither collides nor hits the genesis hash on the bytes hashed here, the walk rejects the
journal with hashed fields altered, with rows reordered, with rows inserted before its end, and
with rows deleted before its end. -/
theorem journal_tamper_evident {sha256 : Bytes → Bytes} {readBack : Datetime → Datetime}
    {appends : List Append}
    (hread : ∀ a ∈ appends, readBack a.prepared.servedAt = a.prepared.servedAt) :
    let rows := journal sha256 readBack appends
    Numbered rows ∧ PrevLinked rows ∧ verifyFileAccessChain sha256 rows = some true ∧
      ∀ tampered : List JournalRow, Sound sha256 (hashedBytes rows ++ hashedBytes tampered) →
        Tampered (entries rows) (entries (orderBySeq tampered)) →
        verifyFileAccessChain sha256 tampered = some false := by
  intro rows
  have hnum := (journal_linked sha256 hread).1
  have horder : orderBySeq rows = rows := orderBySeq_of_numbered hnum
  have haccepted : verifyFileAccessChain sha256 rows = some true := journal_accepted sha256 hread
  refine ⟨hnum, (journal_numbered appends).2, haccepted, ?_⟩
  intro tampered hsound htampered
  rw [← horder] at htampered
  exact verifyFileAccessChain_detects haccepted hsound htampered

/-- A normal-tier access at the start of 2026, told apart by its identifier and its size. -/
def sampleAccess (accessId : Uuid) (contentSize : ℤ) : PreparedJournalRow where
  accessId := accessId
  auditEventId := none
  userId := 7
  grantId := none
  contentHash := List.replicate 32 0x11
  contentSize := contentSize
  contentMime := "application/pdf"
  tier := .normal
  servedAt :=
    { year := 2026, month := 1, day := 1, hour := 0, minute := 0, second := 0, microsecond := 0
      utcoffset := some ⟨false, 0, by decide, by decide⟩
      year_bound := by decide, month_bound := by decide, day_bound := by decide
      hour_bound := by decide, minute_bound := by decide, second_bound := by decide
      microsecond_bound := by decide }
  servedVia := .inlineJson
  acknowledgmentId := none
  operatorSignature := List.replicate 64 0x22
  signingPubkeyFingerprint := "0123456789abcdef"

/-- The appends of two accesses. -/
def sampleAppends : List Append := [⟨sampleAccess 1 10, false⟩, ⟨sampleAccess 2 20, false⟩]

/-- The rows of two accesses. -/
def sampleJournal : List JournalRow := journal Sha256.digest id sampleAppends

theorem sampleJournal_sound :
    Sound Sha256.digest (hashedBytes sampleJournal ++ hashedBytes (sampleJournal.drop 1)) := by
  have hheads : (hashedBytes sampleJournal ++ hashedBytes (sampleJournal.drop 1)).map
      (fun b => (Sha256.digest b).headD 0) = [249, 151, 175] := by
    decide +kernel
  exact Sound.of_headD hheads (by decide) (by decide)

theorem sampleJournal_eq :
    ∃ a b, sampleJournal = [a, b] ∧ a.prepared = sampleAccess 1 10 ∧
      b.prepared = sampleAccess 2 20 := by
  have h : sampleJournal.map JournalRow.prepared = [sampleAccess 1 10, sampleAccess 2 20] := by
    rfl
  obtain ⟨a, rest, hrows, ha, hrest⟩ := List.map_eq_cons_iff.mp h
  obtain ⟨b, last, rfl, hb, hlast⟩ := List.map_eq_cons_iff.mp hrest
  rw [List.map_eq_nil_iff.mp hlast] at hrows
  exact ⟨a, b, hrows, ha, hb⟩

/-- Dropping the first of two rows is detected, with the real digest. -/
theorem journal_tamper_evident_sample :
    verifyFileAccessChain Sha256.digest (sampleJournal.drop 1) = some false := by
  have hread : ∀ a ∈ sampleAppends, id a.prepared.servedAt = a.prepared.servedAt :=
    fun _ _ => rfl
  apply (journal_tamper_evident hread).2.2.2 (sampleJournal.drop 1) sampleJournal_sound
  have hnum : orderBySeq sampleJournal = sampleJournal :=
    orderBySeq_of_numbered (journal_linked _ hread).1
  obtain ⟨a, b, hrows, ha, hb⟩ := sampleJournal_eq
  have hne : a.entry ≠ b.entry := by
    intro h
    have hprepared : a.prepared = b.prepared := congrArg Entry.content h
    rw [ha, hb] at hprepared
    exact absurd hprepared (by decide)
  change Tampered (entries sampleJournal) (entries (orderBySeq (sampleJournal.drop 1)))
  rw [hrows]
  refine .deleted ?_ ?_
  · exact List.sublist_cons_self a.entry [b.entry]
  · intro hpre
    exact hne (List.cons_prefix_cons.mp hpre).1.symm

/-- A digest that hits the genesis hash on the first sample access, and is injective. -/
def genesisDigest (bytes : Bytes) : Bytes :=
  if some (bytes.take (bytes.length - 32)) = buildJournalRowCanonical (sampleAccess 1 10) then
    genesisJournalHash
  else bytes

/-- Two ways past the walk. A row that is linked by hand behind the last row is accepted: the
walk cannot tell it from an append. And an injective digest that sends the first row to the
genesis hash hides the deletion of that row. -/
theorem forged_append_accepted :
    (∃ rows tampered : List JournalRow,
      rows = journal Sha256.digest id (sampleAppends.take 1) ∧ rows.length = 1 ∧
      tampered.length = 2 ∧ rows <+: tampered ∧
      Sound Sha256.digest (hashedBytes rows ++ hashedBytes tampered) ∧
      verifyFileAccessChain Sha256.digest tampered = some true) ∧
    ∃ rows : List JournalRow, rows = journal genesisDigest id sampleAppends ∧ rows.length = 2 ∧
      (∀ a ∈ hashedBytes rows ++ hashedBytes (rows.drop 1),
        ∀ b ∈ hashedBytes rows ++ hashedBytes (rows.drop 1),
          genesisDigest a = genesisDigest b → a = b) ∧
      verifyFileAccessChain genesisDigest (rows.drop 1) = some true := by
  refine ⟨⟨_, sampleJournal, rfl, by decide +kernel, by decide +kernel, ?_, ?_, ?_⟩, ?_⟩
  · exact journal_initial Sha256.digest id (sampleAppends.take 1) (sampleAppends.drop 1)
  · apply sampleJournal_sound.mono
    have hfirst : hashedBytes (journal Sha256.digest id (sampleAppends.take 1)) =
        (hashedBytes sampleJournal).take 1 := by
      decide +kernel
    rw [hfirst]
    intro bytes hbytes
    apply List.mem_append_left
    rcases List.mem_append.mp hbytes with h | h
    · exact List.mem_of_mem_take h
    · exact h
  · exact journal_accepted Sha256.digest fun _ _ => rfl
  · exact ⟨_, rfl, by decide +kernel, by decide +kernel, by decide +kernel⟩

end Eyenet
