import Eyenet.Datetime
import Eyenet.Enums
import Eyenet.HashChain
import Eyenet.Json
import Eyenet.Machine
import Eyenet.Sha256

/-!
# The hash chain of the audit log

An audit row is hashed as compact JSON with sorted keys, over its own fields and the hash of the
row before it (`contracts/audit.py`). `append_audit` hashes the row that it has built and inserts
the fields as text (`sqlite_repo/repository.py`); the verifier hashes the rows that `all_audit`
reads back (`sqlmodel_repo/audit.py`). How a timestamp is rendered as JSON and how the column type
reads it are parameters.

* `AuditChain.verifyChain_eq_false` — the walk stops at the first broken row.
* `AuditChain.auditLog_stored` — every row is stored with the hash it is read back with.
* `AuditChain.audit_tamper_evident` — a log is accepted, and tampering with it is located.
-/

namespace Eyenet

open HashChain

/-- `GENESIS_PREV_HASH` -/
def genesisPrevHash : String := String.ofList (List.replicate 64 '0')

namespace AuditChain

/-! ## Rows and their hashes -/

/-- What SHA-256 gives. -/
abbrev Digest := { b : Bytes // b.length = 32 }

/-- What a caller of `append_audit` gives. -/
structure AuditRowData where
  id : Uuid
  event : String
  service : String
  instanceId : String
  systemUserId : Option Uuid
  subjectKind : String
  subjectId : Option Uuid
  evidenceRef : Option String
  traceId : Option String
  spanId : Option String
  /-- a dict, by its items -/
  payload : List (String × Json)
  /-- `at` -/
  occurredAt : Datetime

/-- `AuditLogRow` -/
structure AuditLogRow where
  data : AuditRowData
  prevHash : String
  selfHash : String

/-- A text, or null. -/
def jsonText : Option String → Json
  | none => .null
  | some s => .str s

section

variable (dumpAt : Datetime → String)

/-- The fields of a row in JSON mode, less its hashes. -/
def AuditRowData.fields (d : AuditRowData) : List (String × Json) :=
  [("id", .str (uuidText d.id)), ("event", .str d.event), ("service", .str d.service),
    ("instance_id", .str d.instanceId), ("system_user_id", jsonText (d.systemUserId.map uuidText)),
    ("subject_kind", .str d.subjectKind), ("subject_id", jsonText (d.subjectId.map uuidText)),
    ("evidence_ref", jsonText d.evidenceRef), ("trace_id", jsonText d.traceId),
    ("span_id", jsonText d.spanId), ("payload", .obj d.payload),
    ("at", .str (dumpAt d.occurredAt))]

/-- `model_dump(mode="json", exclude={"self_hash"})` -/
def AuditLogRow.modelDump (row : AuditLogRow) : List (String × Json) :=
  row.data.fields dumpAt ++ [("prev_hash", .str row.prevHash)]

/-- `_canonicalize_for_hash` -/
def canonicalizeForHash (row : AuditLogRow) : Bytes :=
  utf8 (Json.dumps false (Json.sortKeys (.obj (row.modelDump dumpAt))))

variable (sha256 : Bytes → Digest)

/-- `compute_self_hash` -/
def computeSelfHash (row : AuditLogRow) : String :=
  hex (sha256 (canonicalizeForHash dumpAt row)).val

/-- The walk over the rows from index `idx` on. -/
def verifyFrom : ℕ → String → List AuditLogRow → Bool × Option ℕ
  | _, _, [] => (true, none)
  | idx, expectedPrev, row :: rows =>
    if row.prevHash ≠ expectedPrev then (false, some idx)
    else if row.selfHash ≠ computeSelfHash dumpAt sha256 row then (false, some idx)
    else verifyFrom (idx + 1) row.selfHash rows

/-- `verify_chain` -/
def verifyChain (rows : List AuditLogRow) : Bool × Option ℕ :=
  verifyFrom dumpAt sha256 0 genesisPrevHash rows

end

/-! ## The table -/

/-- A row of `audit_log`, as the columns hold it. -/
structure AuditRecord where
  seq : ℕ
  id : String
  event : String
  service : String
  instanceId : String
  systemUserId : Option String
  subjectKind : String
  subjectId : Option String
  evidenceRef : Option String
  traceId : Option String
  spanId : Option String
  payload : String
  occurredAt : String
  prevHash : String
  selfHash : String

/-- The values that are inserted for a row; a dict goes in as JSON text. -/
def AuditLogRow.record (dumpAt : Datetime → String) (row : AuditLogRow) (seq : ℕ) :
    AuditRecord where
  seq := seq
  id := uuidText row.data.id
  event := row.data.event
  service := row.data.service
  instanceId := row.data.instanceId
  systemUserId := row.data.systemUserId.map uuidText
  subjectKind := row.data.subjectKind
  subjectId := row.data.subjectId.map uuidText
  evidenceRef := row.data.evidenceRef
  traceId := row.data.traceId
  spanId := row.data.spanId
  payload := Json.dumps true (.obj row.data.payload)
  occurredAt := dumpAt row.data.occurredAt
  prevHash := row.prevHash
  selfHash := row.selfHash

/-- The rows by `seq`. -/
def orderBySeq (records : List AuditRecord) : List AuditRecord :=
  records.insertionSort fun a b => a.seq ≤ b.seq

/-- `next_seq` and `prev` -/
def nextLink (records : List AuditRecord) : ℕ × String :=
  match (orderBySeq records).getLast? with
  | none => (1, genesisPrevHash)
  | some last => (last.seq + 1, last.selfHash)

/-- `min_length` and `max_length` of the hashes. -/
def ValidHash (hash : String) : Prop := hash.length = 64

instance (hash : String) : Decidable (ValidHash hash) := inferInstanceAs (Decidable (_ = _))

/-- The row that `_append_chain` inserts; `none` when this raises: the hash before is not valid,
or the key or the hash is taken. -/
def appendChain (dumpAt : Datetime → String) (sha256 : Bytes → Digest)
    (records : List AuditRecord) (d : AuditRowData) : Option AuditRecord :=
  let (nextSeq, prev) := nextLink records
  if ¬ ValidHash prev then none
  else
    let row : AuditLogRow := ⟨d, prev, genesisPrevHash⟩
    let row := { row with selfHash := computeSelfHash dumpAt sha256 row }
    if records.any fun r => r.id = uuidText d.id ∨ r.selfHash = row.selfHash then none
    else some (row.record dumpAt nextSeq)

/-- One call of `append_audit`, and whether its transaction fails for another reason. -/
structure AuditAppend where
  data : AuditRowData
  aborted : Bool

/-- A call that fails is rolled back. -/
def append (dumpAt : Datetime → String) (sha256 : Bytes → Digest) (records : List AuditRecord)
    (a : AuditAppend) : List AuditRecord :=
  if a.aborted then records
  else
    match appendChain dumpAt sha256 records a.data with
    | none => records
    | some record => records ++ [record]

/-- The table after a sequence of calls. -/
def auditLog (dumpAt : Datetime → String) (sha256 : Bytes → Digest) (appends : List AuditAppend) :
    List AuditRecord :=
  appends.foldl (append dumpAt sha256) []

theorem utc_lt_day : 0 < 86400000000 := by decide

theorem utc_sign_zero : 0 = 0 → false = false := fun _ => rfl

/-- The offset of UTC. -/
def utc : UtcOffset := ⟨false, 0, utc_lt_day, utc_sign_zero⟩

/-- A timestamp without an offset is UTC. -/
def ensureUtc (d : Datetime) : Datetime :=
  { d with utcoffset := some (d.utcoffset.getD utc) }

/-- A nullable column of UUIDs. -/
def parseNullable : Option String → Option (Option Uuid)
  | none => some none
  | some s => (parseUuid s).map some

/-- A column of dicts. -/
def loadsObject (s : String) : Option (List (String × Json)) :=
  match Json.loads s with
  | some (.obj fields) => some fields
  | _ => none

/-- A row as `all_audit` reads it; `none` when a column cannot be read or the contract refuses
the row. -/
def readRow (readAt : String → Option Datetime) (r : AuditRecord) : Option AuditLogRow :=
  match parseUuid r.id, parseNullable r.systemUserId, parseNullable r.subjectId,
    loadsObject r.payload, readAt r.occurredAt with
  | some id, some systemUserId, some subjectId, some payload, some occurredAt =>
    if ValidHash r.prevHash ∧ ValidHash r.selfHash then
      let data : AuditRowData :=
        { id := id
          event := r.event
          service := r.service
          instanceId := r.instanceId
          systemUserId := systemUserId
          subjectKind := r.subjectKind
          subjectId := subjectId
          evidenceRef := r.evidenceRef
          traceId := r.traceId
          spanId := r.spanId
          payload := payload
          occurredAt := ensureUtc occurredAt }
      some ⟨data, r.prevHash, r.selfHash⟩
    else none
  | _, _, _, _, _ => none

/-- `all_audit` -/
def allAudit (readAt : String → Option Datetime) (records : List AuditRecord) :
    Option (List AuditLogRow) :=
  (orderBySeq records).mapM (readRow readAt)

variable {dumpAt : Datetime → String} {readAt : String → Option Datetime}
variable {sha256 : Bytes → Digest}

/-! ## The walk -/

/-- The fields of a row as they are hashed. -/
def hashedFields (dumpAt : Datetime → String) (d : AuditRowData) : List (String × Json) :=
  Json.sortKeysIn (d.fields dumpAt)

/-- The bytes that are hashed for fields behind a hash. -/
def canonical (fields : List (String × Json)) (prev : String) : Bytes :=
  utf8 (Json.dumps false (.obj (Json.sortItems (fields ++ [("prev_hash", .str prev)]))))

/-- The hash of fields behind a hash. -/
def link (sha256 : Bytes → Digest) (fields : List (String × Json)) (prev : String) :
    Option String :=
  some (hex (sha256 (canonical fields prev)).val)

/-- The row as an entry of the chain. -/
def entry (dumpAt : Datetime → String) (row : AuditLogRow) : Entry (List (String × Json)) String :=
  ⟨hashedFields dumpAt row.data, row.prevHash, row.selfHash⟩

/-- The rows as entries of the chain. -/
abbrev entries (dumpAt : Datetime → String) (rows : List AuditLogRow) :
    List (Entry (List (String × Json)) String) :=
  rows.map (entry dumpAt)

theorem canonicalizeForHash_eq (row : AuditLogRow) :
    canonicalizeForHash dumpAt row = canonical (hashedFields dumpAt row.data) row.prevHash := by
  simp only [canonicalizeForHash, canonical, AuditLogRow.modelDump, Json.sortKeys,
    Json.sortKeysIn_append, Json.sortKeysIn, hashedFields]

theorem link_eq_some_iff {row : AuditLogRow} {hash : String} :
    link sha256 (hashedFields dumpAt row.data) row.prevHash = some hash ↔
      hash = computeSelfHash dumpAt sha256 row := by
  rw [link, computeSelfHash, canonicalizeForHash_eq, Option.some.injEq, eq_comm]

/-- The link or the hash of the row at an index fails. -/
def Broken (dumpAt : Datetime → String) (sha256 : Bytes → Digest) (seed : String)
    (rows : List AuditLogRow) (i : ℕ) : Prop :=
  ∃ row, rows[i]? = some row ∧
    (some row.prevHash ≠ (seed :: rows.map AuditLogRow.selfHash)[i]? ∨
      row.selfHash ≠ computeSelfHash dumpAt sha256 row)

/-- The row at an index is broken, and none before it is. -/
def FirstBroken (dumpAt : Datetime → String) (sha256 : Bytes → Digest) (seed : String)
    (rows : List AuditLogRow) (i : ℕ) : Prop :=
  Broken dumpAt sha256 seed rows i ∧ ∀ j < i, ¬ Broken dumpAt sha256 seed rows j

variable {seed : String} {row : AuditLogRow} {rows : List AuditLogRow} {i : ℕ}

theorem broken_zero : Broken dumpAt sha256 seed (row :: rows) 0 ↔
    row.prevHash ≠ seed ∨ row.selfHash ≠ computeSelfHash dumpAt sha256 row := by
  simp [Broken]

theorem broken_succ : Broken dumpAt sha256 seed (row :: rows) (i + 1) ↔
    Broken dumpAt sha256 row.selfHash rows i := by
  simp [Broken]

theorem FirstBroken.succ (h : FirstBroken dumpAt sha256 row.selfHash rows i)
    (hrow : ¬ Broken dumpAt sha256 seed (row :: rows) 0) :
    FirstBroken dumpAt sha256 seed (row :: rows) (i + 1) := by
  refine ⟨broken_succ.mpr h.1, fun j hj => ?_⟩
  cases j with
  | zero => exact hrow
  | succ j =>
    rw [broken_succ]
    exact h.2 j (Nat.lt_of_succ_lt_succ hj)

/-- The walk accepts linked rows, and stops at the first broken row otherwise. -/
theorem verifyFrom_cases (idx : ℕ) (seed : String) (rows : List AuditLogRow) :
    (verifyFrom dumpAt sha256 idx seed rows = (true, none) ∧
      Linked (link sha256) seed (entries dumpAt rows)) ∨
    ∃ i, verifyFrom dumpAt sha256 idx seed rows = (false, some (idx + i)) ∧
      FirstBroken dumpAt sha256 seed rows i := by
  induction rows generalizing idx seed with
  | nil => exact Or.inl ⟨rfl, trivial⟩
  | cons row rows ih =>
    rw [verifyFrom]
    by_cases hprev : row.prevHash = seed
    · by_cases hself : row.selfHash = computeSelfHash dumpAt sha256 row
      · rw [if_neg (not_not.mpr hprev), if_neg (not_not.mpr hself)]
        rcases ih (idx + 1) row.selfHash with ⟨hverify, hlinked⟩ | ⟨i, hverify, hfirst⟩
        · refine Or.inl ⟨hverify, hprev, ?_, hlinked⟩
          rw [← hprev]
          exact link_eq_some_iff.mpr hself
        · refine Or.inr ⟨i + 1, ?_, hfirst.succ fun hbroken => ?_⟩
          · rw [hverify, Nat.add_right_comm, Nat.add_assoc]
          · exact (broken_zero.mp hbroken).elim (fun h => h hprev) fun h => h hself
      · refine Or.inr ⟨0, ?_, broken_zero.mpr (Or.inr hself), by rintro _ ⟨⟩⟩
        rw [if_neg (not_not.mpr hprev), if_pos hself]
        rfl
    · refine Or.inr ⟨0, ?_, broken_zero.mpr (Or.inl hprev), by rintro _ ⟨⟩⟩
      rw [if_pos hprev]
      rfl

/-- No row of a chain is broken. -/
theorem not_broken_of_linked (h : Linked (link sha256) seed (entries dumpAt rows)) (i : ℕ) :
    ¬ Broken dumpAt sha256 seed rows i := by
  induction rows generalizing seed i with
  | nil =>
    rintro ⟨row, hrow, -⟩
    simp at hrow
  | cons row rows ih =>
    obtain ⟨hprev, hself, hrest⟩ := h
    obtain rfl : row.prevHash = seed := hprev
    cases i with
    | zero =>
      rw [broken_zero]
      rintro (hne | hne)
      · exact hne rfl
      · exact hne (link_eq_some_iff.mp hself)
    | succ i =>
      rw [broken_succ]
      exact ih hrest i

/-- **The walk accepts a chain.** -/
theorem verifyChain_eq_true (h : Linked (link sha256) genesisPrevHash (entries dumpAt rows)) :
    verifyChain dumpAt sha256 rows = (true, none) := by
  rcases verifyFrom_cases 0 genesisPrevHash rows with ⟨hverify, -⟩ | ⟨i, -, hfirst⟩
  · exact hverify
  · exact absurd hfirst.1 (not_broken_of_linked h i)

/-- **The walk stops at the first broken row.** -/
theorem verifyChain_eq_false (h : ¬ Linked (link sha256) genesisPrevHash (entries dumpAt rows)) :
    ∃ i, verifyChain dumpAt sha256 rows = (false, some i) ∧
      FirstBroken dumpAt sha256 genesisPrevHash rows i := by
  rcases verifyFrom_cases 0 genesisPrevHash rows with ⟨-, hlinked⟩ | ⟨i, hverify, hfirst⟩
  · exact absurd hlinked h
  · rw [Nat.zero_add] at hverify
    exact ⟨i, hverify, hfirst⟩

/-! ## What the hashed bytes determine -/

theorem canonical_inj {c c' : List (String × Json)} {g g' : String}
    (hkeys : c.map Prod.fst = c'.map Prod.fst) (hnodup : ("prev_hash" :: c.map Prod.fst).Nodup)
    (h : canonical c g = canonical c' g') : c = c' ∧ g = g' := by
  have hitems := Json.obj.inj (Json.dumps_injective false (utf8_injective h))
  have hconcat (l : List (String × Json)) (x : Json) :
      (l ++ [("prev_hash", x)]).map Prod.fst = l.map Prod.fst ++ ["prev_hash"] := by
    rw [List.map_append, List.map_singleton]
  have hlist := Json.sortItems_inj hitems (by rw [hconcat, hconcat, hkeys])
    (by rw [hconcat]; exact (List.perm_append_singleton _ _).nodup_iff.mpr hnodup)
  obtain ⟨hc, hlast⟩ := List.append_inj' hlist rfl
  refine ⟨hc, ?_⟩
  simpa using hlast

/-- The names of the hashed fields, less that of the hash before. -/
def fieldNames : List String :=
  ["id", "event", "service", "instance_id", "system_user_id", "subject_kind", "subject_id",
    "evidence_ref", "trace_id", "span_id", "payload", "at"]

theorem keys_hashedFields (d : AuditRowData) :
    (hashedFields dumpAt d).map Prod.fst = fieldNames := by
  rw [hashedFields, Json.keys_sortKeysIn]
  simp only [AuditRowData.fields, List.map_cons, List.map_nil, fieldNames]

theorem jsonText_injective : Function.Injective jsonText := by
  intro a b h
  cases a <;> cases b <;> simp_all [jsonText]

theorem sortKeys_jsonText (s : Option String) : Json.sortKeys (jsonText s) = jsonText s := by
  cases s <;> rfl

/-- **The hashed fields determine the row**, up to the order of the keys in its payload and to
what the rendering of the timestamp leaves out. -/
theorem hashedFields_eq_iff {d d' : AuditRowData} :
    hashedFields dumpAt d = hashedFields dumpAt d' ↔
      d.id = d'.id ∧ d.event = d'.event ∧ d.service = d'.service ∧ d.instanceId = d'.instanceId ∧
      d.systemUserId = d'.systemUserId ∧ d.subjectKind = d'.subjectKind ∧
      d.subjectId = d'.subjectId ∧ d.evidenceRef = d'.evidenceRef ∧ d.traceId = d'.traceId ∧
      d.spanId = d'.spanId ∧
      Json.sortKeys (.obj d.payload) = Json.sortKeys (.obj d'.payload) ∧
      dumpAt d.occurredAt = dumpAt d'.occurredAt := by
  simp only [hashedFields, AuditRowData.fields, Json.sortKeysIn, sortKeys_jsonText, Json.sortKeys,
    List.cons.injEq, Prod.mk.injEq, true_and, and_true, Json.str.injEq, Json.obj.injEq,
    jsonText_injective.eq_iff, (Option.map_injective uuidText_injective).eq_iff,
    uuidText_injective.eq_iff]

/-- The byte strings that a walk over rows hashes. -/
def hashedBytes (dumpAt : Datetime → String) (rows : List AuditLogRow) : List Bytes :=
  (hashed genesisPrevHash (entries dumpAt rows)).map fun p => canonical p.1 p.2

/-- On the byte strings, `sha256` has no collision and does not give the genesis hash. -/
structure Sound (sha256 : Bytes → Digest) (hashes : List Bytes) : Prop where
  /-- injectivity on the hashed bytes -/
  injective : ∀ a ∈ hashes, ∀ b ∈ hashes, sha256 a = sha256 b → a = b
  /-- the genesis hash stands for no row -/
  genesis : ∀ a ∈ hashes, hex (sha256 a).val ≠ genesisPrevHash

theorem Sound.mono {hashes hashes' : List Bytes} (h : Sound sha256 hashes)
    (hsub : hashes' ⊆ hashes) : Sound sha256 hashes' where
  injective a ha b hb := h.injective a (hsub ha) b (hsub hb)
  genesis a ha := h.genesis a (hsub ha)

theorem hex_zero : hex (List.replicate 32 0) = genesisPrevHash := by decide

/-- Digests whose first bytes are distinct and not zero. -/
theorem Sound.of_heads {hashes : List Bytes} {heads : List UInt8}
    (h : (hashes.map fun b => (sha256 b).val.headD 0) = heads) (hnodup : heads.Nodup)
    (hzero : (0 : UInt8) ∉ heads) : Sound sha256 hashes where
  injective a ha b hb hab := by
    rw [← h] at hnodup
    exact List.inj_on_of_nodup_map hnodup ha hb (by rw [hab])
  genesis a ha hgenesis := by
    have hbytes := hex_injective (hgenesis.trans hex_zero.symm)
    apply hzero
    rw [← h]
    refine List.mem_map.mpr ⟨a, ha, ?_⟩
    rw [hbytes]
    rfl

theorem Sound.collisionFree {tampered : List AuditLogRow}
    (h : Sound sha256 (hashedBytes dumpAt rows ++ hashedBytes dumpAt tampered)) :
    CollisionFree (link sha256) genesisPrevHash
      (hashed genesisPrevHash (entries dumpAt rows) ++
        hashed genesisPrevHash (entries dumpAt tampered)) := by
  rw [hashedBytes, hashedBytes, ← List.map_append] at h
  have hcontent : ∀ p ∈ hashed genesisPrevHash (entries dumpAt rows) ++
      hashed genesisPrevHash (entries dumpAt tampered), ∃ d, hashedFields dumpAt d = p.1 := by
    intro p hp
    rcases List.mem_append.mp hp with hp | hp
    · obtain ⟨e, he, heq⟩ := content_of_mem_hashed hp
      obtain ⟨row, -, rfl⟩ := List.mem_map.mp he
      exact ⟨row.data, heq⟩
    · obtain ⟨e, he, heq⟩ := content_of_mem_hashed hp
      obtain ⟨row, -, rfl⟩ := List.mem_map.mp he
      exact ⟨row.data, heq⟩
  refine ⟨?_, ?_⟩
  · rintro ⟨c, g⟩ ⟨c', g'⟩ x hp hq hpx hqx
    obtain ⟨d, rfl⟩ := hcontent _ hp
    obtain ⟨d', rfl⟩ := hcontent _ hq
    have hdigest := hex_injective (Option.some.inj (hpx.trans hqx.symm))
    have hbytes := h.injective _ (List.mem_map_of_mem hp) _ (List.mem_map_of_mem hq)
      (Subtype.ext hdigest)
    have hkeys : (hashedFields dumpAt d).map Prod.fst = (hashedFields dumpAt d').map Prod.fst := by
      rw [keys_hashedFields, keys_hashedFields]
    have hnodup : ("prev_hash" :: (hashedFields dumpAt d).map Prod.fst).Nodup := by
      rw [keys_hashedFields]
      decide
    obtain ⟨hfields, hprev⟩ := canonical_inj hkeys hnodup hbytes
    exact Prod.ext hfields hprev
  · intro p hp hgenesis
    exact h.genesis _ (List.mem_map_of_mem hp) (Option.some.inj hgenesis)

/-- **The walk locates tampering** with rows that it accepts. -/
theorem verifyChain_detects {tampered : List AuditLogRow}
    (hrows : Linked (link sha256) genesisPrevHash (entries dumpAt rows))
    (hsound : Sound sha256 (hashedBytes dumpAt rows ++ hashedBytes dumpAt tampered))
    (h : Tampered (entries dumpAt rows) (entries dumpAt tampered)) :
    ∃ i, verifyChain dumpAt sha256 tampered = (false, some i) ∧
      FirstBroken dumpAt sha256 genesisPrevHash tampered i :=
  verifyChain_eq_false (h.not_linked hsound.collisionFree hrows)

/-! ## The log -/

/-- A timestamp is read from its rendering as one with the same rendering. -/
def ReadsBack (dumpAt : Datetime → String) (readAt : String → Option Datetime) (d : Datetime) :
    Prop :=
  ∃ d', readAt (dumpAt d) = some d' ∧ d'.utcoffset.isSome ∧ dumpAt d' = dumpAt d

theorem ensureUtc_of_isSome {d : Datetime} (h : d.utcoffset.isSome) : ensureUtc d = d := by
  obtain ⟨offset, hoffset⟩ := Option.isSome_iff_exists.mp h
  rw [ensureUtc, hoffset, Option.getD_some, ← hoffset]

theorem parseNullable_map (u : Option Uuid) : parseNullable (u.map uuidText) = some u := by
  cases u with
  | none => rfl
  | some u => rw [Option.map_some, parseNullable, parseUuid_uuidText, Option.map_some]

theorem loadsObject_dumps (fields : List (String × Json)) :
    loadsObject (Json.dumps true (.obj fields)) = some fields := by
  rw [loadsObject, Json.loads_dumps]

theorem length_genesisPrevHash : ValidHash genesisPrevHash := by decide

theorem validHash_computeSelfHash (row : AuditLogRow) :
    ValidHash (computeSelfHash dumpAt sha256 row) := by
  rw [ValidHash, computeSelfHash, hex, String.length_ofList, length_flatMap_hexByte,
    (sha256 (canonicalizeForHash dumpAt row)).property]

/-- **A row is read back as it was inserted**, but for what the rendering of its timestamp leaves
out. -/
theorem readRow_record (row : AuditLogRow) (hread : ReadsBack dumpAt readAt row.data.occurredAt)
    (hprev : ValidHash row.prevHash) (hself : ValidHash row.selfHash) (seq : ℕ) :
    ∃ row', readRow readAt (row.record dumpAt seq) = some row' ∧
      entry dumpAt row' = entry dumpAt row := by
  obtain ⟨d', hd', haware, hsame⟩ := hread
  refine ⟨⟨{ row.data with occurredAt := d' }, row.prevHash, row.selfHash⟩, ?_, ?_⟩
  · simp only [readRow, AuditLogRow.record, parseUuid_uuidText, parseNullable_map,
      loadsObject_dumps, hd', ensureUtc_of_isSome haware]
    rw [if_pos ⟨hprev, hself⟩]
  · simp only [entry, Entry.mk.injEq, and_true]
    refine hashedFields_eq_iff.mpr ⟨rfl, rfl, rfl, rfl, rfl, rfl, rfl, rfl, rfl, rfl, rfl, hsame⟩

variable {records : List AuditRecord} {record : AuditRecord} {d : AuditRowData}

/-- The rows carry `seq` 1, 2, 3, … in insertion order. -/
def Numbered (records : List AuditRecord) : Prop :=
  records.map AuditRecord.seq = List.range' 1 records.length

theorem orderBySeq_of_numbered (h : Numbered records) : orderBySeq records = records := by
  apply List.Pairwise.insertionSort_eq
  have hsorted : (records.map AuditRecord.seq).Pairwise (· ≤ ·) := by
    rw [h]
    exact List.Pairwise.imp Nat.le_of_lt List.pairwise_lt_range'
  exact List.pairwise_map.mp hsorted

/-- What holds of the table after any calls: `rows` are its rows as they are read. -/
structure Stored (dumpAt : Datetime → String) (readAt : String → Option Datetime)
    (sha256 : Bytes → Digest) (records : List AuditRecord) (rows : List AuditLogRow) : Prop where
  numbered : Numbered records
  read : records.mapM (readRow readAt) = some rows
  hashes : records.map AuditRecord.selfHash = rows.map AuditLogRow.selfHash
  valid : ∀ r ∈ records, ValidHash r.selfHash
  linked : Linked (link sha256) genesisPrevHash (entries dumpAt rows)

theorem stored_nil : Stored dumpAt readAt sha256 [] [] := by
  refine ⟨rfl, rfl, rfl, ?_, trivial⟩
  exact fun r hr => absurd hr List.not_mem_nil

/-- The link that an append computes. -/
theorem Stored.nextLink_eq (h : Stored dumpAt readAt sha256 records rows) :
    nextLink records = (records.length + 1, head genesisPrevHash (entries dumpAt rows)) ∧
      ValidHash (head genesisPrevHash (entries dumpAt rows)) := by
  rw [nextLink, orderBySeq_of_numbered h.numbered]
  rcases List.eq_nil_or_concat records with rfl | ⟨before, last, rfl⟩
  · have hrows : rows = [] := by simpa using h.hashes.symm
    rw [hrows]
    exact ⟨rfl, length_genesisPrevHash⟩
  · rw [List.concat_eq_append] at *
    have hseq : last.seq = before.length + 1 := by
      have hnum := h.numbered
      rw [Numbered, List.length_append, List.length_singleton, List.range'_1_concat,
        List.map_append, List.map_singleton] at hnum
      have hlast := (List.append_inj' hnum rfl).2
      rw [(List.cons.inj hlast).1, Nat.add_comm]
    have hhead : head genesisPrevHash (entries dumpAt rows) = last.selfHash := by
      have hhashes := h.hashes
      rcases List.eq_nil_or_concat rows with rfl | ⟨rows, row, rfl⟩
      · simp at hhashes
      · rw [List.concat_eq_append] at *
        rw [List.map_append, List.map_append] at hhashes
        have hlast := (List.append_inj' hhashes rfl).2
        rw [entries, List.map_append, List.map_singleton, head_concat]
        exact (List.cons.inj hlast).1.symm
    rw [List.getLast?_concat, hhead]
    dsimp only
    rw [hseq, List.length_append, List.length_singleton]
    exact ⟨rfl, h.valid last (List.mem_append_right before List.mem_cons_self)⟩

/-- What an append inserts into a table that is read as `rows`. -/
theorem appendChain_eq_some (h : Stored dumpAt readAt sha256 records rows)
    (hrecord : appendChain dumpAt sha256 records d = some record) :
    ∃ row : AuditLogRow, record = row.record dumpAt (records.length + 1) ∧ row.data = d ∧
      row.prevHash = head genesisPrevHash (entries dumpAt rows) ∧ ValidHash row.prevHash ∧
      row.selfHash = computeSelfHash dumpAt sha256 row := by
  obtain ⟨hlink, hvalid⟩ := h.nextLink_eq
  rw [appendChain, hlink] at hrecord
  dsimp only at hrecord
  rw [if_neg (not_not.mpr hvalid)] at hrecord
  split_ifs at hrecord
  obtain rfl := Option.some.inj hrecord
  exact ⟨_, rfl, rfl, rfl, hvalid, rfl⟩

/-- An append keeps the table readable and linked. -/
theorem Stored.append (h : Stored dumpAt readAt sha256 records rows)
    (hread : ReadsBack dumpAt readAt d.occurredAt)
    (hrecord : appendChain dumpAt sha256 records d = some record) :
    ∃ row, Stored dumpAt readAt sha256 (records ++ [record]) (rows ++ [row]) := by
  obtain ⟨row, rfl, rfl, hprev, hvalid, hself⟩ := appendChain_eq_some h hrecord
  have hhash : ValidHash row.selfHash := by
    rw [hself]
    exact validHash_computeSelfHash row
  obtain ⟨row', hrow, hentry⟩ := readRow_record row hread hvalid hhash (records.length + 1)
  have hselfHash : row'.selfHash = row.selfHash := congrArg Entry.self hentry
  refine ⟨row', ?_, ?_, ?_, ?_, ?_⟩
  · rw [Numbered, List.length_append, List.length_singleton, List.range'_1_concat, List.map_append,
      h.numbered, Nat.add_comm 1]
    rfl
  · rw [List.mapM_append, h.read, List.mapM_cons, List.mapM_nil, hrow]
    rfl
  · rw [List.map_append, List.map_append, h.hashes, List.map_singleton, List.map_singleton,
      hselfHash]
    rfl
  · intro r hr
    rcases List.mem_append.mp hr with hr | hr
    · exact h.valid r hr
    · obtain rfl := List.mem_singleton.mp hr
      exact hhash
  · rw [entries, List.map_append, List.map_singleton, hentry]
    refine linked_concat.mpr ⟨h.linked, hprev, ?_⟩
    rw [← hprev]
    exact link_eq_some_iff.mpr hself

/-- **The log is readable and linked** after every sequence of calls whose timestamps are read
back. -/
theorem auditLog_stored (sha256 : Bytes → Digest) {appends : List AuditAppend}
    (hread : ∀ a ∈ appends, ReadsBack dumpAt readAt a.data.occurredAt) :
    ∃ rows, Stored dumpAt readAt sha256 (auditLog dumpAt sha256 appends) rows := by
  induction appends using List.reverseRecOn with
  | nil => exact ⟨[], stored_nil⟩
  | append_singleton before a ih =>
    obtain ⟨rows, h⟩ := ih fun a ha => hread a (List.mem_append_left _ ha)
    have hstep : auditLog dumpAt sha256 (before ++ [a]) =
        AuditChain.append dumpAt sha256 (auditLog dumpAt sha256 before) a := by
      rw [auditLog, List.foldl_append]
      rfl
    rw [hstep, AuditChain.append]
    split
    · exact ⟨rows, h⟩
    · split
      · exact ⟨rows, h⟩
      · next record hrecord =>
        have ha := hread a (List.mem_append_right _ (List.mem_singleton_self a))
        obtain ⟨row, hrow⟩ := h.append ha hrecord
        exact ⟨_, hrow⟩

/-- **The audit log is tamper-evident.** After every sequence of calls with aware timestamps the
rows are read back and the walk accepts them; and as long as `sha256` neither collides nor gives
the genesis hash on the bytes hashed here, the walk rejects the rows with hashed fields altered,
with rows reordered, with rows inserted before their end and with rows deleted before their end,
and names the first row whose link or hash fails. -/
theorem audit_tamper_evident {dumpAt : Datetime → String} {readAt : String → Option Datetime}
    {sha256 : Bytes → Digest} {appends : List AuditAppend}
    (haware : ∀ a ∈ appends, a.data.occurredAt.utcoffset.isSome)
    (hread : ∀ a ∈ appends, a.data.occurredAt.utcoffset.isSome →
      ReadsBack dumpAt readAt a.data.occurredAt) :
    ∃ rows, allAudit readAt (auditLog dumpAt sha256 appends) = some rows ∧
      verifyChain dumpAt sha256 rows = (true, none) ∧
      ∀ tampered : List AuditLogRow,
        Sound sha256 (hashedBytes dumpAt rows ++ hashedBytes dumpAt tampered) →
        Tampered (entries dumpAt rows) (entries dumpAt tampered) →
        ∃ i, verifyChain dumpAt sha256 tampered = (false, some i) ∧
          FirstBroken dumpAt sha256 genesisPrevHash tampered i := by
  obtain ⟨rows, h⟩ := auditLog_stored sha256 fun a ha => hread a ha (haware a ha)
  refine ⟨rows, ?_, verifyChain_eq_true h.linked, ?_⟩
  · rw [allAudit, orderBySeq_of_numbered h.numbered, h.read]
  · exact fun tampered hsound htampered => verifyChain_detects h.linked hsound htampered

/-! ## A sample log -/

/-- A timestamp in JSON mode, with `Z` for UTC. -/
def renderAt (d : Datetime) : String :=
  if d.utcoffset = some utc then String.ofList ({ d with utcoffset := none }.isoChars ++ ['Z'])
  else d.isoformat

/-- A time in 2025. -/
def sampleAt : Datetime where
  year := 2025
  month := 3
  day := 2
  hour := 4
  minute := 5
  second := 6
  microsecond := 7
  utcoffset := some utc
  year_bound := by decide
  month_bound := by decide
  day_bound := by decide
  hour_bound := by decide
  minute_bound := by decide
  second_bound := by decide
  microsecond_bound := by decide

/-- The column type, on the sample's timestamp. -/
def parseAt (s : String) : Option Datetime :=
  if s = "2025-03-02T04:05:06.000007Z" then some sampleAt else none

/-- `hashlib.sha256` -/
def hashlibSha256 (b : Bytes) : Digest := ⟨Sha256.digest b, Sha256.length_digest b⟩

/-- An audited access. -/
def sampleData (id : Uuid) : AuditRowData where
  id := id
  event := "evidence_access"
  service := "sensor"
  instanceId := "s"
  systemUserId := none
  subjectKind := "evidence"
  subjectId := none
  evidenceRef := none
  traceId := none
  spanId := none
  payload := [("reason", .str "x"), ("n", .int 1)]
  occurredAt := sampleAt

/-- The first call on an empty table. -/
theorem auditLog_one (sha256 : Bytes → Digest) {d : AuditRowData}
    (hread : ReadsBack dumpAt readAt d.occurredAt) :
    ∃ row, allAudit readAt (auditLog dumpAt sha256 [⟨d, false⟩]) = some [row] ∧
      entry dumpAt row = ⟨hashedFields dumpAt d, genesisPrevHash,
        hex (sha256 (canonical (hashedFields dumpAt d) genesisPrevHash)).val⟩ := by
  let row : AuditLogRow := ⟨d, genesisPrevHash, genesisPrevHash⟩
  let hash := computeSelfHash dumpAt sha256 row
  obtain ⟨row', hrow', hentry⟩ := readRow_record ⟨d, genesisPrevHash, hash⟩ hread
    length_genesisPrevHash (validHash_computeSelfHash row) 1
  refine ⟨row', ?_, ?_⟩
  · have happend : appendChain dumpAt sha256 [] d =
        some (AuditLogRow.record dumpAt ⟨d, genesisPrevHash, hash⟩ 1) := by
      simp [appendChain, nextLink, orderBySeq, length_genesisPrevHash, hash, row]
    simp [auditLog, AuditChain.append, happend, allAudit, orderBySeq, hrow']
  · rw [hentry, entry]
    simp only [hash, computeSelfHash, canonicalizeForHash_eq, row]

/-- The bytes that are hashed below: for the first sample row, for the second in its place, and
for the second behind it. -/
def sampleBytes : List Bytes :=
  let first := canonical (hashedFields renderAt (sampleData 1)) genesisPrevHash
  let second := hashedFields renderAt (sampleData 2)
  [first, canonical second genesisPrevHash, canonical second (hex (hashlibSha256 first).val)]

/-- The hashed bytes, character by character. -/
theorem canonical_eq_flatMap (fields : List (String × Json)) (prev : String) :
    canonical fields prev = (Json.text false (.obj (Json.sortItems
      (fields ++ [("prev_hash", .str prev)])))).flatMap String.utf8EncodeChar := by
  rw [canonical, utf8_eq_flatMap, Json.dumps, String.toList_ofList]

/-- The digest of the first sample row. -/
def sampleDigest : Bytes :=
  [90, 207, 40, 119, 115, 103, 216, 125, 34, 30, 137, 221, 200, 190, 102, 199, 241, 43, 195, 148,
   203, 45, 250, 48, 84, 11, 43, 158, 137, 168, 47, 149]

/-- The digest of the first row, and the first bytes of those of the second in its place and behind
it. -/
theorem sample_digests :
    (hashlibSha256 (canonical (hashedFields renderAt (sampleData 1)) genesisPrevHash)).val =
        sampleDigest ∧
      (hashlibSha256 (canonical (hashedFields renderAt (sampleData 2))
        genesisPrevHash)).val.headD 0 = 92 ∧
      (hashlibSha256 (canonical (hashedFields renderAt (sampleData 2))
        (hex sampleDigest))).val.headD 0 = 75 := by
  refine ⟨?_, ?_, ?_⟩
  · rw [canonical_eq_flatMap]
    decide +kernel
  · rw [canonical_eq_flatMap]
    decide +kernel
  · rw [canonical_eq_flatMap]
    decide +kernel

theorem sampleBytes_sound : Sound hashlibSha256 sampleBytes := by
  obtain ⟨hfirst, hsecond, hbehind⟩ := sample_digests
  have hheads : sampleBytes.map (fun b => (hashlibSha256 b).val.headD 0) = [90, 92, 75] := by
    rw [sampleBytes, List.map_cons, List.map_cons, List.map_singleton, hsecond, hfirst, hbehind]
    rfl
  exact Sound.of_heads hheads (by decide) (by decide)

theorem sampleAt_read : ReadsBack renderAt parseAt sampleAt :=
  ⟨sampleAt, by decide, rfl, rfl⟩

theorem sample_fields_ne :
    hashedFields renderAt (sampleData 1) ≠ hashedFields renderAt (sampleData 2) := by
  intro h
  have hid := (hashedFields_eq_iff.mp h).1
  exact absurd hid (by decide)

/-- One call. -/
def sampleAppends : List AuditAppend := [⟨sampleData 1, false⟩]

/-- What is hashed for rows whose entries are known. -/
theorem hashedBytes_singleton {e : Entry (List (String × Json)) String}
    (h : entry dumpAt row = e) :
    hashedBytes dumpAt [row] = [canonical e.content genesisPrevHash] := by
  rw [hashedBytes, entries, List.map_singleton, h]
  rfl

theorem hashedBytes_pair {row' : AuditLogRow} {e e' : Entry (List (String × Json)) String}
    (h : entry dumpAt row = e) (h' : entry dumpAt row' = e') :
    hashedBytes dumpAt [row, row'] =
      [canonical e.content genesisPrevHash, canonical e'.content e.self] := by
  rw [hashedBytes, entries, List.map_cons, List.map_singleton, h, h']
  rfl

/-- A row with another id is located, with the real digest. -/
theorem audit_tamper_evident_sample :
    ∃ row, allAudit parseAt (auditLog renderAt hashlibSha256 sampleAppends) = some [row] ∧
      ∃ i, verifyChain renderAt hashlibSha256 [{ row with data := sampleData 2 }] =
          (false, some i) ∧
        FirstBroken renderAt hashlibSha256 genesisPrevHash
          [{ row with data := sampleData 2 }] i := by
  have haware : ∀ a ∈ sampleAppends, a.data.occurredAt.utcoffset.isSome :=
    List.forall_mem_singleton.mpr rfl
  have hreads : ∀ a ∈ sampleAppends, a.data.occurredAt.utcoffset.isSome →
      ReadsBack renderAt parseAt a.data.occurredAt :=
    List.forall_mem_singleton.mpr fun _ => sampleAt_read
  obtain ⟨row, hrow, hentry⟩ := auditLog_one hashlibSha256 (d := sampleData 1) sampleAt_read
  obtain ⟨rows, hread, -, hdetect⟩ :=
    @audit_tamper_evident renderAt parseAt hashlibSha256 sampleAppends haware hreads
  obtain rfl : [row] = rows := Option.some.inj (hrow.symm.trans hread)
  have hentry' : entry renderAt { row with data := sampleData 2 } =
      ⟨hashedFields renderAt (sampleData 2), row.prevHash, row.selfHash⟩ := rfl
  refine ⟨row, hrow, hdetect _ (sampleBytes_sound.mono ?_) (.altered ?_ ?_)⟩
  · rw [hashedBytes_singleton hentry, hashedBytes_singleton hentry', sampleBytes]
    exact List.cons_subset_cons _ (List.cons_subset_cons _ (List.nil_subset _))
  · rw [entries, entries, List.map_singleton, List.map_singleton, hentry']
    rfl
  · intro heq
    have hcontent := congrArg Entry.content (List.cons.inj heq).1
    rw [hentry, hentry'] at hcontent
    exact sample_fields_ne hcontent.symm

/-- A digest that gives the genesis hash for the second sample row in front, and another one
otherwise. -/
def genesisSha256 (b : Bytes) : Digest :=
  ⟨List.replicate 32 (if b = canonical (hashedFields renderAt (sampleData 2)) genesisPrevHash then 0
    else 1), List.length_replicate⟩

/-- On the two rows it does not collide. -/
theorem genesisSha256_injOn {a b : Bytes}
    (ha : a = canonical (hashedFields renderAt (sampleData 1)) genesisPrevHash ∨
      a = canonical (hashedFields renderAt (sampleData 2)) genesisPrevHash)
    (hb : b = canonical (hashedFields renderAt (sampleData 1)) genesisPrevHash ∨
      b = canonical (hashedFields renderAt (sampleData 2)) genesisPrevHash)
    (h : genesisSha256 a = genesisSha256 b) : a = b := by
  have hne : canonical (hashedFields renderAt (sampleData 1)) genesisPrevHash ≠
      canonical (hashedFields renderAt (sampleData 2)) genesisPrevHash := by
    intro heq
    refine sample_fields_ne (canonical_inj ?_ ?_ heq).1
    · rw [keys_hashedFields, keys_hashedFields]
    · rw [keys_hashedFields]
      decide
  have hhead := congrArg (fun x : Digest => x.val.headD 0) h
  simp only [genesisSha256] at hhead
  rcases ha with ha | ha
  · rcases hb with hb | hb
    · rw [ha, hb]
    · rw [ha, hb, if_neg hne, if_pos rfl] at hhead
      exact absurd hhead (by decide)
  · rcases hb with hb | hb
    · rw [ha, hb, if_pos rfl, if_neg hne] at hhead
      exact absurd hhead (by decide)
    · rw [ha, hb]

/-- Two ways past the walk. A row that is linked by hand behind the last row is accepted, since it
is what an append would write. And a digest that gives the genesis hash for a forged row hides
that it is inserted in front, though it does not collide. -/
theorem forged_row_accepted :
    (∃ row forged,
      allAudit parseAt (auditLog renderAt hashlibSha256 sampleAppends) = some [row] ∧
      Sound hashlibSha256 (hashedBytes renderAt [row] ++ hashedBytes renderAt [row, forged]) ∧
      verifyChain renderAt hashlibSha256 [row, forged] = (true, none)) ∧
    ∃ row forged,
      allAudit parseAt (auditLog renderAt genesisSha256 sampleAppends) = some [row] ∧
      (∀ a ∈ hashedBytes renderAt [row] ++ hashedBytes renderAt [forged, row],
        ∀ b ∈ hashedBytes renderAt [row] ++ hashedBytes renderAt [forged, row],
          genesisSha256 a = genesisSha256 b → a = b) ∧
      verifyChain renderAt genesisSha256 [forged, row] = (true, none) := by
  refine ⟨?_, ?_⟩
  · obtain ⟨row, hrow, hentry⟩ := auditLog_one hashlibSha256 (d := sampleData 1) sampleAt_read
    let second := hashedFields renderAt (sampleData 2)
    let forged : AuditLogRow :=
      ⟨sampleData 2, row.selfHash, hex (hashlibSha256 (canonical second row.selfHash)).val⟩
    have hforged : entry renderAt forged = ⟨second, row.selfHash, forged.selfHash⟩ := rfl
    have hself : row.selfHash = hex (hashlibSha256 (canonical
        (hashedFields renderAt (sampleData 1)) genesisPrevHash)).val := congrArg Entry.self hentry
    refine ⟨row, forged, hrow, sampleBytes_sound.mono ?_, verifyChain_eq_true ?_⟩
    · rw [hashedBytes_singleton hentry, hashedBytes_pair hentry hforged, sampleBytes]
      intro b hb
      simp only [List.cons_append, List.nil_append, List.mem_cons, List.not_mem_nil, or_false]
        at hb ⊢
      rcases hb with hb | hb | hb
      · exact Or.inl hb
      · exact Or.inl hb
      · exact Or.inr (Or.inr hb)
    · rw [entries, List.map_cons, List.map_singleton, hentry, hforged]
      exact ⟨rfl, rfl, hself, by rw [link, ← hself], trivial⟩
  · obtain ⟨row, hrow, hentry⟩ := auditLog_one genesisSha256 (d := sampleData 1) sampleAt_read
    let forged : AuditLogRow := ⟨sampleData 2, genesisPrevHash, genesisPrevHash⟩
    have hforged : entry renderAt forged =
        ⟨hashedFields renderAt (sampleData 2), genesisPrevHash, genesisPrevHash⟩ := rfl
    refine ⟨row, forged, hrow, ?_, verifyChain_eq_true ?_⟩
    · rw [hashedBytes_singleton hentry, hashedBytes_pair hforged hentry]
      have hmem : ∀ a ∈ [canonical (hashedFields renderAt (sampleData 1)) genesisPrevHash] ++
          [canonical (hashedFields renderAt (sampleData 2)) genesisPrevHash,
            canonical (hashedFields renderAt (sampleData 1)) genesisPrevHash],
          a = canonical (hashedFields renderAt (sampleData 1)) genesisPrevHash ∨
            a = canonical (hashedFields renderAt (sampleData 2)) genesisPrevHash := by
        simp
      exact fun a ha b hb => genesisSha256_injOn (hmem a ha) (hmem b hb)
    · rw [entries, List.map_cons, List.map_singleton, hentry, hforged]
      refine ⟨rfl, ?_, rfl, rfl, trivial⟩
      rw [link, genesisSha256]
      simp only [if_true, hex_zero]

end AuditChain

end Eyenet
