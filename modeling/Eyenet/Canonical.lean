import Eyenet.Acknowledgment
import Eyenet.Exoneration
import Eyenet.SigningKeys

/-!
# The byte strings that are signed or hashed

Five builders under `crypto/` write what a signature or a row hash covers: `build_canonical`,
`build_journal_row_canonical`, `build_signing_key_challenge_canonical`,
`build_exoneration_canonical` and `build_anchor_canonical`. Here they take the plain texts and byte
strings of the source, whoever calls them; `eq_request`, `eq_journalRow`, `eq_challenge` and
`eq_exoneration` say what the callers pass.

* `canonical_eq_some` — what each of them writes is one framing of its scheme and its fields.
* `canonical_inj` — equal bytes come from one purpose and the same fields.
-/

namespace Eyenet.Canonical

open Framing

/-- `str` of an integer; it raises beyond 4300 digits. -/
def strInt (n : ℤ) : Option String := if n.natAbs < 10 ^ 4300 then some n.repr else none

theorem strInt_inj {m n : ℤ} {s : String} (hm : strInt m = some s) (hn : strInt n = some s) :
    m = n := by
  rw [strInt] at hm hn
  split at hm
  · split at hn
    · rw [← Int.repr_inj, Option.some.inj hm, Option.some.inj hn]
    · cases hn
  · cases hm

/-! ## The builders -/

/-- `_SIG_SCHEME` -/
def sigScheme : String := "EYENET-SIG-v1"

/-- `build_canonical`; `none` here and below when a field is too long for its length word. -/
def buildCanonical (method url requestId timestamp bodyHash contentHash : String) :
    Option Bytes :=
  frames 4 (utf8 sigScheme :: [method, url, requestId, timestamp, bodyHash, contentHash].map utf8)

/-- The arguments of `build_journal_row_canonical`. -/
structure JournalRowArgs where
  accessId : Bytes
  auditEventId : Bytes
  userId : Bytes
  grantId : Bytes
  contentHash : Bytes
  contentSize : ℤ
  contentMime : String
  tier : String
  servedAt : String
  servedVia : String
  acknowledgmentId : Bytes
  operatorSignature : Bytes
  signingPubkeyFingerprint : String
  deriving DecidableEq

/-- `build_journal_row_canonical` -/
def buildJournalRowCanonical (a : JournalRowArgs) : Option Bytes :=
  (strInt a.contentSize).bind fun contentSize =>
    frames 4 [journalRowScheme, a.accessId, a.auditEventId, a.userId, a.grantId, a.contentHash,
      utf8 contentSize, utf8 a.contentMime, utf8 a.tier, utf8 a.servedAt, utf8 a.servedVia,
      a.acknowledgmentId, a.operatorSignature, utf8 a.signingPubkeyFingerprint]

/-- `build_signing_key_challenge_canonical` -/
def buildSigningKeyChallengeCanonical (nonce : String) (publicKeyBytes : Bytes) : Option Bytes :=
  frames 4 [signingKeyChallengeScheme, utf8 nonce, publicKeyBytes]

/-- The arguments of `build_exoneration_canonical`. -/
structure ExonerationArgs where
  queryKind : String
  contentHash : Bytes
  userId : Bytes
  since : String
  until_ : String
  queryTime : String
  journalHead : Bytes
  accessIds : List Bytes
  deriving DecidableEq

/-- `build_exoneration_canonical` -/
def buildExonerationCanonical (a : ExonerationArgs) : Option Bytes :=
  frames 4 ([exonerationScheme, utf8 a.queryKind, a.contentHash, a.userId, utf8 a.since,
    utf8 a.until_, utf8 a.queryTime, a.journalHead, utf8 (Nat.repr a.accessIds.length)] ++
      a.accessIds)

/-- `_ANCHOR_SCHEME` -/
def anchorScheme : String := "EYENET-ANCHOR-v1"

/-- The arguments of `build_anchor_canonical`. -/
structure AnchorArgs where
  deploymentId : Uuid
  anchorSeq : ℤ
  anchoredAt : String
  auditHead : String
  journalHead : String
  deriving DecidableEq

/-- `build_anchor_canonical` -/
def buildAnchorCanonical (a : AnchorArgs) : Option Bytes :=
  (strInt a.anchorSeq).bind fun anchorSeq =>
    frames 4 [utf8 anchorScheme, uuidBytes a.deploymentId, utf8 anchorSeq, utf8 a.anchoredAt,
      utf8 a.auditHead, utf8 a.journalHead]

/-! ## What the callers pass -/

theorem eq_request (r : AccessRequest) :
    Eyenet.buildCanonical r = buildCanonical r.sigMethod r.sigUrl r.sigRequestId r.sigTimestamp
      r.sigBodyHash (hex r.contentHash) := rfl

/-- The arguments that `_PreparedJournalRow.canonical` passes. -/
def JournalRowArgs.ofPrepared (p : PreparedJournalRow) : JournalRowArgs where
  accessId := uuidBytes p.accessId
  auditEventId := optionUuidBytes p.auditEventId
  userId := uuidBytes p.userId
  grantId := optionUuidBytes p.grantId
  contentHash := p.contentHash
  contentSize := p.contentSize
  contentMime := p.contentMime
  tier := p.tier.name
  servedAt := p.servedAt.isoformat
  servedVia := p.servedVia.name
  acknowledgmentId := optionUuidBytes p.acknowledgmentId
  operatorSignature := p.operatorSignature
  signingPubkeyFingerprint := p.signingPubkeyFingerprint

theorem eq_journalRow {p : PreparedJournalRow} (h : p.contentSize.natAbs < 10 ^ 4300) :
    Eyenet.buildJournalRowCanonical p = buildJournalRowCanonical (.ofPrepared p) := by
  have hsize : strInt (JournalRowArgs.ofPrepared p).contentSize = some p.contentSize.repr := by
    rw [strInt, JournalRowArgs.ofPrepared, if_pos h]
  rw [buildJournalRowCanonical, hsize, Option.bind_some]
  rfl

theorem eq_challenge (nonce : Uuid) (publicKey : Bytes) :
    Eyenet.buildSigningKeyChallengeCanonical nonce publicKey =
      buildSigningKeyChallengeCanonical (uuidText nonce) publicKey := rfl

/-- The arguments that the two exoneration handlers pass. -/
def ExonerationArgs.ofAnswer (e : Exoneration) : ExonerationArgs where
  queryKind := match e.query with
    | .byHash _ => "by_hash"
    | .byUser .. => "by_user"
  contentHash := match e.query with
    | .byHash contentHash => contentHash
    | .byUser .. => []
  userId := match e.query with
    | .byHash _ => []
    | .byUser userId .. => uuidBytes userId
  since := match e.query with
    | .byHash _ => ""
    | .byUser _ since _ => ExonerationQuery.boundText since
  until_ := match e.query with
    | .byHash _ => ""
    | .byUser _ _ until_ => ExonerationQuery.boundText until_
  queryTime := e.queryTime.isoformat
  journalHead := e.journalHead
  accessIds := e.accessIds.map uuidBytes

theorem eq_exoneration (e : Exoneration) :
    Eyenet.buildExonerationCanonical e = buildExonerationCanonical (.ofAnswer e) := by
  rw [Eyenet.buildExonerationCanonical, buildExonerationCanonical]
  obtain ⟨query, queryTime, journalHead, accessIds⟩ := e
  cases query <;> simp [ExonerationArgs.ofAnswer, ExonerationQuery.fields]

/-! ## All five together -/

/-- What is signed or hashed: the purpose and the arguments of its builder. -/
inductive Statement where
  /-- an operator's request for a file, which the acknowledgment flow verifies -/
  | request (method url requestId timestamp bodyHash contentHash : String)
  /-- a row of the file-access journal -/
  | journalRow (a : JournalRowArgs)
  /-- a proof of possession of a signing key -/
  | challenge (nonce : String) (publicKeyBytes : Bytes)
  /-- an exoneration answer -/
  | exoneration (a : ExonerationArgs)
  /-- an anchor of the two chains -/
  | anchor (a : AnchorArgs)
  deriving DecidableEq

namespace Statement

/-- The bytes, as the builder of the purpose writes them. -/
def canonical : Statement → Option Bytes
  | request method url requestId timestamp bodyHash contentHash =>
    buildCanonical method url requestId timestamp bodyHash contentHash
  | journalRow a => buildJournalRowCanonical a
  | challenge nonce publicKeyBytes => buildSigningKeyChallengeCanonical nonce publicKeyBytes
  | exoneration a => buildExonerationCanonical a
  | anchor a => buildAnchorCanonical a

/-- The scheme of the purpose. -/
def scheme : Statement → Bytes
  | request .. => utf8 sigScheme
  | journalRow _ => journalRowScheme
  | challenge .. => signingKeyChallengeScheme
  | exoneration _ => exonerationScheme
  | anchor _ => utf8 anchorScheme

/-- The fields behind the scheme; `none` when a number has too many digits to be printed. -/
def fields : Statement → Option (List Bytes)
  | request method url requestId timestamp bodyHash contentHash =>
    some ([method, url, requestId, timestamp, bodyHash, contentHash].map utf8)
  | journalRow a => (strInt a.contentSize).map fun contentSize =>
    [a.accessId, a.auditEventId, a.userId, a.grantId, a.contentHash, utf8 contentSize,
      utf8 a.contentMime, utf8 a.tier, utf8 a.servedAt, utf8 a.servedVia, a.acknowledgmentId,
      a.operatorSignature, utf8 a.signingPubkeyFingerprint]
  | challenge nonce publicKeyBytes => some [utf8 nonce, publicKeyBytes]
  | exoneration a => some ([utf8 a.queryKind, a.contentHash, a.userId, utf8 a.since,
      utf8 a.until_, utf8 a.queryTime, a.journalHead, utf8 (Nat.repr a.accessIds.length)] ++
        a.accessIds)
  | anchor a => (strInt a.anchorSeq).map fun anchorSeq =>
    [uuidBytes a.deploymentId, utf8 anchorSeq, utf8 a.anchoredAt, utf8 a.auditHead,
      utf8 a.journalHead]

/-- Every field can be written and is shorter than 2 ^ 32 bytes. -/
def Fits (s : Statement) : Prop := ∃ fs, s.fields = some fs ∧ ∀ f ∈ fs, f.length < 2 ^ 32

variable {s t : Statement} {bytes : Bytes}

theorem canonical_eq (s : Statement) :
    s.canonical = s.fields.bind fun fs => frames 4 (s.scheme :: fs) := by
  cases s with
  | request method url requestId timestamp bodyHash contentHash => rfl
  | journalRow a =>
    rw [canonical, buildJournalRowCanonical, fields]
    cases strInt a.contentSize <;> rfl
  | challenge nonce publicKeyBytes => rfl
  | exoneration a => rfl
  | anchor a =>
    rw [canonical, buildAnchorCanonical, fields]
    cases strInt a.anchorSeq <;> rfl

theorem canonical_eq_some :
    s.canonical = some bytes ↔
      ∃ fs, s.fields = some fs ∧ frames 4 (s.scheme :: fs) = some bytes := by
  rw [canonical_eq, Option.bind_eq_some_iff]

/-- The schemes are short. -/
theorem length_scheme_lt (s : Statement) : s.scheme.length < 256 ^ 4 := by
  cases s <;> rw [scheme] <;> decide

theorem Fits.isSome (h : s.Fits) : s.canonical.isSome := by
  obtain ⟨fs, hfs, hlen⟩ := h
  rw [canonical_eq, hfs]
  refine frames_isSome fun f hf => ?_
  rcases List.mem_cons.mp hf with rfl | hf
  · exact length_scheme_lt s
  · exact hlen f hf

/-- Five purposes have five schemes; of one purpose the printed fields determine the arguments. -/
theorem eq_of_fields {fs : List Bytes} (hscheme : s.scheme = t.scheme) (hs : s.fields = some fs)
    (ht : t.fields = some fs) : s = t := by
  cases s <;> cases t <;> first
    | exact absurd hscheme (by rw [scheme, scheme]; decide)
    | skip
  case request.request =>
    have heq := Option.some.inj (hs.trans ht.symm)
    simp only [List.map_cons, List.map_nil, List.cons.injEq, utf8_injective.eq_iff] at heq
    simp [heq]
  case journalRow.journalRow a b =>
    rw [fields, Option.map_eq_some_iff] at hs ht
    obtain ⟨size, hsize, rfl⟩ := hs
    obtain ⟨size', hsize', heq⟩ := ht
    simp only [List.cons.injEq, utf8_injective.eq_iff, and_true] at heq
    obtain ⟨h₁, h₂, h₃, h₄, h₅, rfl, h₇, h₈, h₉, h₁₀, h₁₁, h₁₂, h₁₃⟩ := heq
    have hcontentSize := strInt_inj hsize hsize'
    cases a
    cases b
    simp_all
  case challenge.challenge =>
    have heq := Option.some.inj (hs.trans ht.symm)
    simp only [List.cons.injEq, utf8_injective.eq_iff, and_true] at heq
    simp [heq]
  case exoneration.exoneration a b =>
    have heq := Option.some.inj (hs.trans ht.symm)
    simp only [List.cons_append, List.nil_append, List.cons.injEq, utf8_injective.eq_iff] at heq
    obtain ⟨h₁, h₂, h₃, h₄, h₅, h₆, h₇, -, h₉⟩ := heq
    cases a
    cases b
    simp_all
  case anchor.anchor a b =>
    rw [fields, Option.map_eq_some_iff] at hs ht
    obtain ⟨seq, hseq, rfl⟩ := hs
    obtain ⟨seq', hseq', heq⟩ := ht
    simp only [List.cons.injEq, utf8_injective.eq_iff, uuidBytes_injective.eq_iff,
      and_true] at heq
    obtain ⟨h₁, rfl, h₃, h₄, h₅⟩ := heq
    have hanchorSeq := strInt_inj hseq hseq'
    cases a
    cases b
    simp_all

/-- **One statement for every byte string.** Fields that fit are written; and two statements,
whatever their purposes, have the same bytes only when they are the same statement. -/
theorem canonical_unique (s t : Statement) : (s.Fits → s.canonical.isSome) ∧
    ∀ bytes, s.canonical = some bytes → t.canonical = some bytes → s = t := by
  refine ⟨Fits.isSome, fun bytes hs ht => ?_⟩
  obtain ⟨fs, hfs, hframes⟩ := canonical_eq_some.mp hs
  obtain ⟨fs', hfs', hframes'⟩ := canonical_eq_some.mp ht
  -- every length word tells where its field ends, so the bytes give back scheme and fields
  have heq := frames_injective (by decide) hframes hframes'
  obtain ⟨hscheme, rfl⟩ := List.cons.inj heq
  exact eq_of_fields hscheme hfs hfs'

/-- The empty lists of two users are two statements with different bytes. -/
theorem canonical_unique_sample :
    let a : ExonerationArgs := ⟨"by_user", [], [1], "", "", "", [], []⟩
    (exoneration a).canonical.isSome ∧
      (exoneration a).canonical ≠ (exoneration { a with userId := [2] }).canonical := by
  intro a
  have hfits : (exoneration a).Fits := ⟨_, rfl, by decide⟩
  obtain ⟨hbuilt, hunique⟩ :=
    canonical_unique (exoneration a) (exoneration { a with userId := [2] })
  refine ⟨hbuilt hfits, fun heq => ?_⟩
  obtain ⟨bytes, hbytes⟩ := Option.isSome_iff_exists.mp (hbuilt hfits)
  exact absurd (hunique bytes hbytes (heq ▸ hbytes)) (by decide)

end Statement

end Eyenet.Canonical
