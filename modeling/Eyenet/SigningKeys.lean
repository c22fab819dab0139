import Eyenet.Acknowledgment
import Eyenet.Calls
import Eyenet.Machine
import Eyenet.Table

/-!
# Registration of signing keys

An operator registers a key by signing a challenge with it. `register_operator_signing_key`
(`_signing_key_registration.py`) checks the key and the proof, consumes the challenge and records
the key; the last two are a transaction each (`sqlmodel_repo/file_access.py`). Recording retires
the active key and inserts the new one, under a uniqueness constraint on the user and the
fingerprint that retired keys count for, too.

* `challenge_inj` — a proof is for one challenge and one key.
* `recordSigningKey_eq_none_iff` — a key that the user has held is refused.
* `KeyRegistry.lawful_iff_unheld` — exactly when every interleaving is right.
-/

namespace Eyenet

open Machine Framing

/-! ## Tables -/

/-- A row of `system_user_signing_pubkey_history`; times are instants. -/
structure SigningPubkeyRow where
  id : Uuid
  userId : Uuid
  verifyingKey : Bytes
  fingerprint : String
  setAt : ℤ
  retiredAt : Option ℤ
  deriving DecidableEq

/-- A row of `signing_key_challenge`. -/
structure SigningKeyChallengeRow where
  nonce : Uuid
  userId : Uuid
  expiresAt : ℤ
  consumedAt : Option ℤ
  deriving DecidableEq

/-- `signing_key_challenge` -/
abbrev ChallengeTable := Table SigningKeyChallengeRow.nonce

/-- `_SIGNING_KEY_CHALLENGE_TTL`: sixty seconds. -/
def signingKeyChallengeTtl : ℤ := 60 * 1000000

/-- `mint_signing_key_challenge`; `none` when the nonce was drawn before. -/
def mintSigningKeyChallenge (challenges : ChallengeTable) (nonce userId : Uuid) (now : ℤ) :
    Option ChallengeTable :=
  challenges.insert ⟨nonce, userId, now + signingKeyChallengeTtl, none⟩

/-- The user can consume the challenge. -/
def Usable (challenges : ChallengeTable) (nonce userId : Uuid) (now : ℤ) : Prop :=
  ∃ row, challenges.get nonce = some row ∧ row.userId = userId ∧ row.consumedAt = none ∧
    now < row.expiresAt

/-- `consume_signing_key_challenge`; `none` when no row is changed. -/
def consumeSigningKeyChallenge (challenges : ChallengeTable) (nonce userId : Uuid) (now : ℤ) :
    Option ChallengeTable :=
  match challenges.get nonce with
  | none => none
  | some row =>
    if row.userId = userId ∧ row.consumedAt = none ∧ now < row.expiresAt then
      some (challenges.put { row with consumedAt := some now })
    else none

/-- The row is the user's active key. -/
def SigningPubkeyRow.active (userId : Uuid) (row : SigningPubkeyRow) : Bool :=
  row.userId == userId && row.retiredAt.isNone

/-- The row as a rotation of the user's key leaves it. -/
def SigningPubkeyRow.retire (userId : Uuid) (now : ℤ) (row : SigningPubkeyRow) :
    SigningPubkeyRow :=
  if row.active userId then { row with retiredAt := some now } else row

/-- The row has this fingerprint for this user. -/
def SigningPubkeyRow.is (userId : Uuid) (fingerprint : String) (row : SigningPubkeyRow) : Bool :=
  row.userId == userId && row.fingerprint == fingerprint

/-- The `ORDER BY` of `active_signing_key_for`: the newest row first. -/
def newestFirst (row row' : SigningPubkeyRow) : Prop :=
  row'.setAt < row.setAt ∨ (row.setAt = row'.setAt ∧ row'.id ≤ row.id)

instance (row row' : SigningPubkeyRow) : Decidable (newestFirst row row') :=
  inferInstanceAs (Decidable (row'.setAt < row.setAt ∨ (row.setAt = row'.setAt ∧
    row'.id ≤ row.id)))

/-- `active_signing_key_for` -/
def activeSigningKeyFor (keys : List SigningPubkeyRow) (userId : Uuid) : Option Bytes :=
  ((keys.filter (·.active userId)).insertionSort newestFirst).head?.map (·.verifyingKey)

section Keys

-- `fingerprint`, of a raw key
variable (fingerprintOf : Bytes → String)

/-- `record_signing_key`; `none` when the user has a row with the fingerprint, retired or not. -/
def recordSigningKey (keys : List SigningPubkeyRow) (id userId : Uuid) (verifyingKey : Bytes)
    (now : ℤ) : Option (List SigningPubkeyRow) :=
  let retired := keys.map (·.retire userId now)
  if retired.any (·.is userId (fingerprintOf verifyingKey)) then none
  else some (retired ++ [⟨id, userId, verifyingKey, fingerprintOf verifyingKey, now, none⟩])

/-- The user has held a key with this fingerprint. -/
def Held (keys : List SigningPubkeyRow) (userId : Uuid) (verifyingKey : Bytes) : Prop :=
  ∃ row ∈ keys, row.is userId (fingerprintOf verifyingKey)

variable {fingerprintOf}
variable {keys keys' : List SigningPubkeyRow} {id u v : Uuid} {key : Bytes} {now : ℤ}

theorem SigningPubkeyRow.retire_is {row : SigningPubkeyRow} {fp : String} :
    (row.retire v now).is u fp = row.is u fp := by
  rw [retire]
  split <;> rfl

/-- A rotation retires the user's active key and nobody else's. -/
theorem SigningPubkeyRow.retire_active {row : SigningPubkeyRow} :
    (row.retire v now).active u = (row.active u && u != v) := by
  rw [retire]
  split
  · next hactive =>
    simp only [active, Bool.and_eq_true, beq_iff_eq] at hactive
    by_cases huv : u = v
    · simp [active, huv]
    · have hne : ¬ row.userId = u := fun h => huv (h.symm.trans hactive.1)
      simp [active, hne]
  · next hactive =>
    by_cases huv : u = v
    · rw [huv, Bool.eq_false_iff.mpr hactive, Bool.false_and]
    · rw [bne_iff_ne.mpr huv, Bool.and_true]

/-- **A key that the user has held is refused.** -/
theorem recordSigningKey_eq_none_iff :
    recordSigningKey fingerprintOf keys id u key now = none ↔ Held fingerprintOf keys u key := by
  simp only [recordSigningKey, Held, List.any_map, List.any_eq_true, Function.comp_apply,
    SigningPubkeyRow.retire_is]
  split
  · next h => exact iff_of_true rfl h
  · next h => exact iff_of_false (Option.some_ne_none _) h

theorem recordSigningKey_eq_some
    (h : recordSigningKey fingerprintOf keys id u key now = some keys') :
    ¬ Held fingerprintOf keys u key ∧ keys' = keys.map (·.retire u now) ++
      [⟨id, u, key, fingerprintOf key, now, none⟩] := by
  refine ⟨?_, ?_⟩
  · intro hheld
    rw [recordSigningKey_eq_none_iff.mpr hheld] at h
    cases h
  · simp only [recordSigningKey] at h
    split at h
    · cases h
    · exact (Option.some.inj h).symm

/-- The active rows after a rotation of the key of `u`. -/
theorem filter_active_record (h : recordSigningKey fingerprintOf keys id u key now = some keys') :
    keys'.filter (·.active v) =
      if v = u then [⟨id, u, key, fingerprintOf key, now, none⟩]
      else keys.filter (·.active v) := by
  obtain ⟨-, rfl⟩ := recordSigningKey_eq_some h
  rw [List.filter_append, List.filter_map]
  split
  · next hv =>
    have hnone : keys.filter ((·.active v) ∘ (·.retire u now)) = [] := by
      refine List.filter_eq_nil_iff.mpr fun row _ => ?_
      rw [Function.comp_apply, SigningPubkeyRow.retire_active, hv, bne_self_eq_false,
        Bool.and_false]
      exact Bool.false_ne_true
    rw [hnone, hv]
    simp [SigningPubkeyRow.active]
  · next hv =>
    have hsame : keys.filter ((·.active v) ∘ (·.retire u now)) = keys.filter (·.active v) := by
      refine List.filter_congr fun row _ => ?_
      rw [Function.comp_apply, SigningPubkeyRow.retire_active, bne_iff_ne.mpr hv, Bool.and_true]
    have hkeep : (keys.filter (·.active v)).map (·.retire u now) = keys.filter (·.active v) := by
      conv_rhs => rw [← List.map_id (keys.filter (·.active v))]
      refine List.map_congr_left fun row hrow => ?_
      have hactive := (List.mem_filter.mp hrow).2
      simp only [SigningPubkeyRow.active, Bool.and_eq_true, beq_iff_eq] at hactive
      rw [SigningPubkeyRow.retire, if_neg, id_eq]
      simp only [SigningPubkeyRow.active, Bool.and_eq_true, beq_iff_eq]
      exact fun h => hv (hactive.1.symm.trans h.1)
    have hnew : ¬ u = v := fun h => hv h.symm
    rw [hsame, hkeep]
    simp [SigningPubkeyRow.active, hnew]

/-- What the constraint is on. -/
def SigningPubkeyRow.owner (row : SigningPubkeyRow) : Uuid × String := (row.userId, row.fingerprint)

/-- The constraint keeps. -/
theorem nodup_owner_record (h : recordSigningKey fingerprintOf keys id u key now = some keys')
    (hkeys : (keys.map SigningPubkeyRow.owner).Nodup) :
    (keys'.map SigningPubkeyRow.owner).Nodup := by
  obtain ⟨hfree, rfl⟩ := recordSigningKey_eq_some h
  have howner : SigningPubkeyRow.owner ∘ (·.retire u now) = SigningPubkeyRow.owner := by
    funext row
    simp only [Function.comp_apply, SigningPubkeyRow.retire]
    split <;> rfl
  rw [List.map_append, List.map_map, howner, List.map_singleton]
  refine hkeys.append (List.nodup_singleton _) (List.disjoint_singleton.mpr fun hmem => ?_)
  obtain ⟨row, hrow, heq⟩ := List.mem_map.mp hmem
  obtain ⟨huser, hfp⟩ := Prod.mk.inj heq
  exact hfree ⟨row, hrow, by simp [SigningPubkeyRow.is, huser, hfp]⟩

/-- What `lookup_key_for_user` gives of a row. -/
def SigningPubkeyRow.signingKey (row : SigningPubkeyRow) : SigningKey :=
  ⟨row.userId, row.fingerprint, row.verifyingKey⟩

/-- Under the constraint every key is found by its user and its fingerprint, retired or not. -/
theorem lookupKeyForUser_of_mem (hkeys : (keys.map SigningPubkeyRow.owner).Nodup)
    {row : SigningPubkeyRow} (hrow : row ∈ keys) :
    lookupKeyForUser (keys.map (·.signingKey)) row.userId row.fingerprint =
      some row.signingKey := by
  rw [lookupKeyForUser, List.find?_map]
  cases hfind : keys.find? ((fun k : SigningKey => k.userId == row.userId &&
      k.fingerprint == row.fingerprint) ∘ (·.signingKey)) with
  | none =>
    have hnone := List.find?_eq_none.mp hfind row hrow
    simp [SigningPubkeyRow.signingKey] at hnone
  | some row' =>
    have hmatch := List.find?_some hfind
    simp only [Function.comp_apply, SigningPubkeyRow.signingKey, Bool.and_eq_true,
      beq_iff_eq] at hmatch
    have heq := List.inj_on_of_nodup_map hkeys (List.mem_of_find?_eq_some hfind) hrow
      (Prod.ext hmatch.1 hmatch.2)
    rw [Option.map_some, heq]

/-- **A rotation** makes the new key the active one. -/
theorem activeSigningKeyFor_record
    (h : recordSigningKey fingerprintOf keys id u key now = some keys') :
    activeSigningKeyFor keys' u = some key := by
  rw [activeSigningKeyFor, filter_active_record h, if_pos rfl]
  rfl

end Keys

/-! ## Proofs of possession -/

/-- `_SIGNING_KEY_CHALLENGE_SCHEME` -/
def signingKeyChallengeScheme : Bytes := utf8 "EYENET-SIGNING-KEY-CHALLENGE-v1"

/-- `build_signing_key_challenge_canonical`; `none` when a field is too long for its frame. -/
def buildSigningKeyChallengeCanonical (nonce : Uuid) (publicKey : Bytes) : Option Bytes :=
  frames 4 [signingKeyChallengeScheme, utf8 (uuidText nonce), publicKey]

/-- A proof is for one challenge and one key: no other pair has the same bytes to sign. -/
theorem challenge_inj {nonce nonce' : Uuid} {key key' canonical : Bytes}
    (h : buildSigningKeyChallengeCanonical nonce key = some canonical)
    (h' : buildSigningKeyChallengeCanonical nonce' key' = some canonical) :
    nonce = nonce' ∧ key = key' := by
  rw [buildSigningKeyChallengeCanonical] at h h'
  have hfields := frames_inj (by simp) h h'
  simp only [List.cons.injEq, and_true, true_and] at hfields
  exact ⟨uuidText_injective (utf8_injective hfields.1), hfields.2⟩

/-! ## Registrations -/

/-- The arguments of `register_operator_signing_key`. -/
structure Registration where
  userId : Uuid
  publicKey : Bytes
  nonce : Uuid
  signature : Bytes
  now : ℤ
  deriving DecidableEq

/-- The `reason` of a `SigningKeyRegistrationError`. -/
inductive RegistrationError where
  | malformedPublicKey
  | proofOfPossessionFailed
  | challengeUnusable
  deriving DecidableEq

/-- Where a registration stands. -/
inductive RegistrationPhase where
  /-- the key and the proof are accepted -/
  | verified (reg : Registration)
  /-- the challenge is consumed -/
  | consumed (reg : Registration)
  | registered (reg : Registration)
  | refused (error : RegistrationError)
  /-- the key could not be recorded -/
  | raised (reg : Registration)
  deriving DecidableEq

/-- The tables, the registrations in progress, and those that succeeded. -/
structure KeyRegistry where
  keys : List SigningPubkeyRow
  challenges : ChallengeTable
  calls : Calls RegistrationPhase
  registrations : List Registration

namespace KeyRegistry

/-- One step of a call; a call that dies takes no further step. -/
inductive Step where
  /-- `mint_signing_key_challenge` -/
  | mint (nonce userId : Uuid) (now : ℤ)
  /-- `register_operator_signing_key` up to its first storage call -/
  | register (r : ℕ) (reg : Registration)
  /-- `consume_signing_key_challenge` -/
  | consume (r : ℕ)
  /-- `record_signing_key` -/
  | record (r : ℕ) (id : Uuid)

/-- Empty tables. -/
def init : KeyRegistry := ⟨[], .empty, [], []⟩

/-- A registration moves on. -/
def put (s : KeyRegistry) (r : ℕ) (p : RegistrationPhase) : KeyRegistry :=
  { s with calls := s.calls.put r p }

section Steps

-- `load_ed25519_public_key`, `verify_signature` and `fingerprint`
variable (loadPublicKey : Bytes → Bool) (verifySignature : Bytes → Bytes → Bytes → Bool)
variable (fingerprintOf : Bytes → String)

/-- The proof of possession verifies against the submitted key. -/
def proves (reg : Registration) : Bool :=
  (buildSigningKeyChallengeCanonical reg.nonce reg.publicKey).any fun canonical =>
    verifySignature reg.publicKey canonical reg.signature

/-- The checks before the first storage call. -/
def verify (reg : Registration) : RegistrationPhase :=
  if !loadPublicKey reg.publicKey then .refused .malformedPublicKey
  else if !proves verifySignature reg then .refused .proofOfPossessionFailed
  else .verified reg

/-- One step; a label that does not fit changes nothing. -/
def step (s : KeyRegistry) : Step → Option KeyRegistry
  | .mint nonce userId now =>
    match mintSigningKeyChallenge s.challenges nonce userId now with
    | none => some s
    | some challenges => some { s with challenges }
  | .register r reg =>
    match s.calls.phase r with
    | none => some (s.put r (verify loadPublicKey verifySignature reg))
    | some _ => some s
  | .consume r =>
    match s.calls.phase r with
    | some (.verified reg) =>
      match consumeSigningKeyChallenge s.challenges reg.nonce reg.userId reg.now with
      | none => some (s.put r (.refused .challengeUnusable))
      | some challenges => some { s.put r (.consumed reg) with challenges }
    | _ => some s
  | .record r id =>
    match s.calls.phase r with
    | some (.consumed reg) =>
      match recordSigningKey fingerprintOf s.keys id reg.userId reg.publicKey reg.now with
      | none => some (s.put r (.raised reg))
      | some keys =>
        some { s.put r (.registered reg) with
          keys, registrations := s.registrations ++ [reg] }
    | _ => some s

/-! ## What registration promises -/

/-- The challenge of the registration is its user's, and was not expired. -/
def Backed (challenges : ChallengeTable) (reg : Registration) : Prop :=
  ∃ row, challenges.get reg.nonce = some row ∧ row.userId = reg.userId ∧ reg.now < row.expiresAt

/-- Every challenge is good for one registration, by its user and in time, and no user has two
active keys. -/
structure Accountable (s : KeyRegistry) : Prop where
  once : (s.registrations.map Registration.nonce).Nodup
  backed : ∀ reg ∈ s.registrations, Backed s.challenges reg
  oneActive : ∀ u, (s.keys.filter (·.active u)).length ≤ 1

/-- Only a registration that succeeds changes anybody's keys; a good key with a good proof is
accepted, a usable challenge is consumed, and then the key becomes the active one. -/
structure Registers (s : KeyRegistry) (a : Step) (s' : KeyRegistry) : Prop where
  keepsHistory : s'.keys = s.keys ∨
    ∃ r id reg, a = .record r id ∧ s'.calls.phase r = some (.registered reg)
  verifies : ∀ r reg, a = .register r reg → s.calls.phase r = none →
    loadPublicKey reg.publicKey → proves verifySignature reg →
      s'.calls.phase r = some (.verified reg)
  consumes : ∀ r reg, a = .consume r → s.calls.phase r = some (.verified reg) →
    Usable s.challenges reg.nonce reg.userId reg.now → s'.calls.phase r = some (.consumed reg)
  activates : ∀ r id reg, a = .record r id → s.calls.phase r = some (.consumed reg) →
    activeSigningKeyFor s'.keys reg.userId = some reg.publicKey

/-- The user has not held a key with this fingerprint, or the key is the active one already. -/
def Unheld (s : KeyRegistry) : Step → Prop
  | .record r _ => ∀ reg, s.calls.phase r = some (.consumed reg) →
    ¬ Held fingerprintOf s.keys reg.userId reg.publicKey ∨
      activeSigningKeyFor s.keys reg.userId = some reg.publicKey
  | _ => True

end Steps

/-! ## The invariant -/

/-- The challenge is there and consumed. -/
def Spent (challenges : ChallengeTable) (nonce : Uuid) : Prop :=
  ∃ row, challenges.get nonce = some row ∧ row.consumedAt.isSome

/-- The call has consumed its challenge and not yet recorded the key. -/
def Holds (s : KeyRegistry) (r : ℕ) (nonce : Uuid) : Prop :=
  ∃ reg, s.calls.phase r = some (.consumed reg) ∧ reg.nonce = nonce

/-- A challenge is spent by whoever registers with it. -/
structure Inv (s : KeyRegistry) : Prop where
  oneUse : OneUse s.Holds (Spent s.challenges) (s.registrations.map Registration.nonce)
  holdsBacked : ∀ {r reg}, s.calls.phase r = some (.consumed reg) → Backed s.challenges reg
  backed : ∀ reg ∈ s.registrations, Backed s.challenges reg
  oneActive : ∀ u, (s.keys.filter (·.active u)).length ≤ 1
  unambiguous : (s.keys.map SigningPubkeyRow.owner).Nodup

section Invariant

variable {loadPublicKey : Bytes → Bool} {verifySignature : Bytes → Bytes → Bytes → Bool}
variable {fingerprintOf : Bytes → String} {s s' : KeyRegistry} {a : Step} {r : ℕ}
variable {challenges challenges' : ChallengeTable} {nonce u : Uuid} {now : ℤ} {reg : Registration}

theorem inv_init : init.Inv where
  oneUse := by
    apply OneUse.nil
    rintro r nonce ⟨reg, hphase, -⟩
    cases hphase
  holdsBacked h := by cases h
  backed reg hreg := absurd hreg List.not_mem_nil
  oneActive _ := Nat.zero_le 1
  unambiguous := List.nodup_nil

theorem Inv.accountable (h : s.Inv) : s.Accountable := ⟨h.oneUse.nodup, h.backed, h.oneActive⟩

/-- Whatever is found under its nonce now has the same user and expiry later, and stays spent. -/
def Extends (challenges challenges' : ChallengeTable) : Prop :=
  ∀ nonce row, challenges.get nonce = some row → ∃ row', challenges'.get nonce = some row' ∧
    row'.userId = row.userId ∧ row'.expiresAt = row.expiresAt ∧
      (row.consumedAt.isSome → row'.consumedAt.isSome)

theorem Spent.extends (h : Spent challenges nonce) (hext : Extends challenges challenges') :
    Spent challenges' nonce := by
  obtain ⟨row, hrow, hconsumed⟩ := h
  obtain ⟨row', hrow', -, -, hkeep⟩ := hext nonce row hrow
  exact ⟨row', hrow', hkeep hconsumed⟩

theorem Backed.extends (h : Backed challenges reg) (hext : Extends challenges challenges') :
    Backed challenges' reg := by
  obtain ⟨row, hrow, huser, hlive⟩ := h
  obtain ⟨row', hrow', huser', hexpires, -⟩ := hext reg.nonce row hrow
  exact ⟨row', hrow', huser'.trans huser, hexpires.symm ▸ hlive⟩

theorem extends_mint (h : mintSigningKeyChallenge challenges nonce u now = some challenges') :
    Extends challenges challenges' := by
  intro n row hrow
  refine ⟨row, ?_, rfl, rfl, id⟩
  obtain ⟨hmem, hkey⟩ := Table.get_eq_some.mp hrow
  exact Table.get_eq_some.mpr ⟨(Table.mem_insert h).mpr (Or.inl hmem), hkey⟩

/-- **Consumption.** It succeeds on a usable challenge, and only there; it spends the challenge
and leaves the others. -/
theorem consumeSigningKeyChallenge_eq_some
    (h : consumeSigningKeyChallenge challenges nonce u now = some challenges') :
    Usable challenges nonce u now ∧ Spent challenges' nonce ∧ Extends challenges challenges' := by
  rw [consumeSigningKeyChallenge] at h
  split at h
  · cases h
  next row hrow =>
  split at h
  · next husable =>
    cases h
    obtain ⟨hmem, hkey⟩ := Table.get_eq_some.mp hrow
    have hget := Table.get_put hmem
      (show { row with consumedAt := some now }.nonce = row.nonce from rfl)
    refine ⟨⟨row, hrow, husable⟩, ⟨_, (hget nonce).trans (if_pos hkey), rfl⟩, ?_⟩
    intro n row' hrow'
    rw [hget n]
    split
    · next hn =>
      rw [← hn, hkey, hrow] at hrow'
      cases hrow'
      exact ⟨_, rfl, rfl, rfl, fun _ => rfl⟩
    · exact ⟨row', hrow', rfl, rfl, id⟩
  · cases h

theorem consumeSigningKeyChallenge_of_usable (h : Usable challenges nonce u now) :
    ∃ challenges', consumeSigningKeyChallenge challenges nonce u now = some challenges' := by
  obtain ⟨row, hrow, husable⟩ := h
  rw [consumeSigningKeyChallenge, hrow]
  exact ⟨_, if_pos husable⟩

theorem not_spent_of_usable (h : Usable challenges nonce u now) : ¬ Spent challenges nonce := by
  obtain ⟨row, hrow, -, hfree, -⟩ := h
  rintro ⟨row', hrow', hconsumed⟩
  rw [hrow] at hrow'
  cases hrow'
  rw [hfree] at hconsumed
  cases hconsumed

/-- A call that moves to a phase without a consumed challenge gives up what it held. -/
theorem holds_put_iff {r' : ℕ} {p : RegistrationPhase} (hp : ∀ reg, p ≠ .consumed reg) :
    (s.put r p).Holds r' nonce ↔ r' ≠ r ∧ s.Holds r' nonce := by
  rw [Holds, put, Calls.phase_put]
  split
  · next heq =>
    refine iff_of_false ?_ fun h => h.1 heq
    rintro ⟨reg, hphase, -⟩
    exact hp reg (Option.some.inj hphase)
  · next hne => exact (and_iff_right hne).symm

theorem Inv.put {p : RegistrationPhase} (h : s.Inv) (hp : ∀ reg, p ≠ .consumed reg) :
    (s.put r p).Inv where
  oneUse := h.oneUse.mono (fun hold => ((holds_put_iff hp).mp hold).2) id
  holdsBacked := by
    intro r' reg hphase
    obtain ⟨-, reg', hphase', -⟩ := (holds_put_iff hp).mp ⟨reg, hphase, rfl⟩
    rw [KeyRegistry.put, Calls.phase_put] at hphase
    split at hphase
    · exact absurd (Option.some.inj hphase) (hp reg)
    · exact h.holdsBacked hphase
  backed := h.backed
  oneActive := h.oneActive
  unambiguous := h.unambiguous

theorem Inv.setChallenges (h : s.Inv) (hext : Extends s.challenges challenges) :
    Inv { s with challenges } where
  oneUse := h.oneUse.mono id fun hspent => hspent.extends hext
  holdsBacked hphase := (h.holdsBacked hphase).extends hext
  backed reg hreg := (h.backed reg hreg).extends hext
  oneActive := h.oneActive
  unambiguous := h.unambiguous

theorem Inv.consume (h : s.Inv)
    (hconsume : consumeSigningKeyChallenge s.challenges reg.nonce reg.userId reg.now =
      some challenges) :
    Inv { s.put r (.consumed reg) with challenges } := by
  obtain ⟨husable, hspent, hext⟩ := consumeSigningKeyChallenge_eq_some hconsume
  have hphase : ∀ {r' reg'}, (s.calls.put r (.consumed reg)).phase r' = some (.consumed reg') →
      (r' = r ∧ reg' = reg) ∨ s.calls.phase r' = some (.consumed reg') := by
    intro r' reg' hphase
    rw [Calls.phase_put] at hphase
    split at hphase
    · next heq =>
      cases hphase
      exact Or.inl ⟨heq, rfl⟩
    · exact Or.inr hphase
  have hbacked : Backed s.challenges reg := by
    obtain ⟨row, hrow, huser, -, hlive⟩ := husable
    exact ⟨row, hrow, huser, hlive⟩
  constructor
  case oneUse =>
    refine OneUse.take (c := r) h.oneUse (not_spent_of_usable husable) hspent
      (fun hs => hs.extends hext) ?_
    rintro r' nonce ⟨reg', hreg', hnonce⟩
    rcases hphase hreg' with ⟨heq, rfl⟩ | hold
    · exact Or.inl ⟨heq, hnonce.symm⟩
    · exact Or.inr ⟨reg', hold, hnonce⟩
  case holdsBacked =>
    intro r' reg' hreg'
    rcases hphase hreg' with ⟨-, rfl⟩ | hold
    · exact hbacked.extends hext
    · exact (h.holdsBacked hold).extends hext
  case backed => exact fun reg' hreg' => (h.backed reg' hreg').extends hext
  case oneActive => exact h.oneActive
  case unambiguous => exact h.unambiguous

theorem Inv.record {keys : List SigningPubkeyRow} {id : Uuid} (h : s.Inv)
    (hphase : s.calls.phase r = some (.consumed reg))
    (hrecord : recordSigningKey fingerprintOf s.keys id reg.userId reg.publicKey reg.now =
      some keys) :
    Inv { s.put r (.registered reg) with keys, registrations := s.registrations ++ [reg] } := by
  have hput : (s.put r (.registered reg)).Inv := h.put fun _ => RegistrationPhase.noConfusion
  constructor
  case oneUse =>
    rw [List.map_append, List.map_singleton]
    exact h.oneUse.use ⟨reg, hphase, rfl⟩
      (holds_put_iff fun _ => RegistrationPhase.noConfusion).mp
  case holdsBacked => exact hput.holdsBacked
  case backed =>
    intro reg' hreg'
    rcases List.mem_append.mp hreg' with hreg' | hreg'
    · exact h.backed reg' hreg'
    · obtain rfl := List.mem_singleton.mp hreg'
      exact h.holdsBacked hphase
  case oneActive =>
    intro u
    rw [filter_active_record hrecord]
    split
    · exact le_refl 1
    · exact h.oneActive u
  case unambiguous => exact nodup_owner_record hrecord h.unambiguous

theorem verify_ne_consumed (reg reg' : Registration) :
    verify loadPublicKey verifySignature reg ≠ .consumed reg' := by
  rw [verify]
  split_ifs <;> exact RegistrationPhase.noConfusion

/-- **Step lemma.** Every step keeps the invariant. -/
theorem Inv.step (h : s.Inv)
    (hstep : step loadPublicKey verifySignature fingerprintOf s a = some s') : s'.Inv := by
  cases a with
  | mint nonce userId now =>
    simp only [KeyRegistry.step] at hstep
    split at hstep <;> cases hstep
    · exact h
    · next hmint => exact h.setChallenges (extends_mint hmint)
  | register r reg =>
    simp only [KeyRegistry.step] at hstep
    split at hstep <;> cases hstep
    · exact h.put (verify_ne_consumed reg)
    · exact h
  | consume r =>
    simp only [KeyRegistry.step] at hstep
    split at hstep
    · split at hstep <;> cases hstep
      · exact h.put fun _ => RegistrationPhase.noConfusion
      · next hconsume => exact h.consume hconsume
    · cases hstep
      exact h
  | record r id =>
    simp only [KeyRegistry.step] at hstep
    split at hstep
    · next hphase =>
      split at hstep <;> cases hstep
      · exact h.put fun _ => RegistrationPhase.noConfusion
      · next hrecord => exact h.record hphase hrecord
    · cases hstep
      exact h

theorem exists_step (s : KeyRegistry) (a : Step) :
    ∃ s', step loadPublicKey verifySignature fingerprintOf s a = some s' := by
  cases a <;> simp only [step] <;> repeat' first | exact ⟨_, rfl⟩ | split

/-- Only recording touches the keys, and only when it succeeds. -/
theorem keeps_history (hstep : step loadPublicKey verifySignature fingerprintOf s a = some s') :
    s'.keys = s.keys ∨
      ∃ r id reg, a = .record r id ∧ s'.calls.phase r = some (.registered reg) := by
  cases a with
  | record r id =>
    simp only [step] at hstep
    split at hstep
    · next reg _ =>
      split at hstep <;> cases hstep
      · exact Or.inl rfl
      · exact Or.inr ⟨r, id, reg, rfl, Calls.phase_put_self⟩
    · cases hstep
      exact Or.inl rfl
  | mint nonce userId now | register r reg =>
    simp only [step] at hstep
    split at hstep <;> cases hstep <;> exact Or.inl rfl
  | consume r =>
    simp only [step] at hstep
    split at hstep
    · split at hstep <;> cases hstep <;> exact Or.inl rfl
    · cases hstep
      exact Or.inl rfl

/-- What recording makes of the user's active key. -/
theorem activates_iff {id : Uuid}
    (hstep : step loadPublicKey verifySignature fingerprintOf s (.record r id) = some s')
    (hphase : s.calls.phase r = some (.consumed reg)) :
    activeSigningKeyFor s'.keys reg.userId = some reg.publicKey ↔
      ¬ Held fingerprintOf s.keys reg.userId reg.publicKey ∨
        activeSigningKeyFor s.keys reg.userId = some reg.publicKey := by
  simp only [step, hphase] at hstep
  split at hstep <;> cases hstep
  · next hrefused =>
    have hheld := recordSigningKey_eq_none_iff.mp hrefused
    exact (or_iff_right fun hfree => hfree hheld).symm
  · next hrecord =>
    exact iff_of_true (activeSigningKeyFor_record hrecord)
      (Or.inl (recordSigningKey_eq_some hrecord).1)

/-- **A step registers** exactly when the key it records is not one that was held before. -/
theorem registers_iff (hstep : step loadPublicKey verifySignature fingerprintOf s a = some s') :
    Registers loadPublicKey verifySignature s a s' ↔ Unheld fingerprintOf s a := by
  refine ⟨?_, ?_⟩
  · intro h
    cases a with
    | record r id =>
      intro reg hphase
      exact (activates_iff hstep hphase).mp (h.activates r id reg rfl hphase)
    | _ => exact trivial
  · intro h
    constructor
    case keepsHistory => exact keeps_history hstep
    case verifies =>
      rintro r reg rfl hphase hload hproof
      simp only [step, hphase, verify, hload, hproof] at hstep
      cases hstep
      exact Calls.phase_put_self
    case consumes =>
      rintro r reg rfl hphase husable
      obtain ⟨challenges, hconsume⟩ := consumeSigningKeyChallenge_of_usable husable
      simp only [step, hphase, hconsume] at hstep
      cases hstep
      exact Calls.phase_put_self
    case activates =>
      rintro r id reg rfl hphase
      exact (activates_iff hstep hphase).mpr (h reg hphase)

end Invariant

/-! ## Runs -/

section Runs

variable (loadPublicKey : Bytes → Bool) (verifySignature : Bytes → Bytes → Bytes → Bool)
variable (fingerprintOf : Bytes → String)

/-- **Registration.** Over every interleaving, each challenge is good for one registration by its
user and in time, no user has two active keys, a failed registration changes nobody's keys, and a
good registration ends with its key active, exactly when no key is recorded that its user has held
before, unless it is the active one. -/
theorem lawful_iff_unheld (as : List Step) :
    Throughout (step loadPublicKey verifySignature fingerprintOf) Accountable init as ∧
        Along (step loadPublicKey verifySignature fingerprintOf)
          (fun s a => ∀ s', step loadPublicKey verifySignature fingerprintOf s a = some s' →
            Registers loadPublicKey verifySignature s a s') init as ↔
      Along (step loadPublicKey verifySignature fingerprintOf) (Unheld fingerprintOf) init as := by
  have haccountable :
      Throughout (step loadPublicKey verifySignature fingerprintOf) Accountable init as :=
    fun bs _ s hrun =>
      (run_preserves (fun h hs => Inv.step h hs) inv_init hrun).accountable
  rw [and_iff_right haccountable]
  refine along_congr fun s a => ?_
  obtain ⟨s', hstep⟩ := exists_step s a
  refine ⟨?_, ?_⟩
  · intro h
    exact (registers_iff hstep).mp (h s' hstep)
  · intro h s'' hstep''
    exact (registers_iff hstep'').mpr h

/-- Every key ever registered is found by its user and its fingerprint. -/
theorem registered_found (as : List Step) :
    Throughout (step loadPublicKey verifySignature fingerprintOf)
      (fun s => ∀ row ∈ s.keys, lookupKeyForUser (s.keys.map (·.signingKey)) row.userId
        row.fingerprint = some row.signingKey) init as := by
  intro bs _ s hrun row hrow
  have hinv : s.Inv := run_preserves (fun h hs => Inv.step h hs) inv_init hrun
  exact lookupKeyForUser_of_mem hinv.unambiguous hrow

end Runs

/-- Keys are accepted, proofs are right and a fingerprint is the key's first byte. -/
def sampleStep : KeyRegistry → Step → Option KeyRegistry :=
  step (fun _ => true) (fun _ _ _ => true) fun key => String.ofList [Char.ofNat (key.headD 0).toNat]

/-- A user goes back to the first of two keys: the registration raises, the challenge is gone, and
the second key stays active. -/
theorem return_to_earlier_key :
    ∃ s, run sampleStep init
        [.mint 1 7 0, .register 1 ⟨7, [65], 1, [], 1⟩, .consume 1, .record 1 11,
          .mint 2 7 2, .register 2 ⟨7, [66], 2, [], 3⟩, .consume 2, .record 2 12,
          .mint 3 7 4, .register 3 ⟨7, [65], 3, [], 5⟩, .consume 3, .record 3 13] = some s ∧
      s.calls.phase 3 = some (.raised ⟨7, [65], 3, [], 5⟩) ∧
      activeSigningKeyFor s.keys 7 = some [66] := by
  decide

end KeyRegistry

end Eyenet
