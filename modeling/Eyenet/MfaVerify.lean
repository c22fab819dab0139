import Eyenet.Calls
import Eyenet.Mfa
import Eyenet.RefreshToken

/-!
# Verifications of one challenge in parallel

`POST /auth/login/verify` reads the challenge, counts the failures, reads the credential, and then
either counts a wrong code or consumes the challenge and mints a pair of tokens
(`api_login_verify.py`). Each storage call is one step, so a request acts on a row that may have
changed since it was read. `consume_mfa_challenge` checks the row again in the transaction that
writes it (`sqlmodel_repo/auth.py`).

* `consumed_iff` — what consumption finds and leaves.
* `VerifyRun.Inv` — whoever is past the consumption has spent the challenge alone.
* `VerifyRun.one_pair` — a challenge yields one pair of tokens, in every interleaving.
-/

namespace Eyenet

open Machine

/-! ## Consumption -/

/-- Why `consume_mfa_challenge` raises. -/
inductive ConsumeError where
  | notFound
  | alreadyConsumed
  /-- `ck_mfa_challenge_consumed_after_issued` -/
  | consumedBeforeIssued
  deriving DecidableEq

/-- `consume_mfa_challenge`, with what it checks in its transaction. -/
def consumeChecked (challenges : List MfaChallengeRow) (id : Uuid) (consumedAt : ℤ) :
    Except ConsumeError (List MfaChallengeRow) :=
  match getMfaChallenge challenges id with
  | none => .error .notFound
  | some row =>
    if row.consumedAt.isSome then .error .alreadyConsumed
    else if consumedAt < row.issuedAt then .error .consumedBeforeIssued
    else .ok (consumeMfaChallenge challenges id consumedAt)

/-- The challenge is there and consumed. -/
def Spent (challenges : List MfaChallengeRow) (id : Uuid) : Prop :=
  ∃ row, getMfaChallenge challenges id = some row ∧ row.consumedAt.isSome

section Table

variable {challenges challenges' : List MfaChallengeRow} {id id' : Uuid} {at_ : ℤ}

/-- A change that keeps the identifiers is seen by every lookup. -/
theorem getMfaChallenge_map {f : MfaChallengeRow → MfaChallengeRow}
    (hf : ∀ r, (f r).challengeId = r.challengeId) :
    getMfaChallenge (challenges.map f) id = (getMfaChallenge challenges id).map f := by
  simp only [getMfaChallenge, List.find?_map]
  congr 2
  funext r
  simp only [Function.comp_apply, hf]

/-- What is spent stays spent under a change that keeps the identifiers and takes no consumption
back. -/
theorem Spent.map {f : MfaChallengeRow → MfaChallengeRow} (h : Spent challenges id)
    (hf : ∀ r, (f r).challengeId = r.challengeId)
    (hkeep : ∀ r, r.consumedAt.isSome → (f r).consumedAt.isSome) :
    Spent (challenges.map f) id := by
  obtain ⟨row, hrow, hconsumed⟩ := h
  refine ⟨f row, ?_, hkeep row hconsumed⟩
  rw [getMfaChallenge_map hf, hrow, Option.map_some]

theorem Spent.append (h : Spent challenges id) (rows : List MfaChallengeRow) :
    Spent (challenges ++ rows) id := by
  obtain ⟨row, hrow, hconsumed⟩ := h
  refine ⟨row, ?_, hconsumed⟩
  rw [getMfaChallenge] at hrow ⊢
  rw [List.find?_append, hrow, Option.some_or]

theorem Spent.bump (h : Spent challenges id) :
    Spent (bumpMfaChallengeFailures challenges id') id := by
  apply h.map
  · intro r
    split <;> rfl
  · intro r hr
    split <;> exact hr

theorem Spent.clear {userId : Uuid} {since : ℤ} (h : Spent challenges id) :
    Spent (clearMfaFailures challenges userId since) id := by
  apply h.map
  · intro r
    split <;> rfl
  · intro r hr
    split <;> exact hr

theorem Spent.consume (h : Spent challenges id) :
    Spent (consumeMfaChallenge challenges id' at_) id := by
  apply h.map
  · intro r
    split <;> rfl
  · intro r hr
    split
    · rfl
    · exact hr

/-- **Consumption.** It succeeds on a challenge that is not spent, and spends it. -/
theorem consumed_iff (h : consumeChecked challenges id at_ = .ok challenges') :
    ¬ Spent challenges id ∧ challenges' = consumeMfaChallenge challenges id at_ ∧
      Spent challenges' id := by
  rw [consumeChecked] at h
  split at h
  · cases h
  next row hrow =>
  split at h
  · cases h
  next hfresh =>
  split at h
  · cases h
  cases h
  refine ⟨?_, rfl, ?_⟩
  · rintro ⟨row', hrow', hconsumed⟩
    rw [hrow] at hrow'
    cases hrow'
    exact hfresh hconsumed
  · have hid := (LoginState.getMfaChallenge_mem hrow).2
    refine ⟨{ row with consumedAt := some at_ }, ?_, rfl⟩
    rw [consumeMfaChallenge, getMfaChallenge_map (by intro r; split <;> rfl), hrow,
      Option.map_some, if_pos hid]

end Table

/-! ## Requests -/

/-- Where a request stands. `now` is read at its start; a challenge is as it was read. -/
inductive VerifyPhase where
  | started (id : Uuid) (code : String) (now : ℤ)
  | loaded (challenge : MfaChallengeRow) (code : String) (now : ℤ)
  | admitted (challenge : MfaChallengeRow) (code : String) (now : ℤ)
  | rejected (challenge : MfaChallengeRow) (now : ℤ)
  | accepted (challenge : MfaChallengeRow) (now : ℤ)
  /-- the challenge is consumed and the access token is minted -/
  | consumed (challenge : MfaChallengeRow) (now : ℤ)
  /-- the pair is minted, the login not yet recorded -/
  | paired
  | refused (error : LoginError)
  /-- a storage call raised -/
  | raised
  | answered
  deriving DecidableEq

/-- A pair that was minted: the challenge that it was minted for, and its refresh token. -/
structure MintedPair where
  challengeId : Uuid
  tokenId : Uuid
  deriving DecidableEq

/-- The tables, the requests in progress, and every pair minted so far. -/
structure VerifyRun where
  login : LoginState
  tokens : List RefreshTokenRow
  requests : Calls VerifyPhase
  minted : List MintedPair
  deriving DecidableEq

/-- One storage call of a request, or something else that happens. -/
inductive VerifyStep where
  | request (r : ℕ) (id : Uuid) (code : String)
  /-- `get_mfa_challenge` -/
  | getChallenge (r : ℕ)
  /-- `count_recent_mfa_failures` -/
  | countFailures (r : ℕ)
  /-- `get_credential` -/
  | getCredential (r : ℕ)
  /-- `bump_mfa_challenge_failures` -/
  | bump (r : ℕ)
  /-- `consume_mfa_challenge` -/
  | consume (r : ℕ)
  /-- `create_refresh_token`, with the identifier and the digest that were drawn -/
  | createToken (r : ℕ) (tokenId : Uuid) (hash : String)
  /-- `record_system_user_login` -/
  | recordLogin (r : ℕ)
  /-- a storage call of the request fails, or its worker dies -/
  | fail (r : ℕ)
  /-- a login, or a change of the users, the credentials or the failures -/
  | other (a : LoginStep)
  /-- other requests change the refresh tokens -/
  | setTokens (tokens : List RefreshTokenRow)
  deriving DecidableEq

namespace VerifyRun

/-- Empty tables at some time. -/
def init (clock : ℤ) : VerifyRun := ⟨LoginState.init clock, [], [], []⟩

/-- The request moves on. -/
def put (s : VerifyRun) (r : ℕ) (p : VerifyPhase) : VerifyRun :=
  { s with requests := s.requests.put r p }

section Steps

variable (verifyPassword : String → String → Bool)
variable (decryptSecret : String → Option String)
variable (totpVerify : String → String → ℤ → Bool)

/-- The checks on the challenge as it was read, behind the lockout. -/
def checkChallenge (failures : ℕ) (challenge : MfaChallengeRow) (code : String) (now : ℤ) :
    VerifyPhase :=
  if lockoutThreshold ≤ failures then .refused .mfaLockedOut
  else if challenge.consumedAt.isSome then .refused .mfaChallengeReplayed
  else if challenge.expiresAt < now then .refused .mfaChallengeExpired
  else .admitted challenge code now

/-- The check of the code against the user's credential. -/
def checkCode (login : LoginState) (challenge : MfaChallengeRow) (code : String) (now : ℤ) :
    VerifyPhase :=
  match login.mfaSecret decryptSecret challenge.userId with
  | .error e => .refused e
  | .ok secret =>
    if !LoginState.verifyCode totpVerify secret code now then .rejected challenge now
    else .accepted challenge now

/-- One step of `auth_login_verify`, or of something else. -/
def step (s : VerifyRun) : VerifyStep → Option VerifyRun
  | .request r id code =>
    match s.requests.phase r with
    | none => some (s.put r (.started id code s.login.clock))
    | some _ => none
  | .getChallenge r =>
    match s.requests.phase r with
    | some (.started id code now) =>
      match getMfaChallenge s.login.challenges id with
      | none => some (s.put r (.refused .mfaUnknownChallenge))
      | some challenge => some (s.put r (.loaded challenge code now))
    | _ => none
  | .countFailures r =>
    match s.requests.phase r with
    | some (.loaded challenge code now) =>
      let failures :=
        countRecentMfaFailures s.login.challenges challenge.userId (now - lockoutWindow)
      some (s.put r (checkChallenge failures challenge code now))
    | _ => none
  | .getCredential r =>
    match s.requests.phase r with
    | some (.admitted challenge code now) =>
      some (s.put r (checkCode decryptSecret totpVerify s.login challenge code now))
    | _ => none
  | .bump r =>
    match s.requests.phase r with
    | some (.rejected challenge now) =>
      some { s.put r (.refused .mfaBadCode) with
        login := { s.login with
          challenges := bumpMfaChallengeFailures s.login.challenges challenge.challengeId
          wrongCodes := ⟨challenge.challengeId, challenge.userId, now⟩ :: s.login.wrongCodes } }
    | _ => none
  | .consume r =>
    match s.requests.phase r with
    | some (.accepted challenge now) =>
      match consumeChecked s.login.challenges challenge.challengeId now with
      | .error _ => some (s.put r .raised)
      | .ok challenges =>
        some { s.put r (.consumed challenge now) with login := { s.login with challenges } }
    | _ => none
  | .createToken r tokenId hash =>
    match s.requests.phase r with
    | some (.consumed challenge now) =>
      match createRefreshToken s.tokens tokenId challenge.userId hash now (now + refreshTtl) with
      | none => some (s.put r .raised)
      | some tokens =>
        some { s.put r .paired with
          tokens, minted := s.minted ++ [⟨challenge.challengeId, tokenId⟩] }
    | _ => none
  | .recordLogin r =>
    match s.requests.phase r with
    | some .paired => some (s.put r .answered)
    | _ => none
  | .fail r => some (s.put r .raised)
  | .other a =>
    match a with
    | .verify _ _ => none
    | a =>
      match LoginState.step verifyPassword decryptSecret totpVerify s.login a with
      | none => none
      | some login => some { s with login }
  | .setTokens tokens => some { s with tokens }

end Steps

/-! ## The invariant -/

/-- The request has consumed its challenge and not yet minted the pair. -/
def Holds (s : VerifyRun) (r : ℕ) (id : Uuid) : Prop :=
  ∃ challenge now, s.requests.phase r = some (.consumed challenge now) ∧ challenge.challengeId = id

/-- Whoever is past the consumption has spent the challenge alone. -/
def Inv (s : VerifyRun) : Prop :=
  OneUse s.Holds (Spent s.login.challenges) (s.minted.map MintedPair.challengeId)

section Invariant

variable {verifyPassword : String → String → Bool} {decryptSecret : String → Option String}
variable {totpVerify : String → String → ℤ → Bool} {s s' : VerifyRun}

theorem inv_init (clock : ℤ) : (init clock).Inv := by
  apply OneUse.nil
  rintro r id ⟨challenge, now, hphase, -⟩
  cases hphase

/-- A request that moves to a phase without a consumed challenge gives up what it held. -/
theorem holds_put_iff {r r' : ℕ} {id : Uuid} {p : VerifyPhase}
    (hp : ∀ challenge now, p ≠ .consumed challenge now) :
    (s.put r p).Holds r' id ↔ r' ≠ r ∧ s.Holds r' id := by
  rw [Holds, put, Calls.phase_put]
  split
  · next heq =>
    refine iff_of_false ?_ fun h => h.1 heq
    rintro ⟨challenge, now, hphase, -⟩
    exact hp challenge now (Option.some.inj hphase)
  · next hne => exact (and_iff_right hne).symm

theorem Inv.put {r : ℕ} {p : VerifyPhase} (h : s.Inv)
    (hp : ∀ challenge now, p ≠ .consumed challenge now) : (s.put r p).Inv :=
  OneUse.mono h (fun hold => ((holds_put_iff hp).mp hold).2) id

/-- What is spent is all that the invariant needs of the tables. -/
theorem Inv.setLogin {login : LoginState} (h : s.Inv)
    (hkeep : ∀ {id}, Spent s.login.challenges id → Spent login.challenges id) :
    Inv { s with login } :=
  OneUse.mono h id hkeep

/-- A consumption: nobody else holds the challenge, and no pair was minted for it. -/
theorem Inv.consume {r : ℕ} {challenge : MfaChallengeRow} {now : ℤ}
    {challenges : List MfaChallengeRow} (h : s.Inv)
    (hconsume : consumeChecked s.login.challenges challenge.challengeId now = .ok challenges) :
    Inv { s.put r (.consumed challenge now) with login := { s.login with challenges } } := by
  obtain ⟨hfresh, rfl, hspent⟩ := consumed_iff hconsume
  refine OneUse.take (c := r) h hfresh hspent (fun hspent => hspent.consume) ?_
  rintro r' id ⟨challenge', now', hphase, hid⟩
  rw [VerifyRun.put, Calls.phase_put] at hphase
  split at hphase
  · next heq =>
    cases hphase
    exact Or.inl ⟨heq, hid.symm⟩
  · exact Or.inr ⟨challenge', now', hphase, hid⟩

/-- The pair of a request that holds its challenge: the first for this challenge. -/
theorem Inv.mint {r : ℕ} {challenge : MfaChallengeRow} {now : ℤ} {tokenId : Uuid}
    {tokens : List RefreshTokenRow} (h : s.Inv)
    (hphase : s.requests.phase r = some (.consumed challenge now)) :
    Inv { s.put r .paired with
      tokens, minted := s.minted ++ [⟨challenge.challengeId, tokenId⟩] } := by
  rw [Inv, List.map_append, List.map_singleton]
  exact OneUse.use h ⟨challenge, now, hphase, rfl⟩
    (holds_put_iff fun _ _ => VerifyPhase.noConfusion).mp

/-- A step of the login model leaves what is spent. -/
theorem spent_login {a : LoginStep} {login login' : LoginState} {id : Uuid}
    (hverify : ∀ id code, a ≠ .verify id code)
    (hstep : LoginState.step verifyPassword decryptSecret totpVerify login a = some login')
    (h : Spent login.challenges id) : Spent login'.challenges id := by
  cases a with
  | tick d | putUser user | putCredential credential =>
    cases hstep
    exact h
  | login username password new =>
    simp only [LoginState.step] at hstep
    split at hstep
    · cases hstep
    cases hstep
    simp only [LoginState.authLogin]
    repeat' split
    all_goals first | exact h | exact h.append _
  | verify id code => exact absurd rfl (hverify id code)
  | clear userId since =>
    cases hstep
    exact h.clear

/-- **Step lemma.** Every step of every request keeps the invariant. -/
theorem Inv.step {a : VerifyStep} (h : s.Inv)
    (hstep : step verifyPassword decryptSecret totpVerify s a = some s') : s'.Inv := by
  cases a with
  | request r id code =>
    simp only [VerifyRun.step] at hstep
    split at hstep
    · cases hstep
      exact h.put fun _ _ => VerifyPhase.noConfusion
    · cases hstep
  | getChallenge r =>
    simp only [VerifyRun.step] at hstep
    split at hstep
    · split at hstep <;> cases hstep <;> exact h.put fun _ _ => VerifyPhase.noConfusion
    · cases hstep
  | countFailures r =>
    simp only [VerifyRun.step] at hstep
    split at hstep
    · cases hstep
      refine h.put fun _ _ => ?_
      rw [checkChallenge]
      split_ifs <;> exact VerifyPhase.noConfusion
    · cases hstep
  | getCredential r =>
    simp only [VerifyRun.step] at hstep
    split at hstep
    · cases hstep
      refine h.put fun _ _ => ?_
      rw [checkCode]
      split
      · exact VerifyPhase.noConfusion
      · split_ifs <;> exact VerifyPhase.noConfusion
    · cases hstep
  | bump r =>
    simp only [VerifyRun.step] at hstep
    split at hstep
    · cases hstep
      exact (h.put fun _ _ => VerifyPhase.noConfusion).setLogin fun hspent => hspent.bump
    · cases hstep
  | consume r =>
    simp only [VerifyRun.step] at hstep
    split at hstep
    · split at hstep
      · cases hstep
        exact h.put fun _ _ => VerifyPhase.noConfusion
      · next hconsume =>
        cases hstep
        exact h.consume hconsume
    · cases hstep
  | createToken r tokenId hash =>
    simp only [VerifyRun.step] at hstep
    split at hstep
    · next hphase =>
      split at hstep
      · cases hstep
        exact h.put fun _ _ => VerifyPhase.noConfusion
      · cases hstep
        exact h.mint hphase
    · cases hstep
  | recordLogin r =>
    simp only [VerifyRun.step] at hstep
    split at hstep
    · cases hstep
      exact h.put fun _ _ => VerifyPhase.noConfusion
    · cases hstep
  | fail r =>
    cases hstep
    exact h.put fun _ _ => VerifyPhase.noConfusion
  | other a =>
    simp only [VerifyRun.step] at hstep
    split at hstep
    · cases hstep
    · next hverify =>
      split at hstep
      · cases hstep
      · next login hlogin =>
        cases hstep
        exact h.setLogin fun hspent => spent_login hverify hlogin hspent
  | setTokens tokens =>
    cases hstep
    exact h

end Invariant

/-- **One pair for a challenge.** In every interleaving of verifications with one another, with
logins and with changes of the tables, no challenge ever has two pairs of tokens minted for it. -/
theorem one_pair (verifyPassword : String → String → Bool) (decryptSecret : String → Option String)
    (totpVerify : String → String → ℤ → Bool) (clock : ℤ) (as : List VerifyStep) :
    Throughout (step verifyPassword decryptSecret totpVerify)
      (fun s => (s.minted.map (·.challengeId)).Nodup) (init clock) as := by
  rintro bs - s hrun
  exact (run_preserves (fun h hstep => Inv.step h hstep) (inv_init clock) hrun).nodup

/-- Two requests get through all checks with the same code before either consumes the challenge:
one has its pair, the other raises. -/
example : ∃ s, run (step (fun password hash => password == hash) some
      fun secret code _ => secret == "secret" && code == "123456") (init 0)
      [.other (.putUser ⟨1, "op", true⟩), .other (.putCredential ⟨1, "pw", some "secret"⟩),
        .other (.login "op" "pw" 11), .request 1 11 "123456", .request 2 11 "123456",
        .getChallenge 1, .getChallenge 2, .countFailures 2, .countFailures 1, .getCredential 1,
        .getCredential 2, .consume 2, .consume 1, .createToken 2 21 "h"] = some s ∧
    s.minted = [⟨11, 21⟩] ∧ s.requests.phase 1 = some .raised := by
  decide

end VerifyRun

end Eyenet
