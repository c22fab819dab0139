import Eyenet.Enums
import Eyenet.Machine
import Mathlib.Data.List.Nodup
import Mathlib.Data.List.Perm.Subperm

/-!
# Multi-factor login and its lockout

`POST /auth/login` checks the password and issues a challenge that lives for ninety seconds;
`POST /auth/login/verify` redeems it with a one-time code (`api_login.py`,
`api_login_verify.py`). Wrong codes are counted on the row of their challenge, and the lockout
counts rows (`sqlmodel_repo/auth.py`).

The state remembers every wrong code that no `clear_mfa_failures` has reset, with its time, so
that the rows can be compared with what was really entered.

* `LoginState.Recorded` — the rows and the wrong codes agree.
* `refused_iff` — when an attempt is refused, read off the wrong codes.
* `lockout_iff` — exactly when five wrong codes lock a user out.
* `failedChallenges_le` — nobody is locked out for less.
-/

namespace Eyenet

open Machine

/-! ## Tables -/

/-- A row of `mfa_challenge`; times are instants. -/
structure MfaChallengeRow where
  challengeId : Uuid
  userId : Uuid
  issuedAt : ℤ
  expiresAt : ℤ
  consumedAt : Option ℤ
  failedAttempts : ℕ
  deriving DecidableEq

/-- `MFA_CHALLENGE_TTL`: ninety seconds. -/
def mfaChallengeTtl : ℤ := 90 * 1000000

/-- `_LOCKOUT_THRESHOLD` -/
def lockoutThreshold : ℕ := 5

/-- `_LOCKOUT_WINDOW`: fifteen minutes. -/
def lockoutWindow : ℤ := 15 * 60 * 1000000

/-- The fields of a user that login reads. -/
structure LoginUser where
  id : Uuid
  username : String
  isActive : Bool
  deriving DecidableEq

/-- A row of `system_user_credential`. -/
structure CredentialRow where
  userId : Uuid
  passwordHash : String
  mfaSecretEncrypted : Option String
  deriving DecidableEq

/-- Why a login or a verification answers 401. -/
inductive LoginError where
  | loginFailed
  | mfaUnknownChallenge
  | mfaLockedOut
  | mfaChallengeReplayed
  | mfaChallengeExpired
  | mfaNotEnrolled
  | mfaSecretUnreadable
  | mfaBadCode
  deriving DecidableEq

/-- The reason that `AuthError` carries. -/
def LoginError.reason : LoginError → String
  | loginFailed => "login_failed"
  | mfaUnknownChallenge => "mfa_unknown_challenge"
  | mfaLockedOut => "mfa_locked_out"
  | mfaChallengeReplayed => "mfa_challenge_replayed"
  | mfaChallengeExpired => "mfa_challenge_expired"
  | mfaNotEnrolled => "mfa_not_enrolled"
  | mfaSecretUnreadable => "mfa_secret_unreadable"
  | mfaBadCode => "mfa_bad_code"

/-- What a successful login returns. -/
inductive LoginResponse where
  | tokenPair
  | mfaChallenge (challengeId : Uuid)
  deriving DecidableEq

/-- `get_mfa_challenge` -/
def getMfaChallenge (challenges : List MfaChallengeRow) (id : Uuid) : Option MfaChallengeRow :=
  challenges.find? fun r => r.challengeId == id

/-- `bump_mfa_challenge_failures` -/
def bumpMfaChallengeFailures (challenges : List MfaChallengeRow) (id : Uuid) :
    List MfaChallengeRow :=
  challenges.map fun r =>
    if r.challengeId = id then { r with failedAttempts := r.failedAttempts + 1 } else r

/-- `consume_mfa_challenge` -/
def consumeMfaChallenge (challenges : List MfaChallengeRow) (id : Uuid) (consumedAt : ℤ) :
    List MfaChallengeRow :=
  challenges.map fun r =>
    if r.challengeId = id then { r with consumedAt := some consumedAt } else r

/-- `count_recent_mfa_failures`: how many challenges have a failure, not how many failures. -/
def countRecentMfaFailures (challenges : List MfaChallengeRow) (userId : Uuid) (since : ℤ) : ℕ :=
  challenges.countP fun r =>
    r.userId == userId && decide (since ≤ r.issuedAt) && decide (0 < r.failedAttempts)

/-- `clear_mfa_failures` resets this row. -/
def MfaChallengeRow.clears (userId : Uuid) (since : ℤ) (r : MfaChallengeRow) : Bool :=
  r.userId == userId && decide (since ≤ r.issuedAt) && decide (0 < r.failedAttempts)

/-- `clear_mfa_failures` -/
def clearMfaFailures (challenges : List MfaChallengeRow) (userId : Uuid) (since : ℤ) :
    List MfaChallengeRow :=
  challenges.map fun r => if r.clears userId since then { r with failedAttempts := 0 } else r

/-- A wrong code that was entered. -/
structure WrongCode where
  challengeId : Uuid
  userId : Uuid
  enteredAt : ℤ
  deriving DecidableEq

/-- The tables, and the wrong codes that were not cleared. -/
structure LoginState where
  clock : ℤ
  users : List LoginUser
  credentials : List CredentialRow
  challenges : List MfaChallengeRow
  wrongCodes : List WrongCode
  deriving DecidableEq

/-- One request, or another change to the tables. -/
inductive LoginStep where
  | tick (d : ℕ)
  /-- a user is created or changed -/
  | putUser (user : LoginUser)
  /-- `set_credential`, enrolling or disabling MFA included -/
  | putCredential (credential : CredentialRow)
  /-- `POST /auth/login`; `id` is the identifier of the challenge it may issue -/
  | login (username password : String) (id : Uuid)
  /-- `POST /auth/login/verify` -/
  | verify (id : Uuid) (code : String)
  /-- `clear_mfa_failures` -/
  | clear (userId : Uuid) (since : ℤ)
  deriving DecidableEq

namespace LoginState

/-- Empty tables at some time. -/
def init (clock : ℤ) : LoginState := ⟨clock, [], [], [], []⟩

/-! ## The two requests -/

section Requests

-- argon2 verification, Fernet decryption and the TOTP comparison of pyotp
variable (verifyPassword : String → String → Bool)
variable (decryptSecret : String → Option String)
variable (totpVerify : String → String → ℤ → Bool)

/-- `verify_code`: six ASCII digits that the authenticator accepts. -/
def verifyCode (secret code : String) (now : ℤ) : Bool :=
  if code.length ≠ 6 then false
  else if !code.toList.all Char.isDigit then false
  else totpVerify secret code now

/-- The user's decrypted secret. -/
def mfaSecret (s : LoginState) (userId : Uuid) : Except LoginError String :=
  match s.credentials.find? fun c => c.userId == userId with
  | none => .error .mfaNotEnrolled
  | some c =>
    match c.mfaSecretEncrypted with
    | none => .error .mfaNotEnrolled
    | some encrypted =>
      match decryptSecret encrypted with
      | none => .error .mfaSecretUnreadable
      | some secret => .ok secret

/-- `auth_login`: the answer and the tables after it. -/
def authLogin (s : LoginState) (username password : String) (id : Uuid) :
    Except LoginError LoginResponse × LoginState :=
  match s.users.find? fun u => u.username == username with
  | none => (.error .loginFailed, s)
  | some user =>
    match s.credentials.find? fun c => c.userId == user.id with
    | none => (.error .loginFailed, s)
    | some credential =>
      if !user.isActive then (.error .loginFailed, s)
      else if !verifyPassword password credential.passwordHash then (.error .loginFailed, s)
      else if credential.mfaSecretEncrypted.isSome then
        (.ok (.mfaChallenge id), { s with
          challenges := s.challenges ++
            [⟨id, user.id, s.clock, s.clock + mfaChallengeTtl, none, 0⟩] })
      else (.ok .tokenPair, s)

/-- `auth_login_verify`: the answer and the tables after it. -/
def authLoginVerify (s : LoginState) (id : Uuid) (code : String) :
    Except LoginError Unit × LoginState :=
  match getMfaChallenge s.challenges id with
  | none => (.error .mfaUnknownChallenge, s)
  | some challenge =>
    if lockoutThreshold ≤
        countRecentMfaFailures s.challenges challenge.userId (s.clock - lockoutWindow) then
      (.error .mfaLockedOut, s)
    else if challenge.consumedAt.isSome then (.error .mfaChallengeReplayed, s)
    else if challenge.expiresAt < s.clock then (.error .mfaChallengeExpired, s)
    else match s.mfaSecret decryptSecret challenge.userId with
      | .error e => (.error e, s)
      | .ok secret =>
        if !verifyCode totpVerify secret code s.clock then
          (.error .mfaBadCode, { s with
            challenges := bumpMfaChallengeFailures s.challenges id
            wrongCodes := ⟨id, challenge.userId, s.clock⟩ :: s.wrongCodes })
        else (.ok (), { s with challenges := consumeMfaChallenge s.challenges id s.clock })

/-- One step; an identifier is drawn once. -/
def step (s : LoginState) : LoginStep → Option LoginState
  | .tick d => some { s with clock := s.clock + d }
  | .putUser user => some { s with users := user :: s.users.filter fun u => u.id != user.id }
  | .putCredential credential =>
    some { s with
      credentials := credential :: s.credentials.filter fun c => c.userId != credential.userId }
  | .login username password id =>
    if (getMfaChallenge s.challenges id).isSome then none
    else some (s.authLogin verifyPassword username password id).2
  | .verify id code => some (s.authLoginVerify decryptSecret totpVerify id code).2
  | .clear userId since =>
    some { s with
      challenges := clearMfaFailures s.challenges userId since
      wrongCodes := s.wrongCodes.filter fun w =>
        !s.challenges.any fun r => r.challengeId == w.challengeId && r.clears userId since }

/-! ## What was entered -/

/-- The user's wrong codes of the last fifteen minutes. -/
def recentWrongCodes (s : LoginState) (userId : Uuid) : List WrongCode :=
  s.wrongCodes.filter fun w => w.userId == userId && decide (s.clock - lockoutWindow ≤ w.enteredAt)

/-- The user's challenges of the last fifteen minutes that a wrong code was entered against. -/
def failedChallenges (s : LoginState) (userId : Uuid) : List MfaChallengeRow :=
  s.challenges.filter fun r =>
    r.userId == userId && decide (s.clock - lockoutWindow ≤ r.issuedAt) &&
      s.wrongCodes.any fun w => w.challengeId == r.challengeId

/-- The challenge is spent or stale, or the code is wrong: refused whatever the lockout says. -/
def rejects (s : LoginState) (challenge : MfaChallengeRow) (code : String) : Bool :=
  challenge.consumedAt.isSome || decide (challenge.expiresAt < s.clock) ||
    match s.mfaSecret decryptSecret challenge.userId with
    | .error _ => true
    | .ok secret => !verifyCode totpVerify secret code s.clock

end Requests

/-! ## The invariant -/

/-- The rows and the wrong codes agree. -/
structure Recorded (s : LoginState) : Prop where
  keys : (s.challenges.map (·.challengeId)).Nodup
  counted : ∀ r ∈ s.challenges,
    r.failedAttempts = s.wrongCodes.countP fun w => w.challengeId == r.challengeId
  /-- a wrong code belongs to a challenge of its user, issued before -/
  entered : ∀ w ∈ s.wrongCodes, ∃ r ∈ s.challenges,
    r.challengeId = w.challengeId ∧ r.userId = w.userId ∧ r.issuedAt ≤ w.enteredAt
  issued : ∀ r ∈ s.challenges, r.issuedAt ≤ s.clock

section Invariant

variable {verifyPassword : String → String → Bool} {decryptSecret : String → Option String}
variable {totpVerify : String → String → ℤ → Bool} {s s' : LoginState}

theorem recorded_init (clock : ℤ) : Recorded (init clock) := by
  constructor <;> simp [init]

/-- Two rows with one identifier are one row. -/
theorem Recorded.eq_of_id (h : Recorded s) {r r' : MfaChallengeRow} (hr : r ∈ s.challenges)
    (hr' : r' ∈ s.challenges) (hid : r.challengeId = r'.challengeId) : r = r' :=
  List.inj_on_of_nodup_map h.keys hr hr' hid

theorem getMfaChallenge_mem {challenges : List MfaChallengeRow} {id : Uuid}
    {r : MfaChallengeRow} (h : getMfaChallenge challenges id = some r) :
    r ∈ challenges ∧ r.challengeId = id :=
  ⟨List.mem_of_find?_eq_some h, by simpa using List.find?_some h⟩

/-- A change of the rows that keeps what identifies them and when they were issued. -/
theorem Recorded.mapRows {f : MfaChallengeRow → MfaChallengeRow} {wrongCodes : List WrongCode}
    (h : Recorded s) (hid : ∀ r, (f r).challengeId = r.challengeId)
    (huser : ∀ r, (f r).userId = r.userId) (hissued : ∀ r, (f r).issuedAt = r.issuedAt)
    (hcount : ∀ r ∈ s.challenges,
      (f r).failedAttempts = wrongCodes.countP fun w => w.challengeId == r.challengeId)
    (hentered : ∀ w ∈ wrongCodes, ∃ r ∈ s.challenges,
      r.challengeId = w.challengeId ∧ r.userId = w.userId ∧ r.issuedAt ≤ w.enteredAt) :
    Recorded { s with challenges := s.challenges.map f, wrongCodes } where
  keys := by
    rw [List.map_map, show (fun r : MfaChallengeRow => r.challengeId) ∘ f = (·.challengeId) from
      funext hid]
    exact h.keys
  counted := by
    intro r hr
    obtain ⟨r₀, hr₀, rfl⟩ := List.mem_map.mp hr
    rw [hid r₀]
    exact hcount r₀ hr₀
  entered := by
    intro w hw
    obtain ⟨r, hr, hw₁, hw₂, hw₃⟩ := hentered w hw
    exact ⟨f r, List.mem_map_of_mem hr, (hid r).trans hw₁, (huser r).trans hw₂,
      (hissued r).le.trans hw₃⟩
  issued := by
    intro r hr
    obtain ⟨r₀, hr₀, rfl⟩ := List.mem_map.mp hr
    exact (hissued r₀).le.trans (h.issued r₀ hr₀)

/-- A login issues a challenge without failures. -/
theorem Recorded.login {username password : String} {id : Uuid} (h : Recorded s)
    (hfresh : getMfaChallenge s.challenges id = none) :
    Recorded (s.authLogin verifyPassword username password id).2 := by
  simp only [authLogin]
  split
  · exact h
  split
  · exact h
  next user _ credential _ =>
  split
  · exact h
  split
  · exact h
  split
  · have hnew : ∀ r ∈ s.challenges, r.challengeId ≠ id := by
      simpa [getMfaChallenge] using hfresh
    constructor
    case keys =>
      simp only [List.map_append, List.map_singleton]
      refine h.keys.append (List.nodup_singleton _) ?_
      simp only [List.disjoint_singleton, List.mem_map, not_exists, not_and]
      exact hnew
    case counted =>
      intro r hr
      rcases List.mem_append.mp hr with hr | hr
      · exact h.counted r hr
      · rw [List.mem_singleton] at hr
        subst hr
        refine (List.countP_eq_zero.mpr fun w hw => ?_).symm
        obtain ⟨r, hr, hid, -⟩ := h.entered w hw
        simpa [← hid] using hnew r hr
    case entered =>
      intro w hw
      obtain ⟨r, hr, hrest⟩ := h.entered w hw
      exact ⟨r, List.mem_append_left _ hr, hrest⟩
    case issued =>
      intro r hr
      rcases List.mem_append.mp hr with hr | hr
      · exact h.issued r hr
      · rw [List.mem_singleton] at hr
        subst hr
        exact le_refl _
  · exact h

/-- A verification records a wrong code on its challenge, or none. -/
theorem Recorded.verify {id : Uuid} {code : String} (h : Recorded s) :
    Recorded (s.authLoginVerify decryptSecret totpVerify id code).2 := by
  simp only [authLoginVerify]
  split
  · exact h
  next challenge hfind =>
  split
  · exact h
  split
  · exact h
  split
  · exact h
  split
  · exact h
  obtain ⟨hmem, hid⟩ := getMfaChallenge_mem hfind
  split
  · refine h.mapRows (by intro r; split <;> rfl) (by intro r; split <;> rfl)
      (by intro r; split <;> rfl) (fun r hr => ?_) fun w hw => ?_
    · have hcount := h.counted r hr
      by_cases hr' : r.challengeId = id
      · rw [if_pos hr', List.countP_cons_of_pos (by simp [hr']), ← hcount]
      · rw [if_neg hr', List.countP_cons_of_neg (by simpa using fun h' => hr' h'.symm)]
        exact hcount
    · rcases List.mem_cons.mp hw with rfl | hw
      · exact ⟨challenge, hmem, hid, rfl, h.issued challenge hmem⟩
      · exact h.entered w hw
  · refine h.mapRows (by intro r; split <;> rfl) (by intro r; split <;> rfl)
      (by intro r; split <;> rfl) (fun r hr => ?_) h.entered
    rw [← h.counted r hr]
    split <;> rfl

/-- Clearing resets the rows of the window and forgets their wrong codes. -/
theorem Recorded.clear {userId : Uuid} {since : ℤ} (h : Recorded s) :
    Recorded { s with
      challenges := clearMfaFailures s.challenges userId since
      wrongCodes := s.wrongCodes.filter fun w =>
        !s.challenges.any fun r => r.challengeId == w.challengeId && r.clears userId since } := by
  refine h.mapRows (by intro r; split <;> rfl) (by intro r; split <;> rfl)
    (by intro r; split <;> rfl) (fun r hr => ?_) fun w hw => h.entered w (List.mem_filter.mp hw).1
  rw [List.countP_filter]
  split
  · next hclear =>
    -- the wrong codes of a row that is reset are forgotten
    refine (List.countP_eq_zero.mpr fun w _ hw => ?_).symm
    rw [Bool.and_eq_true, beq_iff_eq, Bool.not_eq_true', List.any_eq_false] at hw
    exact hw.2 r hr (by simp [hw.1, hclear])
  · next hkeep =>
    rw [h.counted r hr]
    refine List.countP_congr fun w _ => ?_
    simp only [Bool.and_eq_true, beq_iff_eq, iff_self_and, Bool.not_eq_true', List.any_eq_false]
    rintro hw r' hr' ⟨hid, hclear⟩
    exact hkeep (h.eq_of_id hr hr' (hw.symm.trans hid.symm) ▸ hclear)

/-- **Step lemma.** Every step keeps the rows and the wrong codes in agreement. -/
theorem Recorded.step {a : LoginStep} (h : Recorded s)
    (hstep : step verifyPassword decryptSecret totpVerify s a = some s') : Recorded s' := by
  cases a with
  | tick d =>
    cases hstep
    exact ⟨h.keys, h.counted, h.entered, fun r hr => (h.issued r hr).trans (by simp)⟩
  | putUser user | putCredential credential =>
    cases hstep
    exact ⟨h.keys, h.counted, h.entered, h.issued⟩
  | login username password id =>
    simp only [LoginState.step] at hstep
    split at hstep
    · cases hstep
    · next hfresh =>
      cases hstep
      exact h.login (by simpa using hfresh)
  | verify id code =>
    cases hstep
    exact h.verify
  | clear userId since =>
    cases hstep
    exact h.clear

/-! ## The lockout -/

/-- What the lockout counts: challenges, by the wrong codes entered against them. -/
theorem Recorded.countRecent_eq (h : Recorded s) (userId : Uuid) :
    countRecentMfaFailures s.challenges userId (s.clock - lockoutWindow) =
      (s.failedChallenges userId).length := by
  rw [countRecentMfaFailures, List.countP_eq_length_filter, failedChallenges]
  congr 1
  refine List.filter_congr fun r hr => ?_
  rw [h.counted r hr]
  congr 1
  rw [Bool.eq_iff_iff, decide_eq_true_iff, List.countP_pos_iff, List.any_eq_true]

/-- An attempt is refused when wrong codes were entered against five challenges of the window, or
when the attempt itself is not acceptable. -/
theorem Recorded.refused_iff (h : Recorded s) {id : Uuid} {code : String}
    {challenge : MfaChallengeRow} (hfind : getMfaChallenge s.challenges id = some challenge) :
    (s.authLoginVerify decryptSecret totpVerify id code).1 ≠ .ok () ↔
      lockoutThreshold ≤ (s.failedChallenges challenge.userId).length ∨
        s.rejects decryptSecret totpVerify challenge code := by
  simp only [authLoginVerify, hfind, rejects]
  rw [h.countRecent_eq]
  by_cases hlock : lockoutThreshold ≤ (s.failedChallenges challenge.userId).length
  · simp [hlock]
  by_cases hconsumed : challenge.consumedAt.isSome
  · simp [hlock, hconsumed]
  by_cases hexpired : challenge.expiresAt < s.clock
  · simp [hlock, hconsumed, hexpired]
  cases hsecret : s.mfaSecret decryptSecret challenge.userId with
  | error e => simp [hlock, hconsumed, hexpired]
  | ok secret =>
    cases hcode : verifyCode totpVerify secret code s.clock <;>
      simp [hlock, hconsumed, hexpired, hcode]

/-- Against every challenge of the window that counts, a wrong code was entered in the window. -/
theorem Recorded.failedChallenges_le (h : Recorded s) (userId : Uuid) :
    (s.failedChallenges userId).length ≤ (s.recentWrongCodes userId).length := by
  have hnodup : ((s.failedChallenges userId).map (·.challengeId)).Nodup :=
    h.keys.sublist (List.filter_sublist.map _)
  have hsub : (s.failedChallenges userId).map (·.challengeId) ⊆
      (s.recentWrongCodes userId).map (·.challengeId) := by
    intro id hid
    obtain ⟨r, hr, rfl⟩ := List.mem_map.mp hid
    simp only [failedChallenges, List.mem_filter, Bool.and_eq_true, beq_iff_eq,
      decide_eq_true_iff, List.any_eq_true] at hr
    obtain ⟨hmem, ⟨huser, hsince⟩, w, hw, hwid⟩ := hr
    obtain ⟨r', hr', hid', huser', hentered⟩ := h.entered w hw
    obtain rfl := h.eq_of_id hmem hr' (hwid.symm.trans hid'.symm)
    refine List.mem_map.mpr ⟨w, ?_, hwid⟩
    simp only [recentWrongCodes, List.mem_filter, Bool.and_eq_true, beq_iff_eq,
      decide_eq_true_iff]
    exact ⟨hw, huser'.symm.trans huser, hsince.trans hentered⟩
  simpa using (List.subperm_of_subset hnodup hsub).length_le

end Invariant

/-! ## Runs -/

section Runs

variable {verifyPassword : String → String → Bool} {decryptSecret : String → Option String}
variable {totpVerify : String → String → ℤ → Bool}

theorem run_recorded {clock : ℤ} {as : List LoginStep} {s : LoginState}
    (hrun : run (step verifyPassword decryptSecret totpVerify) (init clock) as = some s) :
    Recorded s :=
  run_preserves (fun h hs => Recorded.step h hs) (recorded_init clock) hrun

/-- **Lockout.** After any run, five wrong codes of the last fifteen minutes make the next attempt
refused exactly when they were entered against five challenges that were issued in these fifteen
minutes, or when the attempt is not acceptable anyway. -/
theorem lockout_iff {clock : ℤ} {as : List LoginStep} {s : LoginState} {id : Uuid}
    {code : String} {challenge : MfaChallengeRow}
    (hrun : run (step verifyPassword decryptSecret totpVerify) (init clock) as = some s)
    (hfind : getMfaChallenge s.challenges id = some challenge) :
    (5 ≤ (s.recentWrongCodes challenge.userId).length →
        (s.authLoginVerify decryptSecret totpVerify id code).1 ≠ .ok ()) ↔
      (5 ≤ (s.recentWrongCodes challenge.userId).length →
        5 ≤ (s.failedChallenges challenge.userId).length ∨
          s.rejects decryptSecret totpVerify challenge code) :=
  imp_congr_right fun _ => (run_recorded hrun).refused_iff hfind

/-- Nobody is locked out for fewer than five wrong codes of the last fifteen minutes. -/
theorem lockedOut_only {clock : ℤ} {as : List LoginStep} {s : LoginState} {id : Uuid}
    {code : String} {challenge : MfaChallengeRow}
    (hrun : run (step verifyPassword decryptSecret totpVerify) (init clock) as = some s)
    (hfind : getMfaChallenge s.challenges id = some challenge)
    (hfew : (s.recentWrongCodes challenge.userId).length < 5)
    (hok : s.rejects decryptSecret totpVerify challenge code = false) :
    (s.authLoginVerify decryptSecret totpVerify id code).1 = .ok () := by
  by_contra hrefused
  rcases ((run_recorded hrun).refused_iff hfind).mp hrefused with hlock | hrej
  · exact absurd ((run_recorded hrun).failedChallenges_le challenge.userId)
      (by simp only [lockoutThreshold] at hlock; omega)
  · rw [hok] at hrej
    exact absurd hrej Bool.false_ne_true

/-- The user `1` is enrolled and gives the password `n` times; each challenge gets a wrong code. -/
def guessRun (ids : List Uuid) : List LoginStep :=
  [.putUser ⟨1, "op", true⟩, .putCredential ⟨1, "pw", some "secret"⟩] ++
    ids.flatMap fun id => [.login "op" "pw" id, .verify id "000000"]

/-- The step with a plain comparison for each of the outside checks. -/
def sampleStep : LoginState → LoginStep → Option LoginState :=
  step (fun password hash => password == hash) some
    fun secret code _ => secret == "secret" && code == "123456"

theorem lockout_iff_sample :
    ∃ s challenge, run sampleStep (init 0) (guessRun [11, 12, 13, 14, 15]) = some s ∧
      getMfaChallenge s.challenges 15 = some challenge ∧
      ((5 ≤ (s.recentWrongCodes challenge.userId).length →
          (s.authLoginVerify some (fun secret code _ => secret == "secret" && code == "123456") 15
            "123456").1 ≠ .ok ()) ↔
        (5 ≤ (s.recentWrongCodes challenge.userId).length →
          5 ≤ (s.failedChallenges challenge.userId).length ∨
            s.rejects some (fun secret code _ => secret == "secret" && code == "123456")
              challenge "123456")) := by
  obtain ⟨s, hrun, hsome⟩ : ∃ s, run sampleStep (init 0) (guessRun [11, 12, 13, 14, 15]) = some s ∧
      (getMfaChallenge s.challenges 15).isSome := by
    decide
  obtain ⟨challenge, hfind⟩ := Option.isSome_iff_exists.mp hsome
  exact ⟨s, challenge, hrun, hfind, lockout_iff hrun hfind⟩

/-- Five wrong codes against one challenge, and the sixth attempt is let in. -/
theorem guesses_on_one_challenge :
    ∃ s, run sampleStep (init 0) (guessRun [11] ++ [.verify 11 "000001", .verify 11 "000002",
        .verify 11 "000003", .verify 11 "000004"]) = some s ∧
      (s.recentWrongCodes 1).length = 5 ∧
      (s.authLoginVerify some (fun secret code _ => secret == "secret" && code == "123456") 11
        "123456").1 = .ok () := by
  decide

end Runs

end LoginState

end Eyenet
