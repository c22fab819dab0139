import Eyenet.Calls
import Eyenet.Enums
import Eyenet.Machine

/-!
# Refresh-token rotation

`POST /auth/refresh` exchanges a refresh secret for a successor: it reads the token's row, checks
it, inserts the successor and then revokes the old row with a `replaced_by` pointer
(`api_refresh.py`). `POST /auth/logout` reads the row and revokes it (`api_logout.py`). Each
storage call is one step (`sqlmodel_repo/auth.py`), and a run is any interleaving of any number
of requests.

The rows are read in one transaction and revoked unconditionally in another, so a token can be
acted upon after somebody else has used it up.

* `SessionState.Rotation` — what rotation promises: one successor for a secret, simple chains, one
  live token for a login, and nothing live after a logout.
* `SessionState.Unraced` — a request still finds its token as it read it.
* `rotation_iff_unraced` — the promise holds all along a run exactly when its steps are unraced.
-/

namespace Eyenet

open Machine Relation

/-! ## The table -/

/-- A row of `refresh_token`; times are instants. -/
structure RefreshTokenRow where
  tokenId : Uuid
  userId : Uuid
  /-- the digest of the secret -/
  hash : String
  issuedAt : ℤ
  expiresAt : ℤ
  revokedAt : Option ℤ
  replacedBy : Option Uuid
  deriving DecidableEq

/-- `REFRESH_TTL`: thirty days. -/
def refreshTtl : ℤ := 30 * 86400 * 1000000

/-- The row passes the check of `auth_refresh`. -/
def RefreshTokenRow.valid (now : ℤ) (r : RefreshTokenRow) : Bool :=
  r.revokedAt.isNone && decide (now < r.expiresAt)

/-- `create_refresh_token`; the identifier and the digest are unique. -/
def createRefreshToken (tokens : List RefreshTokenRow) (id userId : Uuid) (hash : String)
    (issuedAt expiresAt : ℤ) : Option (List RefreshTokenRow) :=
  if tokens.any fun r => r.tokenId == id || r.hash == hash then none
  else some (tokens ++ [⟨id, userId, hash, issuedAt, expiresAt, none, none⟩])

/-- `get_refresh_token_by_hash` -/
def getRefreshTokenByHash (tokens : List RefreshTokenRow) (hash : String) :
    Option RefreshTokenRow :=
  tokens.find? fun r => r.hash == hash

/-- The row as `revoke_refresh_token` leaves it, whatever it was before. -/
def RefreshTokenRow.revoke (id : Uuid) (revokedAt : ℤ) (replacedBy : Option Uuid)
    (r : RefreshTokenRow) : RefreshTokenRow :=
  if r.tokenId = id then
    { r with revokedAt := some revokedAt, replacedBy := replacedBy.or r.replacedBy }
  else r

/-- `revoke_refresh_token`; `none` when there is no such row, or when the revocation would be
dated before the issue. -/
def revokeRefreshToken (tokens : List RefreshTokenRow) (id : Uuid) (revokedAt : ℤ)
    (replacedBy : Option Uuid) : Option (List RefreshTokenRow) :=
  match tokens.find? fun r => r.tokenId == id with
  | none => none
  | some r =>
    if revokedAt < r.issuedAt then none
    else some (tokens.map (RefreshTokenRow.revoke id revokedAt replacedBy))

section Table

variable {tokens tokens' : List RefreshTokenRow} {id u : Uuid} {hash : String} {at_ t : ℤ}
variable {by_ : Option Uuid} {r : RefreshTokenRow}

theorem createRefreshToken_eq_some
    (h : createRefreshToken tokens id u hash at_ t = some tokens') :
    tokens' = tokens ++ [⟨id, u, hash, at_, t, none, none⟩] ∧
      ∀ r ∈ tokens, r.tokenId ≠ id ∧ r.hash ≠ hash := by
  simp only [createRefreshToken] at h
  split at h
  · cases h
  · next hfresh =>
    refine ⟨(Option.some.inj h).symm, fun r hr => ?_⟩
    simpa [not_or] using fun hbad => hfresh (List.any_eq_true.mpr ⟨r, hr, hbad⟩)

theorem revokeRefreshToken_eq_some (h : revokeRefreshToken tokens id at_ by_ = some tokens') :
    tokens' = tokens.map (RefreshTokenRow.revoke id at_ by_) := by
  simp only [revokeRefreshToken] at h
  split at h
  · cases h
  split at h
  · cases h
  · exact (Option.some.inj h).symm

@[simp] theorem RefreshTokenRow.revoke_tokenId : (r.revoke id at_ by_).tokenId = r.tokenId := by
  simp only [revoke]
  split <;> rfl

@[simp] theorem RefreshTokenRow.revoke_hash : (r.revoke id at_ by_).hash = r.hash := by
  simp only [revoke]
  split <;> rfl

theorem RefreshTokenRow.revoke_self (h : r.tokenId = id) :
    r.revoke id at_ by_ = { r with revokedAt := some at_, replacedBy := by_.or r.replacedBy } :=
  if_pos h

theorem RefreshTokenRow.revoke_of_ne (h : r.tokenId ≠ id) : r.revoke id at_ by_ = r := if_neg h

end Table

/-! ## Requests -/

/-- Where a refresh or a logout stands; `now` is the clock that it read. -/
inductive SessionPhase where
  /-- refresh: the row was read and is valid -/
  | refreshing (existing : RefreshTokenRow) (now : ℤ)
  /-- refresh: the user is active -/
  | userActive (existing : RefreshTokenRow) (now : ℤ)
  /-- refresh: the successor is inserted -/
  | created (existing : RefreshTokenRow) (now : ℤ) (newId : Uuid)
  /-- refresh: the old row is revoked, the successor's secret is returned -/
  | exchanged (existing : RefreshTokenRow) (newId : Uuid)
  /-- logout: authenticated -/
  | loggingOut (userId jti : Uuid) (presented : Option String) (now : ℤ)
  /-- logout: the access token is denylisted -/
  | denied (userId : Uuid) (presented : Option String) (now : ℤ)
  /-- logout: the row was read, is unrevoked and is the user's own -/
  | found (existing : RefreshTokenRow) (now : ℤ)
  /-- logout: done -/
  | loggedOut (revoked : Option Uuid)
  /-- 401 -/
  | failed
  deriving DecidableEq

/-- The row that a request holds a copy of. -/
def SessionPhase.row : SessionPhase → Option RefreshTokenRow
  | refreshing existing _ => some existing
  | userActive existing _ => some existing
  | created existing _ _ => some existing
  | found existing _ => some existing
  | _ => none

/-- The tables and the requests. The last three components only remember: which successor was
minted from which token, the tokens of logins, and the tokens that a logout has revoked. -/
structure SessionState where
  clock : ℤ
  users : List (Uuid × Bool)
  tokens : List RefreshTokenRow
  denylist : List Uuid
  calls : Calls SessionPhase
  minted : List (Uuid × Uuid)
  logins : List Uuid
  loggedOut : List Uuid

/-- One storage call of one request, or the passing of time. -/
inductive SessionStep where
  | tick (d : ℕ)
  /-- a user is created, activated or deactivated -/
  | putUser (u : Uuid) (isActive : Bool)
  /-- `create_refresh_token` of a login -/
  | login (id u : Uuid) (hash : String)
  /-- refresh: `get_refresh_token_by_hash` and the checks -/
  | refresh (c : ℕ) (presented : String)
  /-- refresh: `get_system_user_by_id` -/
  | getUser (c : ℕ)
  /-- refresh: `create_refresh_token` -/
  | create (c : ℕ) (id : Uuid) (hash : String)
  /-- refresh: `revoke_refresh_token` -/
  | revoke (c : ℕ)
  /-- logout: the access token is accepted; a personal access token has no `jti` -/
  | logout (c : ℕ) (u : Uuid) (jti : Option Uuid) (presented : Option String)
  /-- logout: `deny_jwt` -/
  | deny (c : ℕ)
  /-- logout: `get_refresh_token_by_hash`, if a secret is presented -/
  | find (c : ℕ)
  /-- logout: `revoke_refresh_token` -/
  | revokeFound (c : ℕ)
  deriving DecidableEq

namespace SessionState

/-- Empty tables at some time. -/
def init (clock : ℤ) : SessionState := ⟨clock, [], [], [], [], [], [], []⟩

/-- A request moves on. -/
def put (s : SessionState) (c : ℕ) (p : SessionPhase) : SessionState :=
  { s with calls := s.calls.put c p }

/-- One step; `none` where it cannot happen. -/
def step (s : SessionState) : SessionStep → Option SessionState
  | .tick d => some { s with clock := s.clock + d }
  | .putUser u isActive =>
    some { s with users := (u, isActive) :: s.users.filter fun x => x.1 != u }
  | .login id u hash =>
    match createRefreshToken s.tokens id u hash s.clock (s.clock + refreshTtl) with
    | none => none
    | some tokens => some { s with tokens, logins := id :: s.logins }
  | .refresh c presented =>
    match s.calls.phase c with
    | some _ => none
    | none =>
      match getRefreshTokenByHash s.tokens presented with
      | none => some (s.put c .failed)
      | some existing =>
        if existing.valid s.clock then some (s.put c (.refreshing existing s.clock))
        else some (s.put c .failed)
  | .getUser c =>
    match s.calls.phase c with
    | some (.refreshing existing now) =>
      match s.users.lookup existing.userId with
      | some true => some (s.put c (.userActive existing now))
      | _ => some (s.put c .failed)
    | _ => none
  | .create c id hash =>
    match s.calls.phase c with
    | some (.userActive existing now) =>
      match createRefreshToken s.tokens id existing.userId hash now (now + refreshTtl) with
      | none => none
      | some tokens =>
        some { s.put c (.created existing now id) with
          tokens, minted := (existing.tokenId, id) :: s.minted }
    | _ => none
  | .revoke c =>
    match s.calls.phase c with
    | some (.created existing now id) =>
      match revokeRefreshToken s.tokens existing.tokenId now (some id) with
      | none => none
      | some tokens => some { s.put c (.exchanged existing id) with tokens }
    | _ => none
  | .logout c u jti presented =>
    match s.calls.phase c, jti with
    | none, none => some (s.put c .failed)
    | none, some jti =>
      if jti ∈ s.denylist then some (s.put c .failed)
      else some (s.put c (.loggingOut u jti presented s.clock))
    | some _, _ => none
  | .deny c =>
    match s.calls.phase c with
    | some (.loggingOut u jti presented now) =>
      some { s.put c (.denied u presented now) with denylist := s.denylist.insert jti }
    | _ => none
  | .find c =>
    match s.calls.phase c with
    | some (.denied _ none _) => some (s.put c (.loggedOut none))
    | some (.denied u (some presented) now) =>
      match getRefreshTokenByHash s.tokens presented with
      | none => some (s.put c (.loggedOut none))
      | some existing =>
        if existing.revokedAt = none ∧ existing.userId = u then
          some (s.put c (.found existing now))
        else some (s.put c (.loggedOut none))
    | _ => none
  | .revokeFound c =>
    match s.calls.phase c with
    | some (.found existing now) =>
      match revokeRefreshToken s.tokens existing.tokenId now none with
      | none => none
      | some tokens =>
        some { s.put c (.loggedOut (some existing.tokenId)) with
          tokens, loggedOut := existing.tokenId :: s.loggedOut }
    | _ => none

/-! ## What rotation promises -/

/-- `n` was minted from `t`. -/
def Succeeds (s : SessionState) (t n : Uuid) : Prop := (t, n) ∈ s.minted

/-- The row of `t` points to `n`. -/
def Points (s : SessionState) (t n : Uuid) : Prop :=
  ∃ r ∈ s.tokens, r.tokenId = t ∧ r.replacedBy = some n

/-- A secret, by its digest, was exchanged for `n`. -/
def Exchanged (s : SessionState) (hash : String) (n : Uuid) : Prop :=
  ∃ r ∈ s.tokens, r.hash = hash ∧ s.Succeeds r.tokenId n

instance (s : SessionState) (t n : Uuid) : Decidable (s.Succeeds t n) :=
  inferInstanceAs (Decidable ((t, n) ∈ s.minted))

instance (s : SessionState) (hash : String) (n : Uuid) : Decidable (s.Exchanged hash n) :=
  inferInstanceAs (Decidable (∃ r ∈ s.tokens, r.hash = hash ∧ s.Succeeds r.tokenId n))

/-- A refresh has inserted the successor of `t` and is about to revoke `t`. -/
def Rotating (s : SessionState) (t : Uuid) : Prop :=
  ∃ c existing now n, s.calls.phase c = some (.created existing now n) ∧ existing.tokenId = t

/-- The promise of rotation. -/
structure Rotation (s : SessionState) : Prop where
  /-- a secret is exchanged for at most one successor -/
  once : ∀ {hash n n'}, s.Exchanged hash n → s.Exchanged hash n' → n = n'
  /-- the `replaced_by` pointers form simple chains -/
  chains : SimpleChains s.Points
  /-- a login has at most one unrevoked token, besides those that are just being replaced -/
  oneLive : ∀ {l a b}, l ∈ s.logins → a ∈ s.tokens → b ∈ s.tokens →
    ReflTransGen s.Succeeds l a.tokenId → ReflTransGen s.Succeeds l b.tokenId →
    a.revokedAt = none → b.revokedAt = none →
    ¬ s.Rotating a.tokenId → ¬ s.Rotating b.tokenId → a = b
  /-- what descends from a token that a logout revoked is revoked -/
  loggedOut : ∀ {t r}, t ∈ s.loggedOut → r ∈ s.tokens → TransGen s.Succeeds t r.tokenId →
    r.revokedAt ≠ none

/-- A request finds its token as it read it: a refresh that mints a successor finds the token
still unrevoked and without a successor, and a logout that revokes finds no unrevoked descendant
of its token. -/
def Unraced (s : SessionState) : SessionStep → Prop
  | .create c _ _ =>
    ∀ existing now, s.calls.phase c = some (.userActive existing now) →
      (∀ r ∈ s.tokens, r.tokenId = existing.tokenId → r.revokedAt = none) ∧
        ∀ n, ¬ s.Succeeds existing.tokenId n
  | .revokeFound c =>
    ∀ existing now, s.calls.phase c = some (.found existing now) →
      ∀ r ∈ s.tokens, TransGen s.Succeeds existing.tokenId r.tokenId → r.revokedAt ≠ none
  | _ => True

/-! ## The invariant -/

/-- The token has a row. -/
def Known (s : SessionState) (t : Uuid) : Prop := ∃ r ∈ s.tokens, r.tokenId = t

/-- Rotation, with what the steps of a request rely on. -/
structure Sound (s : SessionState) : Prop where
  /-- the identifier and the digest of a row are its own -/
  keys : ∀ a ∈ s.tokens, ∀ b ∈ s.tokens, a.tokenId = b.tokenId ∨ a.hash = b.hash → a = b
  lineage : SimpleChains s.Succeeds
  known : ∀ {t n}, s.Succeeds t n → s.Known t ∧ s.Known n
  points : ∀ {t n}, s.Points t n → s.Succeeds t n
  /-- a request holds a copy of a row that exists -/
  held : ∀ {c p x}, s.calls.phase c = some p → p.row = some x → s.Known x.tokenId
  created : ∀ {c x now n}, s.calls.phase c = some (.created x now n) → s.Succeeds x.tokenId n
  /-- an unrevoked token with a successor is being replaced -/
  rotating : ∀ {r n}, r ∈ s.tokens → r.revokedAt = none → s.Succeeds r.tokenId n →
    s.Rotating r.tokenId
  /-- a token is revoked by a refresh or by a logout -/
  revoked : ∀ {r}, r ∈ s.tokens → r.revokedAt ≠ none →
    (∃ n, s.Succeeds r.tokenId n) ∨ r.tokenId ∈ s.loggedOut
  loggedOutKnown : ∀ {t}, t ∈ s.loggedOut → s.Known t
  /-- a token that a logout has revoked is revoked, with all that descends from it -/
  loggedOut : ∀ {t r}, t ∈ s.loggedOut → r ∈ s.tokens →
    ReflTransGen s.Succeeds t r.tokenId → r.revokedAt ≠ none

section Invariant

variable {s s' : SessionState} {c : ℕ} {t n : Uuid}

theorem sound_init (clock : ℤ) : Sound (init clock) where
  keys := by simp [init]
  lineage := SimpleChains.empty.mono (by simp [init, Succeeds])
  known := by simp [init, Succeeds]
  points := by simp [init, Points]
  held := by simp [init]
  created := by simp [init]
  rotating := by simp [init]
  revoked := by simp [init]
  loggedOutKnown := by simp [init]
  loggedOut := by simp [init]

/-- The invariant contains the promise. -/
theorem Sound.rotation (h : Sound s) : Rotation s where
  once := by
    rintro hash n n' ⟨r, hr, hhash, hn⟩ ⟨r', hr', hhash', hn'⟩
    obtain rfl := h.keys r hr r' hr' (.inr (hhash.trans hhash'.symm))
    exact h.lineage.functional hn hn'
  chains := h.lineage.mono fun _ _ => h.points
  oneLive := by
    intro l a b _ ha hb hla hlb hna hnb hra hrb
    -- an unrevoked token that is not being replaced is the end of its chain
    have hend : a.tokenId = b.tokenId :=
      h.lineage.end_unique hla hlb (fun n hn => hra (h.rotating ha hna hn))
        (fun n hn => hrb (h.rotating hb hnb hn))
    exact h.keys a ha b hb (.inl hend)
  loggedOut := fun ht hr hdesc => h.loggedOut ht hr hdesc.to_reflTransGen

/-- A request moves on without touching the tables. -/
theorem Sound.put {p : SessionPhase} (h : Sound s)
    (hp : ∀ x now n, p ≠ .created x now n) (hx : ∀ x, p.row = some x → s.Known x.tokenId)
    (hold : ∀ x now n, s.calls.phase c ≠ some (.created x now n)) : Sound (s.put c p) where
  keys := h.keys
  lineage := h.lineage
  known := h.known
  points := h.points
  held := by
    intro c' q x hq hrow
    simp only [SessionState.put, Calls.phase_put] at hq
    split at hq
    · cases hq
      exact hx x hrow
    · exact h.held hq hrow
  created := by
    intro c' x now n hq
    simp only [SessionState.put, Calls.phase_put] at hq
    split at hq
    · exact absurd (Option.some.inj hq) (hp x now n)
    · exact h.created hq
  rotating := by
    intro r n hr hnone hn
    obtain ⟨c', x, now, m, hphase, hid⟩ := h.rotating hr hnone hn
    have hne : c' ≠ c := by
      rintro rfl
      exact hold x now m hphase
    exact ⟨c', x, now, m, (Calls.phase_put_of_ne hne).trans hphase, hid⟩
  revoked := h.revoked
  loggedOutKnown := h.loggedOutKnown
  loggedOut := h.loggedOut

/-- A request moves to where it holds no row. -/
theorem Sound.put_idle {p : SessionPhase} (h : Sound s) (hp : p.row = none)
    (hold : ∀ x now n, s.calls.phase c ≠ some (.created x now n)) : Sound (s.put c p) := by
  refine h.put ?_ ?_ hold
  · rintro x now n rfl
    cases hp
  · intro x hx
    cases hp.symm.trans hx

/-- A login's token is the beginning of a chain. -/
theorem Sound.login {id u : Uuid} {hash : String} {t₀ t₁ : ℤ} {tokens : List RefreshTokenRow}
    (h : Sound s) (hc : createRefreshToken s.tokens id u hash t₀ t₁ = some tokens) :
    Sound { s with tokens, logins := id :: s.logins } := by
  obtain ⟨rfl, hfresh⟩ := createRefreshToken_eq_some hc
  have hnew : ¬ s.Known id := fun ⟨r, hr, hid⟩ => (hfresh r hr).1 hid
  have hknown : ∀ {t}, s.Known t → Known { s with
      tokens := s.tokens ++ [⟨id, u, hash, t₀, t₁, none, none⟩], logins := id :: s.logins } t :=
    fun ⟨r, hr, hid⟩ => ⟨r, List.mem_append_left _ hr, hid⟩
  have hmem : ∀ {r}, r ∈ s.tokens ++ [⟨id, u, hash, t₀, t₁, none, none⟩] →
      r ∈ s.tokens ∨ r = ⟨id, u, hash, t₀, t₁, none, none⟩ := by
    simp
  constructor
  case keys =>
    intro a ha b hb hab
    rcases hmem ha with ha | rfl <;> rcases hmem hb with hb | rfl
    · exact h.keys a ha b hb hab
    · exact absurd hab (not_or.mpr (hfresh a ha))
    · exact absurd (hab.imp Eq.symm Eq.symm) (not_or.mpr (hfresh b hb))
    · rfl
  case lineage => exact h.lineage
  case known => exact fun hn => ⟨hknown (h.known hn).1, hknown (h.known hn).2⟩
  case points =>
    rintro t n ⟨r, hr, hid, hpoint⟩
    rcases hmem hr with hr | rfl
    · exact h.points ⟨r, hr, hid, hpoint⟩
    · cases hpoint
  case held => exact fun hp hx => hknown (h.held hp hx)
  case created => exact h.created
  case rotating =>
    intro r n hr hnone hn
    rcases hmem hr with hr | rfl
    · exact h.rotating hr hnone hn
    · exact absurd (h.known hn).1 hnew
  case revoked =>
    intro r hr hrev
    rcases hmem hr with hr | rfl
    · exact h.revoked hr hrev
    · exact absurd rfl hrev
  case loggedOutKnown => exact fun ht => hknown (h.loggedOutKnown ht)
  case loggedOut =>
    intro t r ht hr hdesc
    rcases hmem hr with hr | rfl
    · exact h.loggedOut ht hr hdesc
    · -- nothing leads to the fresh token
      rcases ReflTransGen.cases_tail hdesc with heq | ⟨m, -, hm⟩
      · exact absurd ((show id = t from heq) ▸ h.loggedOutKnown ht) hnew
      · exact absurd (h.known hm).2 hnew

/-- A successor is minted from an unrevoked token that has none. -/
theorem Sound.create {id : Uuid} {hash : String} {existing : RefreshTokenRow} {now t₁ : ℤ}
    {tokens : List RefreshTokenRow} (h : Sound s)
    (hphase : s.calls.phase c = some (.userActive existing now))
    (hlive : ∀ r ∈ s.tokens, r.tokenId = existing.tokenId → r.revokedAt = none)
    (hend : ∀ n, ¬ s.Succeeds existing.tokenId n)
    (hc : createRefreshToken s.tokens id existing.userId hash now t₁ = some tokens) :
    Sound { s.put c (.created existing now id) with
      tokens, minted := (existing.tokenId, id) :: s.minted } := by
  obtain ⟨rfl, hfresh⟩ := createRefreshToken_eq_some hc
  have hnew : ¬ s.Known id := fun ⟨r, hr, hid⟩ => (hfresh r hr).1 hid
  have hold : s.Known existing.tokenId := h.held hphase rfl
  set row : RefreshTokenRow := ⟨id, existing.userId, hash, now, t₁, none, none⟩ with hrow
  set s' : SessionState := { s.put c (.created existing now id) with
    tokens := s.tokens ++ [row], minted := (existing.tokenId, id) :: s.minted } with hs'
  have hknown : ∀ {t}, s.Known t → s'.Known t :=
    fun ⟨r, hr, hid⟩ => ⟨r, List.mem_append_left _ hr, hid⟩
  have hmem : ∀ {r}, r ∈ s'.tokens → r ∈ s.tokens ∨ r = row := by
    simp [hs']
  have hsucc : ∀ {t n}, s'.Succeeds t n ↔ s.Succeeds t n ∨ (t = existing.tokenId ∧ n = id) := by
    intro t n
    simp [Succeeds, hs', or_comm]
  have hfromNew : ∀ n, ¬ s'.Succeeds id n := by
    intro n hn
    rcases hsucc.mp hn with hn | ⟨heq, -⟩
    · exact hnew (h.known hn).1
    · exact hnew (heq ▸ hold)
  -- a path to an old token is an old path
  have hpath : ∀ {t n}, ReflTransGen s'.Succeeds t n → n ≠ id → ReflTransGen s.Succeeds t n := by
    intro t n hp
    induction hp with
    | refl => exact fun _ => .refl
    | tail _ hbc ih =>
      intro hne
      rcases hsucc.mp hbc with hbc' | ⟨-, heq⟩
      · exact (ih fun heq => hfromNew _ (heq ▸ hbc)).tail hbc'
      · exact absurd heq hne
  constructor
  case keys =>
    intro a ha b hb hab
    rcases hmem ha with ha | rfl <;> rcases hmem hb with hb | rfl
    · exact h.keys a ha b hb hab
    · exact absurd hab (not_or.mpr (hfresh a ha))
    · exact absurd (hab.imp Eq.symm Eq.symm) (not_or.mpr (hfresh b hb))
    · rfl
  case lineage =>
    refine (h.lineage.extend hend (fun a ha => hnew (h.known ha).2)
      (fun b hb => hnew (h.known hb).1) fun heq => hnew (heq ▸ hold)).mono fun a b hab => ?_
    exact hsucc.mp hab
  case known =>
    intro t n hn
    rcases hsucc.mp hn with hn | ⟨rfl, rfl⟩
    · exact ⟨hknown (h.known hn).1, hknown (h.known hn).2⟩
    · exact ⟨hknown hold, row, by simp [hs'], rfl⟩
  case points =>
    rintro t n ⟨r, hr, hid, hpoint⟩
    rcases hmem hr with hr | rfl
    · exact hsucc.mpr (.inl (h.points ⟨r, hr, hid, hpoint⟩))
    · cases hpoint
  case held =>
    intro c' q x hq hx
    simp only [hs', SessionState.put, Calls.phase_put] at hq
    split at hq
    · cases hq
      cases hx
      exact hknown hold
    · exact hknown (h.held hq hx)
  case created =>
    intro c' x now' n hq
    simp only [hs', SessionState.put, Calls.phase_put] at hq
    split at hq
    · cases hq
      exact hsucc.mpr (.inr ⟨rfl, rfl⟩)
    · exact hsucc.mpr (.inl (h.created hq))
  case rotating =>
    intro r n hr hnone hn
    rcases hmem hr with hr | rfl
    · rcases hsucc.mp hn with hn | ⟨heq, -⟩
      · obtain ⟨c', x, now', m, hphase', hid⟩ := h.rotating hr hnone hn
        have hne : c' ≠ c := by
          rintro rfl
          cases hphase.symm.trans hphase'
        exact ⟨c', x, now', m, (Calls.phase_put_of_ne hne).trans hphase', hid⟩
      · exact ⟨c, existing, now, id, Calls.phase_put_self, heq.symm⟩
    · exact absurd hn (hfromNew n)
  case revoked =>
    intro r hr hrev
    rcases hmem hr with hr | rfl
    · rcases h.revoked hr hrev with ⟨n, hn⟩ | hout
      · exact .inl ⟨n, hsucc.mpr (.inl hn)⟩
      · exact .inr hout
    · exact absurd rfl hrev
  case loggedOutKnown => exact fun ht => hknown (h.loggedOutKnown ht)
  case loggedOut =>
    intro t r ht hr hdesc
    rcases hmem hr with hr | rfl
    · exact h.loggedOut ht hr (hpath hdesc (hfresh r hr).1)
    · -- the fresh token descends from an unrevoked one, which descends from no logged-out token
      rcases ReflTransGen.cases_tail hdesc with heq | ⟨m, hm, hmn⟩
      · exact absurd ((show id = t from heq) ▸ h.loggedOutKnown ht) hnew
      · obtain ⟨r₀, hr₀, hid₀⟩ := hold
        rcases hsucc.mp hmn with hbad | ⟨rfl, -⟩
        · exact absurd (h.known hbad).2 hnew
        · have hdesc₀ := hpath hm (hid₀ ▸ (hfresh r₀ hr₀).1)
          exact absurd (hlive r₀ hr₀ hid₀) (h.loggedOut ht hr₀ (hid₀ ▸ hdesc₀))

/-- Some row of the table is revoked and the request moves on. -/
theorem Sound.revokeRow {existing : RefreshTokenRow} {t₀ : ℤ} {by_ : Option Uuid}
    {p : SessionPhase} {loggedOut : List Uuid} (h : Sound s)
    (hby : ∀ n, by_ = some n → s.Succeeds existing.tokenId n)
    (hx : p.row = none) (hp : ∀ x now n, p ≠ .created x now n)
    (hcall : ∀ x now n, s.calls.phase c = some (.created x now n) →
      x.tokenId = existing.tokenId)
    (hrev : (∃ n, s.Succeeds existing.tokenId n) ∨ existing.tokenId ∈ loggedOut)
    (hout : ∀ t ∈ loggedOut, t ∈ s.loggedOut ∨ t = existing.tokenId ∧ s.Known t ∧
      ∀ r ∈ s.tokens, TransGen s.Succeeds t r.tokenId → r.revokedAt ≠ none)
    (hsub : ∀ t ∈ s.loggedOut, t ∈ loggedOut) :
    Sound { s.put c p with
      tokens := s.tokens.map (RefreshTokenRow.revoke existing.tokenId t₀ by_), loggedOut } := by
  set f := RefreshTokenRow.revoke existing.tokenId t₀ by_ with hf
  have hmem : ∀ {r}, r ∈ s.tokens.map f → ∃ r₀ ∈ s.tokens, r = f r₀ := by
    intro r hr
    obtain ⟨r₀, hr₀, rfl⟩ := List.mem_map.mp hr
    exact ⟨r₀, hr₀, rfl⟩
  have hknown : ∀ {t}, s.Known t →
      Known { s.put c p with tokens := s.tokens.map f, loggedOut } t :=
    fun ⟨r, hr, hid⟩ => ⟨f r, List.mem_map_of_mem hr, by simpa [hf] using hid⟩
  -- a row that is unrevoked now was unrevoked before, and is another one
  have hnone : ∀ {r₀}, (f r₀).revokedAt = none →
      r₀.tokenId ≠ existing.tokenId ∧ f r₀ = r₀ := by
    intro r₀ hr₀
    by_cases hid : r₀.tokenId = existing.tokenId
    · simp [hf, RefreshTokenRow.revoke_self hid] at hr₀
    · exact ⟨hid, RefreshTokenRow.revoke_of_ne hid⟩
  constructor
  case keys =>
    intro a ha b hb hab
    obtain ⟨a₀, ha₀, rfl⟩ := hmem ha
    obtain ⟨b₀, hb₀, rfl⟩ := hmem hb
    simp only [hf, RefreshTokenRow.revoke_tokenId, RefreshTokenRow.revoke_hash] at hab
    rw [h.keys a₀ ha₀ b₀ hb₀ hab]
  case lineage => exact h.lineage
  case known => exact fun hn => ⟨hknown (h.known hn).1, hknown (h.known hn).2⟩
  case points =>
    rintro t n ⟨r, hr, hid, hpoint⟩
    obtain ⟨r₀, hr₀, rfl⟩ := hmem hr
    by_cases hne : r₀.tokenId = existing.tokenId
    · rw [hf, RefreshTokenRow.revoke_self hne] at hid hpoint
      cases hby' : by_ with
      | none => exact h.points ⟨r₀, hr₀, hid, by simpa [hby'] using hpoint⟩
      | some m =>
        obtain rfl : m = n := by simpa [hby'] using hpoint
        rw [← show existing.tokenId = t from hne.symm.trans hid]
        exact hby m hby'
    · rw [hf, RefreshTokenRow.revoke_of_ne hne] at hid hpoint
      exact h.points ⟨r₀, hr₀, hid, hpoint⟩
  case held =>
    intro c' q x hq hrow
    simp only [SessionState.put, Calls.phase_put] at hq
    split at hq
    · cases hq
      rw [hx] at hrow
      cases hrow
    · exact hknown (h.held hq hrow)
  case created =>
    intro c' x now n hq
    simp only [SessionState.put, Calls.phase_put] at hq
    split at hq
    · exact absurd (Option.some.inj hq) (hp x now n)
    · exact h.created hq
  case rotating =>
    intro r n hr hr_none hn
    obtain ⟨r₀, hr₀, rfl⟩ := hmem hr
    obtain ⟨hne, heq⟩ := hnone hr_none
    rw [heq] at hr_none hn ⊢
    obtain ⟨c', x, now, m, hphase, hid⟩ := h.rotating hr₀ hr_none hn
    have hc : c' ≠ c := by
      rintro rfl
      exact hne (hid.symm.trans (hcall x now m hphase))
    exact ⟨c', x, now, m, (Calls.phase_put_of_ne hc).trans hphase, hid⟩
  case revoked =>
    intro r hr hr_rev
    obtain ⟨r₀, hr₀, rfl⟩ := hmem hr
    by_cases hne : r₀.tokenId = existing.tokenId
    · rw [show (f r₀).tokenId = existing.tokenId by simpa [hf] using hne]
      exact hrev
    · rw [hf, RefreshTokenRow.revoke_of_ne hne] at hr_rev ⊢
      exact (h.revoked hr₀ hr_rev).imp id (hsub _)
  case loggedOutKnown =>
    intro t ht
    rcases hout t ht with hold | ⟨-, hk, -⟩
    · exact hknown (h.loggedOutKnown hold)
    · exact hknown hk
  case loggedOut =>
    intro t r ht hr hdesc hr_none
    obtain ⟨r₀, hr₀, rfl⟩ := hmem hr
    obtain ⟨hne, heq⟩ := hnone hr_none
    rw [heq] at hr_none hdesc
    rcases hout t ht with hold | ⟨rfl, -, hdead⟩
    · exact h.loggedOut hold hr₀ hdesc hr_none
    · rcases reflTransGen_iff_eq_or_transGen.mp hdesc with hself | htrans
      · exact hne hself
      · exact hdead r₀ hr₀ htrans hr_none

/-- **Step lemma.** An unraced step keeps the invariant. -/
theorem Sound.step {a : SessionStep} (h : Sound s) (hun : Unraced s a)
    (hstep : step s a = some s') : Sound s' := by
  cases a with
  | tick d | putUser u isActive =>
    cases hstep
    exact ⟨h.keys, h.lineage, h.known, h.points, h.held, h.created, h.rotating, h.revoked,
      h.loggedOutKnown, h.loggedOut⟩
  | login id u hash =>
    simp only [SessionState.step] at hstep
    split at hstep
    · cases hstep
    · next tokens hc =>
      cases hstep
      exact h.login hc
  | refresh c presented =>
    simp only [SessionState.step] at hstep
    split at hstep
    · cases hstep
    next hphase =>
    have hfailed : Sound (s.put c .failed) :=
      h.put_idle rfl (by simp [hphase])
    split at hstep
    · cases hstep
      exact hfailed
    next existing hfind =>
    split at hstep <;> cases hstep
    · refine h.put (by simp) ?_ (by simp [hphase])
      rintro x ⟨⟩
      exact ⟨existing, List.mem_of_find?_eq_some hfind, rfl⟩
    · exact hfailed
  | getUser c =>
    simp only [SessionState.step] at hstep
    split at hstep
    · next existing now hphase =>
      split at hstep <;> cases hstep
      · refine h.put (by simp) ?_ (by simp [hphase])
        rintro x ⟨⟩
        exact h.held hphase rfl
      · exact h.put_idle rfl (by simp [hphase])
    · cases hstep
  | create c id hash =>
    simp only [SessionState.step] at hstep
    split at hstep
    · next existing now hphase =>
      split at hstep
      · cases hstep
      · next tokens hc =>
        cases hstep
        exact h.create hphase (hun existing now hphase).1 (hun existing now hphase).2 hc
    · cases hstep
  | revoke c =>
    simp only [SessionState.step] at hstep
    split at hstep
    · next existing now id hphase =>
      split at hstep
      · cases hstep
      · next tokens hr =>
        cases hstep
        rw [revokeRefreshToken_eq_some hr]
        refine h.revokeRow ?_ rfl (by simp) ?_ (.inl ⟨id, h.created hphase⟩)
          (fun t ht => .inl ht) (fun t ht => ht)
        · rintro n ⟨⟩
          exact h.created hphase
        · rintro x now' n hphase'
          cases hphase.symm.trans hphase'
          rfl
    · cases hstep
  | logout c u jti presented =>
    simp only [SessionState.step] at hstep
    split at hstep
    · next hphase =>
      cases hstep
      exact h.put_idle rfl (by simp [hphase])
    · next hphase =>
      split at hstep <;> cases hstep <;> exact h.put_idle rfl (by simp [hphase])
    · cases hstep
  | deny c =>
    simp only [SessionState.step] at hstep
    split at hstep
    · next u jti presented now hphase =>
      cases hstep
      have hput : Sound (s.put c (.denied u presented now)) :=
        h.put_idle rfl (by simp [hphase])
      exact ⟨hput.keys, hput.lineage, hput.known, hput.points, hput.held, hput.created,
        hput.rotating, hput.revoked, hput.loggedOutKnown, hput.loggedOut⟩
    · cases hstep
  | find c =>
    simp only [SessionState.step] at hstep
    split at hstep
    · next hphase =>
      cases hstep
      exact h.put_idle rfl (by simp [hphase])
    · next u presented now hphase =>
      split at hstep
      · cases hstep
        exact h.put_idle rfl (by simp [hphase])
      next existing hfind =>
      split at hstep <;> cases hstep
      · refine h.put (by simp) ?_ (by simp [hphase])
        rintro x ⟨⟩
        exact ⟨existing, List.mem_of_find?_eq_some hfind, rfl⟩
      · exact h.put_idle rfl (by simp [hphase])
    · cases hstep
  | revokeFound c =>
    simp only [SessionState.step] at hstep
    split at hstep
    · next existing now hphase =>
      split at hstep
      · cases hstep
      · next tokens hr =>
        cases hstep
        rw [revokeRefreshToken_eq_some hr]
        refine h.revokeRow (by simp) rfl (by simp) (by simp [hphase])
          (.inr (List.mem_cons_self ..)) ?_
          (fun t ht => List.mem_cons_of_mem _ ht)
        intro t ht
        rcases List.mem_cons.mp ht with rfl | ht
        · exact .inr ⟨rfl, h.held hphase rfl, hun existing now hphase⟩
        · exact .inl ht
    · cases hstep

/-- A step that keeps the promise was unraced. -/
theorem Sound.unraced {a : SessionStep} (h : Sound s) (hstep : SessionState.step s a = some s')
    (hrot : Rotation s') : Unraced s a := by
  cases a with
  | create c id hash =>
    intro existing now hphase
    simp only [SessionState.step, hphase] at hstep
    split at hstep
    · cases hstep
    next tokens hc =>
    cases hstep
    obtain ⟨rfl, hfresh⟩ := createRefreshToken_eq_some hc
    obtain ⟨r₀, hr₀, hid₀⟩ := h.held hphase rfl
    have hend : ∀ n, ¬ s.Succeeds existing.tokenId n := by
      intro n hn
      -- the secret would be exchanged for the old successor and for the new one
      have hid : n = id := hrot.once
        ⟨r₀, List.mem_append_left _ hr₀, rfl, hid₀.symm ▸ List.mem_cons_of_mem _ hn⟩
        ⟨r₀, List.mem_append_left _ hr₀, rfl, hid₀.symm ▸ List.mem_cons_self ..⟩
      obtain ⟨r, hr, hrid⟩ := (h.known hn).2
      exact (hfresh r hr).1 (hrid.trans hid)
    refine ⟨fun r hr hrid => ?_, hend⟩
    by_contra hrev
    rcases h.revoked hr hrev with ⟨n, hn⟩ | hout
    · exact hend n (hrid ▸ hn)
    · -- the fresh token would descend from a logged-out one
      exact hrot.loggedOut (hrid ▸ hout) (List.mem_append_right _ (List.mem_cons_self ..))
        (.single (List.mem_cons_self ..)) rfl
  | revokeFound c =>
    intro existing now hphase r hr hdesc
    simp only [SessionState.step, hphase] at hstep
    split at hstep
    · cases hstep
    next tokens hrev =>
    cases hstep
    rw [revokeRefreshToken_eq_some hrev] at hrot
    by_cases hid : r.tokenId = existing.tokenId
    · exact absurd (hid ▸ hdesc) (h.lineage.acyclic _)
    · have hmem : r ∈ s.tokens.map (RefreshTokenRow.revoke existing.tokenId now none) :=
        List.mem_map.mpr ⟨r, hr, RefreshTokenRow.revoke_of_ne hid⟩
      exact hrot.loggedOut (List.mem_cons_self ..) hmem hdesc
  | _ => trivial

end Invariant

/-! ## Runs -/

/-- **Rotation.** In a run from empty tables, the promise holds in every state exactly when every
step is unraced. -/
theorem rotation_iff_unraced {clock : ℤ} {as : List SessionStep} {s : SessionState}
    (hrun : run step (init clock) as = some s) :
    Throughout step Rotation (init clock) as ↔ Along step Unraced (init clock) as :=
  throughout_iff_along Sound.rotation Sound.step Sound.unraced (sound_init clock) hrun

/-- A login, a refresh, and the logout of the successor. -/
def sessionRun : List SessionStep :=
  [.putUser 1 true, .login 10 1 "a", .refresh 0 "a", .getUser 0, .create 0 11 "b", .revoke 0,
   .refresh 1 "a", .logout 2 1 (some 5) (some "b"), .deny 2, .find 2, .revokeFound 2,
   .refresh 3 "b"]

theorem rotation_iff_unraced_sample :
    ∃ s, run step (init 0) sessionRun = some s ∧
      (Throughout step Rotation (init 0) sessionRun ↔
        Along step Unraced (init 0) sessionRun) := by
  obtain ⟨s, hrun⟩ := Option.isSome_iff_exists.mp
    (show (run step (init 0) sessionRun).isSome by decide)
  exact ⟨s, hrun, rotation_iff_unraced hrun⟩

/-- Two refreshes exchange one secret for two live tokens, and a refresh that read its token
before a logout revoked it mints a live descendant of the token. -/
theorem refresh_races :
    (∃ s, run step (init 0) [.putUser 1 true, .login 10 1 "a", .refresh 0 "a", .refresh 1 "a",
        .getUser 0, .getUser 1, .create 0 11 "b", .create 1 12 "c", .revoke 0, .revoke 1] =
          some s ∧
      s.Exchanged "a" 11 ∧ s.Exchanged "a" 12 ∧
      (∃ r ∈ s.tokens, r.tokenId = 11 ∧ r.valid s.clock) ∧
      ∃ r ∈ s.tokens, r.tokenId = 12 ∧ r.valid s.clock) ∧
    ∃ s, run step (init 0) [.putUser 1 true, .login 10 1 "a", .refresh 0 "a", .getUser 0,
        .logout 1 1 (some 5) (some "a"), .deny 1, .find 1, .revokeFound 1,
        .create 0 11 "b", .revoke 0] = some s ∧
      10 ∈ s.loggedOut ∧ s.Succeeds 10 11 ∧ ∃ r ∈ s.tokens, r.tokenId = 11 ∧ r.valid s.clock := by
  decide

end SessionState

end Eyenet
