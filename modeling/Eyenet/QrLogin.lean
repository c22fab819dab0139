import Eyenet.Identity

/-!
# Logins by QR code

An operator provisions a Telegram identity by scanning a code: a client stays open while the phone
scans, the password of a second factor is handed to it if need be, and then the session becomes an
identity. `api/auth/_qr_login.py` keeps these logins in a registry of the process, with a driver
task for each; a reaper and the shutdown take them out. Requests, drivers, the reaper and the
shutdown take turns at every await.

* `QrLogins.step_get` — what a step does to one login.
* `QrLogins.settled_iff_audited` — exactly when the outcome of a login stands.
* `QrLogins.forgotten_iff` — exactly when no password outlives its sign-in.
* `QrLogins.closed_iff` — exactly when every client has somebody to disconnect it.
* `QrLogins.signed_in_with` — whose password a driver signs in with.
* `QrLogins.reported_iff` — exactly when the registry tells of the identities that logins make.
-/

namespace Eyenet

open Machine

/-- `QrLoginStatus` -/
inductive QrLoginStatus where
  | pendingScan
  | passwordNeeded
  | complete
  | error
  | expired
  deriving DecidableEq, Repr

/-- `_TERMINAL` -/
def QrLoginStatus.terminal : QrLoginStatus → Bool
  | complete | error | expired => true
  | _ => false

/-- `_LOGIN_TTL`; times are in microseconds. -/
def loginTtl : ℤ := 5 * 60 * 1000000

/-- `_TERMINAL_RETAIN` -/
def terminalRetain : ℤ := 120 * 1000000

/-- What `start` is asked for. -/
structure QrLoginRequest where
  userId : Uuid
  apiId : ℤ
  apiHash : String
  name : String
  sourceId : Uuid
  sourceConfig : List (String × String)
  role : IdentityRole
  cooldownSeconds : ℤ
  proxyUri : Option String
  notes : Option String
  deriving DecidableEq

/-- Where `start` and the driver of a login are. -/
inductive Driver where
  /-- `start` awaits `connect` -/
  | connecting
  /-- `start` awaits `qr_login` -/
  | requesting
  /-- `start` has raised -/
  | failed
  /-- the task is created -/
  | scheduled
  /-- the driver awaits `wait` -/
  | scanning
  | recreating
  /-- it awaits the password -/
  | awaiting
  | signingIn (password : String)
  /-- it awaits `create_identity`, and what follows the commit -/
  | minting
  | minted (identityId : Uuid)
  | auditing
  /-- it awaits `disconnect` -/
  | closing
  | ended
  deriving DecidableEq

/-- Whether the registry has the login. -/
inductive Place where
  /-- `start` has not put it there -/
  | unlisted
  | listed
  /-- the shutdown has taken it out and is going to cancel its driver -/
  | condemned
  /-- the driver is cancelled, and whoever took it out awaits `disconnect` -/
  | dropping
  | dropped
  deriving DecidableEq

/-- `QrLoginState`, from the call of `start` on; the status, the code and the time are those of the
state that `start` builds. -/
structure QrLogin where
  loginId : Uuid
  request : QrLoginRequest
  driver : Driver
  place : Place
  /-- the client is connected -/
  connected : Bool
  status : QrLoginStatus
  qrUrl : String
  createdAt : ℤ
  /-- `password_event` is set -/
  passwordEvent : Bool
  password : Option String
  identityId : Option Uuid
  error : Option String
  deriving DecidableEq

/-- What `wait` does. -/
inductive ScanReply where
  | scanned
  | timeout
  /-- `SessionPasswordNeededError` -/
  | passwordNeeded
  | raises

/-- What `sign_in` does. -/
inductive SignInReply where
  | accepted
  /-- `PasswordHashInvalidError` -/
  | invalid
  | raises

/-- A step of `start`, of the driver, of the reaper or of the shutdown at one login. -/
inductive LoginAction where
  | connect (ok : Bool)
  /-- the code, if `qr_login` does not raise -/
  | qrLogin (url : Option String) (now : ℤ)
  | register
  | launch (now : ℤ)
  | scan (reply : ScanReply)
  | recreate (url : Option String) (now : ℤ)
  | wake
  | passwordTimeout
  | signIn (reply : SignInReply)
  /-- the session cannot be made a string -/
  | saveFails
  /-- `create_identity` raises, before or behind its commit -/
  | provisionFails (text : String)
  /-- it returns the row -/
  | provisioned
  | audit (ok : Bool)
  | disconnect (ok : Bool)
  | reap (now : ℤ)
  /-- the shutdown comes to the login -/
  | stop
  /-- whoever took it out has called `disconnect` -/
  | drop (ok : Bool)

namespace QrLogin

/-- A call of `start`. -/
def new (loginId : Uuid) (request : QrLoginRequest) : QrLogin where
  loginId
  request
  driver := .connecting
  place := .unlisted
  connected := false
  status := .pendingScan
  qrUrl := ""
  createdAt := 0
  passwordEvent := false
  password := none
  identityId := none
  error := none

variable (l : QrLogin)

/-- `expires_at` -/
def expiresAt : ℤ := l.createdAt + loginTtl

/-- `_reapable` -/
def reapable (now : ℤ) : Bool :=
  if l.status.terminal then terminalRetain < now - l.createdAt
  else loginTtl + 30 * 1000000 < now - l.createdAt

/-- The state is built: the driver exists. -/
def started : Bool :=
  match l.driver with
  | .connecting | .requesting | .failed => false
  | _ => true

/-- The beginning of a turn of the scan loop. -/
def turn (now : ℤ) : QrLogin :=
  if l.expiresAt - now ≤ 0 then { l with status := .expired, driver := .closing }
  else { l with driver := .scanning }

/-- What `_drive` makes of an exception. -/
def loginFailed : QrLogin :=
  { l with status := .error, error := some "login_failed", driver := .closing }

/-- What `_mint` makes of an exception. -/
def provisionFailed (text : String) : QrLogin :=
  { l with status := .error, error := some ("provision_failed: " ++ text), driver := .closing }

/-- `driver_task.cancel()`, up to the next await of the driver. -/
def cancel : QrLogin :=
  match l.driver with
  | .scheduled | .closing => { l with driver := .ended }
  | .signingIn _ => { l with driver := .closing, password := none }
  | .scanning | .recreating | .awaiting | .minting | .minted _ | .auditing =>
    { l with driver := .closing }
  | _ => l

/-- One step; an action that does not fit changes nothing. -/
def act (l : QrLogin) : LoginAction → QrLogin
  | .connect ok =>
    match l.driver with
    | .connecting =>
      if ok then { l with driver := .requesting, connected := true }
      else { l with driver := .failed }
    | _ => l
  | .qrLogin url now =>
    match l.driver, url with
    | .requesting, some url => { l with driver := .scheduled, qrUrl := url, createdAt := now }
    | .requesting, none => { l with driver := .failed }
    | _, _ => l
  | .register =>
    if l.started ∧ l.place = .unlisted then { l with place := .listed } else l
  | .launch now =>
    match l.driver with
    | .scheduled => l.turn now
    | _ => l
  | .scan reply =>
    match l.driver, reply with
    | .scanning, .scanned => { l with driver := .minting }
    | .scanning, .timeout => { l with driver := .recreating }
    | .scanning, .passwordNeeded => { l with driver := .awaiting, status := .passwordNeeded }
    | .scanning, .raises => l.loginFailed
    | _, _ => l
  | .recreate url now =>
    match l.driver, url with
    | .recreating, some url => turn { l with qrUrl := url } now
    | .recreating, none => l.loginFailed
    | _, _ => l
  | .wake =>
    match l.driver with
    | .awaiting =>
      if l.passwordEvent then { l with driver := .signingIn (l.password.getD "") } else l
    | _ => l
  | .passwordTimeout =>
    match l.driver with
    -- the time may run out in the turn in which the event is set
    | .awaiting => { l with status := .expired, driver := .closing }
    | _ => l
  | .signIn reply =>
    match l.driver, reply with
    | .signingIn _, .accepted => { l with driver := .minting, password := none }
    | .signingIn _, .invalid =>
      { l with status := .error, error := some "invalid_2fa_password", driver := .closing,
               password := none }
    | .signingIn _, .raises => loginFailed { l with password := none }
    | _, _ => l
  | .saveFails =>
    match l.driver with
    | .minting => l.loginFailed
    | _ => l
  | .provisionFails text =>
    match l.driver with
    | .minting | .minted _ => l.provisionFailed text
    | _ => l
  | .provisioned =>
    match l.driver with
    | .minted identityId =>
      { l with identityId := some identityId, status := .complete, driver := .auditing }
    | _ => l
  | .audit ok =>
    match l.driver with
    | .auditing => if ok then { l with driver := .closing } else l.loginFailed
    | _ => l
  | .disconnect ok =>
    match l.driver with
    | .closing => { l with driver := .ended, connected := l.connected && !ok }
    | _ => l
  | .reap now =>
    if l.place = .listed ∧ l.reapable now then { l.cancel with place := .dropping } else l
  | .stop => if l.place = .condemned then { l.cancel with place := .dropping } else l
  | .drop ok =>
    if l.place = .dropping then { l with place := .dropped, connected := l.connected && !ok } else l

/-- `submit_password`, for a login in the registry -/
def submit (owner : Uuid) (password : String) : QrLogin :=
  if l.place = .listed ∧ l.request.userId = owner ∧ l.status = .passwordNeeded then
    { l with password := some password, passwordEvent := true }
  else l

/-- The shutdown empties the registry. -/
def condemn : QrLogin := if l.place = .listed then { l with place := .condemned } else l

theorem condemn_loginId (l : QrLogin) : l.condemn.loginId = l.loginId := by
  rw [condemn]
  split <;> rfl

end QrLogin

/-- The logins that were ever started, the identity table, and the history of which identity was
made for which login. -/
structure QrLogins where
  logins : Table QrLogin.loginId
  identities : IdentityStore
  minted : List (Uuid × Uuid)

namespace QrLogins

/-- A step of anybody. -/
inductive Step where
  /-- `start`, up to `connect` -/
  | begin (loginId : Uuid) (request : QrLoginRequest)
  | act (loginId : Uuid) (action : LoginAction)
  /-- `submit_password` -/
  | submit (loginId owner : Uuid) (password : String)
  /-- the transaction of `create_identity` -/
  | provision (loginId identityId : Uuid)
  | shutdown
  /-- the identity table is changed elsewhere -/
  | elsewhere (identities : IdentityStore)

/-- No login. -/
def init (identities : IdentityStore) : QrLogins := ⟨.empty, identities, []⟩

variable (s : QrLogins)

/-- `get` -/
def get (loginId owner : Uuid) : Option QrLogin :=
  (s.logins.get loginId).filter fun l => l.place = .listed ∧ l.request.userId = owner

/-- A state is changed in place. -/
def put (l : QrLogin) : QrLogins := { s with logins := s.logins.put l }

/-- The transaction of `create_identity` for a login; where it is refused, `create_identity` is
going to raise. -/
def mint (l : QrLogin) (identityId : Uuid) : QrLogins :=
  match s.identities.createIdentity identityId l.request.name l.request.sourceId l.request.role
      .available l.request.cooldownSeconds with
  | (identities, .ok ()) =>
    { logins := s.logins.put { l with driver := .minted identityId }
      identities
      minted := (identityId, l.loginId) :: s.minted }
  | (_, .error _) => s

/-- One step; a label that does not fit changes nothing. -/
def step (s : QrLogins) : Step → Option QrLogins
  | .begin loginId request =>
    match s.logins.insert (.new loginId request) with
    | none => some s
    | some logins => some { s with logins }
  | .act loginId action =>
    match s.logins.get loginId with
    | none => some s
    | some l => some (s.put (l.act action))
  | .submit loginId owner password =>
    match s.logins.get loginId with
    | none => some s
    | some l => some (s.put (l.submit owner password))
  | .provision loginId identityId =>
    match s.logins.get loginId with
    | none => some s
    | some l => if l.driver = .minting then some (s.mint l identityId) else some s
  | .shutdown =>
    some { s with logins := s.logins.updateAll QrLogin.condemn QrLogin.condemn_loginId }
  | .elsewhere identities => some { s with identities }

end QrLogins

/-! ## One login -/

/-- The driver is at the password or behind it, and has not given an outcome. -/
def Driver.engaged : Driver → Bool
  | .awaiting | .signingIn _ | .minting | .minted _ => true
  | _ => false

/-- The driver has not come to the end of the waiting for a password. -/
def Driver.early : Driver → Bool
  | .connecting | .requesting | .failed | .scheduled | .scanning | .recreating | .awaiting => true
  | _ => false

namespace QrLogin

variable {l l' : QrLogin} {action : LoginAction}

/-- What an action does to a login. -/
inductive Move (l : QrLogin) (action : LoginAction) : QrLogin → Prop
  | stay : Move l action l
  | connected (hd : l.driver = .connecting) :
      Move l action { l with driver := .requesting, connected := true }
  | refused (hd : l.driver = .connecting) : Move l action { l with driver := .failed }
  | codeless (hd : l.driver = .requesting) (ha : ∃ now, action = .qrLogin none now) :
      Move l action { l with driver := .failed }
  | requested (url : String) (now : ℤ) (hd : l.driver = .requesting) :
      Move l action { l with driver := .scheduled, qrUrl := url, createdAt := now }
  | registered (hstarted : l.started = true) (hplace : l.place = .unlisted) :
      Move l action { l with place := .listed }
  /-- the scan loop begins or goes on -/
  | turned (url : String) (hd : l.driver = .scheduled ∨ l.driver = .recreating) :
      Move l action { l with qrUrl := url, driver := .scanning }
  | expired (url : String) (hd : l.driver = .scheduled ∨ l.driver = .recreating) :
      Move l action { l with qrUrl := url, status := .expired, driver := .closing }
  | scanned (hd : l.driver = .scanning) : Move l action { l with driver := .minting }
  | stale (hd : l.driver = .scanning) : Move l action { l with driver := .recreating }
  | asked (hd : l.driver = .scanning) :
      Move l action { l with driver := .awaiting, status := .passwordNeeded }
  | woken (hd : l.driver = .awaiting) (hevent : l.passwordEvent = true) :
      Move l action { l with driver := .signingIn (l.password.getD "") }
  | unanswered (hd : l.driver = .awaiting) (ha : action = .passwordTimeout) :
      Move l action { l with status := .expired, driver := .closing }
  | signedIn (password : String) (hd : l.driver = .signingIn password) :
      Move l action { l with driver := .minting, password := none }
  | rejected (password text : String) (hd : l.driver = .signingIn password) :
      Move l action { l with status := .error, error := some text, driver := .closing,
                             password := none }
  /-- an await of the driver raises, the audit of a finished login apart -/
  | raised (text : String) (hd : l.driver = .scanning ∨ l.driver = .recreating ∨
        l.driver = .minting ∨ ∃ identityId text, l.driver = .minted identityId ∧
          action = .provisionFails text) :
      Move l action { l with status := .error, error := some text, driver := .closing }
  | completed (identityId : Uuid) (hd : l.driver = .minted identityId) :
      Move l action { l with identityId := some identityId, status := .complete,
                             driver := .auditing }
  | audited (hd : l.driver = .auditing) (ha : action = .audit true) :
      Move l action { l with driver := .closing }
  | unaudited (hd : l.driver = .auditing) (ha : action = .audit false) :
      Move l action { l with status := .error, error := some "login_failed", driver := .closing }
  | closed (ok : Bool) (hd : l.driver = .closing) (ha : action = .disconnect ok) :
      Move l action { l with driver := .ended, connected := l.connected && !ok }
  | cancelled (hplace : l.place = .listed ∨ l.place = .condemned)
      (ha : (∃ now, action = .reap now ∧ l.place = .listed ∧ l.reapable now = true) ∨
        action = .stop ∧ l.place = .condemned) :
      Move l action { l.cancel with place := .dropping }
  | dropped (ok : Bool) (hplace : l.place = .dropping) (ha : action = .drop ok) :
      Move l action { l with place := .dropped, connected := l.connected && !ok }

theorem move_turn (url : String) (now : ℤ) (hd : l.driver = .scheduled ∨ l.driver = .recreating) :
    Move l action (turn { l with qrUrl := url } now) := by
  rw [turn]
  split_ifs
  · exact .expired url hd
  · exact .turned url hd

theorem act_move : Move l action (l.act action) := by
  cases action with
  | connect ok =>
    simp only [act]
    split
    · next hd =>
      cases ok
      · exact .refused hd
      · exact .connected hd
    · exact .stay
  | qrLogin url now =>
    simp only [act]
    split
    · next url hd => exact .requested url now hd
    · next hd => exact .codeless hd ⟨now, rfl⟩
    · exact .stay
  | register =>
    simp only [act]
    split
    · next h => exact .registered h.1 h.2
    · exact .stay
  | launch now =>
    simp only [act]
    split
    · next hd => exact move_turn l.qrUrl now (Or.inl hd)
    · exact .stay
  | scan reply =>
    simp only [act]
    split
    · next hd => exact .scanned hd
    · next hd => exact .stale hd
    · next hd => exact .asked hd
    · next hd => exact .raised "login_failed" (Or.inl hd)
    · exact .stay
  | recreate url now =>
    simp only [act]
    split
    · next url hd => exact move_turn url now (Or.inr hd)
    · next hd => exact .raised "login_failed" (Or.inr (Or.inl hd))
    · exact .stay
  | wake =>
    simp only [act]
    split
    · next hd =>
      split
      · next hevent => exact .woken hd hevent
      · exact .stay
    · exact .stay
  | passwordTimeout =>
    simp only [act]
    split
    · next hd => exact .unanswered hd rfl
    · exact .stay
  | signIn reply =>
    simp only [act]
    split
    · next password hd => exact .signedIn password hd
    · next password hd => exact .rejected password "invalid_2fa_password" hd
    · next password hd => exact .rejected password "login_failed" hd
    · exact .stay
  | saveFails =>
    simp only [act]
    split
    · next hd => exact .raised "login_failed" (Or.inr (Or.inr (Or.inl hd)))
    · exact .stay
  | provisionFails text =>
    simp only [act]
    split
    · next hd => exact .raised _ (Or.inr (Or.inr (Or.inl hd)))
    · next identityId hd => exact .raised _ (Or.inr (Or.inr (Or.inr ⟨identityId, text, hd, rfl⟩)))
    · exact .stay
  | provisioned =>
    simp only [act]
    split
    · next identityId hd => exact .completed identityId hd
    · exact .stay
  | audit ok =>
    simp only [act]
    split
    · next hd =>
      cases ok
      · exact .unaudited hd rfl
      · exact .audited hd rfl
    · exact .stay
  | disconnect ok =>
    simp only [act]
    split
    · next hd => exact .closed ok hd rfl
    · exact .stay
  | reap now =>
    simp only [act]
    split
    · next h => exact .cancelled (Or.inl h.1) (Or.inl ⟨now, rfl, h⟩)
    · exact .stay
  | stop =>
    simp only [act]
    split
    · next h => exact .cancelled (Or.inr h) (Or.inr ⟨rfl, h⟩)
    · exact .stay
  | drop ok =>
    simp only [act]
    split
    · next h => exact .dropped ok h rfl
    · exact .stay

/-- A cancellation changes the driver and the password only. -/
theorem cancel_eq (l : QrLogin) :
    ∃ driver password, l.cancel = { l with driver := driver, password := password } := by
  cases hd : l.driver <;> simp only [QrLogin.cancel, hd] <;> exact ⟨_, _, rfl⟩

theorem Move.request (h : Move l action l') : l'.loginId = l.loginId ∧ l'.request = l.request := by
  cases h with
  | cancelled hplace haction =>
    obtain ⟨driver, password, heq⟩ := cancel_eq l
    rw [heq]
    exact ⟨rfl, rfl⟩
  | _ => exact ⟨rfl, rfl⟩

theorem submit_request (owner : Uuid) (password : String) :
    (l.submit owner password).loginId = l.loginId ∧
      (l.submit owner password).request = l.request := by
  rw [submit]
  split <;> exact ⟨rfl, rfl⟩

/-- What holds of a login at every moment. -/
structure Sound (l : QrLogin) : Prop where
  identified : l.identityId ≠ none →
    l.driver = .auditing ∨ l.driver = .closing ∨ l.driver = .ended
  unconnected : l.driver = .connecting → l.connected = false
  connected : l.driver = .requesting → l.connected = true
  unlisted : l.place = .unlisted → l.password = none
  started : l.place ≠ .unlisted → l.started = true
  cancelled : l.place = .dropping ∨ l.place = .dropped → l.driver = .closing ∨ l.driver = .ended
  terminal : l.status.terminal = true →
    l.driver = .auditing ∨ l.driver = .closing ∨ l.driver = .ended
  complete : l.driver = .auditing → l.status = .complete
  needed : l.place = .unlisted ∨ l.place = .listed → l.status = .passwordNeeded →
    l.driver.engaged = true
  event : l.driver.early = true → l.passwordEvent = true → l.password ≠ none

theorem Sound.new (loginId : Uuid) (request : QrLoginRequest) : Sound (.new loginId request) := by
  constructor <;> simp [QrLogin.new, QrLoginStatus.terminal]

theorem Sound.condemn (h : Sound l) : Sound l.condemn := by
  rw [QrLogin.condemn]
  split
  · next hplace =>
    obtain ⟨hid, h0, h1, h2, h3, h4, h5, h6, h7, h8⟩ := h
    constructor <;> simp_all [QrLogin.started, Driver.early]
  · exact h

theorem Sound.submit (h : Sound l) (owner : Uuid) (password : String) :
    Sound (l.submit owner password) := by
  rw [QrLogin.submit]
  split
  · next hplace =>
    obtain ⟨hid, h0, h1, h2, h3, h4, h5, h6, h7, h8⟩ := h
    constructor <;> simp_all [QrLogin.started, Driver.early]
  · exact h

theorem Sound.minted (h : Sound l) (hd : l.driver = .minting) (identityId : Uuid) :
    Sound { l with driver := .minted identityId } := by
  obtain ⟨hid, h0, h1, h2, h3, h4, h5, h6, h7, h8⟩ := h
  constructor <;> simp_all [QrLogin.started, Driver.engaged, Driver.early]

theorem Sound.cancel (h : Sound l) (hplace : l.place = .listed ∨ l.place = .condemned) :
    Sound { l.cancel with place := .dropping } := by
  obtain ⟨hid, h0, h1, h2, h3, h4, h5, h6, h7, h8⟩ := h
  have hstarted : l.started = true := h3 (by rcases hplace with h | h <;> simp [h])
  rw [QrLogin.cancel]
  cases hd : l.driver <;> constructor <;> simp_all [QrLogin.started, Driver.early]

theorem Sound.move (h : Sound l) (hmove : Move l action l') : Sound l' := by
  cases hmove with
  | stay => exact h
  | cancelled hplace haction => exact h.cancel hplace
  | turned url hd =>
    obtain ⟨hid, h0, h1, h2, h3, h4, h5, h6, h7, h8⟩ := h
    rcases hd with hd | hd <;> constructor <;>
      simp_all [QrLogin.started, QrLoginStatus.terminal, Driver.engaged, Driver.early]
  | expired url hd =>
    obtain ⟨hid, h0, h1, h2, h3, h4, h5, h6, h7, h8⟩ := h
    rcases hd with hd | hd <;> constructor <;>
      simp_all [QrLogin.started, QrLoginStatus.terminal, Driver.engaged, Driver.early]
  | raised text hd =>
    obtain ⟨hid, h0, h1, h2, h3, h4, h5, h6, h7, h8⟩ := h
    rcases hd with hd | hd | hd | ⟨identityId, text, hd, haction⟩ <;> constructor <;>
      simp_all [QrLogin.started, QrLoginStatus.terminal, Driver.engaged, Driver.early]
  | dropped ok hplace =>
    obtain ⟨hid, h0, h1, h2, h3, h4, h5, h6, h7, h8⟩ := h
    rcases h4 (Or.inl hplace) with hd | hd <;> constructor <;>
      simp_all [QrLogin.started, Driver.early]
  | _ =>
    obtain ⟨hid, h0, h1, h2, h3, h4, h5, h6, h7, h8⟩ := h
    constructor <;> simp_all [QrLogin.started, QrLoginStatus.terminal, Driver.engaged, Driver.early]

end QrLogin

/-! ## The registry -/

namespace QrLogins

variable {s s' : QrLogins} {a : Step} {k : Uuid} {l l' : QrLogin}

/-- What a step does to a login that is there. -/
inductive Change (s s' : QrLogins) (a : Step) (l : QrLogin) : QrLogin → Prop
  | stay : Change s s' a l l
  | act {action : LoginAction} {l' : QrLogin} (ha : a = .act l.loginId action)
      (hmove : l.Move action l') : Change s s' a l l'
  | submit (owner : Uuid) (password : String) (ha : a = .submit l.loginId owner password) :
      Change s s' a l (l.submit owner password)
  | provision (identityId : Uuid) (hd : l.driver = .minting)
      (hminted : s'.minted = (identityId, l.loginId) :: s.minted) :
      Change s s' a l { l with driver := .minted identityId }
  | condemn : Change s s' a l l.condemn

theorem exists_step (s : QrLogins) (a : Step) : ∃ s', s.step a = some s' := by
  cases a <;> simp only [step] <;> (repeat' split) <;> exact ⟨_, rfl⟩

theorem get_loginId (h : s.logins.get k = some l) : l.loginId = k := (Table.get_eq_some.mp h).2

theorem get_put (h : s.logins.get k = some l) (hid : l'.loginId = l.loginId) (k' : Uuid) :
    (s.logins.put l').get k' = if k = k' then some l' else s.logins.get k' := by
  rw [Table.get_put (Table.get_eq_some.mp h).1 hid k', get_loginId h]

/-- A login in the registry after a change of one. -/
theorem change_put (h : s.logins.get k = some l) {k' : Uuid} {m m' : QrLogin}
    (hm : s.logins.get k' = some m) (hid : m'.loginId = m.loginId) (hchange : Change s s' a m m') :
    ∃ l', (s.logins.put m').get k = some l' ∧ Change s s' a l l' := by
  rw [get_put hm hid]
  split_ifs with hk
  · subst hk
    obtain rfl : m = l := Option.some.inj (hm.symm.trans h)
    exact ⟨m', rfl, hchange⟩
  · exact ⟨l, h, .stay⟩

theorem mint_logins (s : QrLogins) (l : QrLogin) (identityId : Uuid) :
    (s.mint l identityId).logins = s.logins.put { l with driver := .minted identityId } ∧
        (s.mint l identityId).minted = (identityId, l.loginId) :: s.minted ∨
      s.mint l identityId = s := by
  rw [mint]
  split
  · exact Or.inl ⟨rfl, rfl⟩
  · exact Or.inr rfl

theorem step_act_get {action : LoginAction} (h : s.logins.get k = some l)
    (hstep : s.step (.act k action) = some s') : s'.logins.get k = some (l.act action) := by
  simp only [step, h] at hstep
  obtain rfl := Option.some.inj hstep
  exact (get_put h QrLogin.act_move.request.1 k).trans (if_pos rfl)

theorem step_submit_get {owner : Uuid} {password : String} (h : s.logins.get k = some l)
    (hstep : s.step (.submit k owner password) = some s') :
    s'.logins.get k = some (l.submit owner password) := by
  simp only [step, h] at hstep
  obtain rfl := Option.some.inj hstep
  exact (get_put h (QrLogin.submit_request owner password).1 k).trans (if_pos rfl)

/-- What a step does to the login of an id. -/
theorem step_get (hstep : s.step a = some s') (h : s.logins.get k = some l) :
    ∃ l', s'.logins.get k = some l' ∧ Change s s' a l l' := by
  cases a with
  | begin loginId request =>
    simp only [step] at hstep
    split at hstep <;> obtain rfl := Option.some.inj hstep
    · exact ⟨l, h, .stay⟩
    · next logins hinsert =>
      refine ⟨l, ?_, .stay⟩
      rw [Table.get_insert hinsert, if_neg, h]
      rintro rfl
      rw [(Table.insert_eq_some hinsert).1] at h
      cases h
  | act loginId action =>
    simp only [step] at hstep
    split at hstep <;> obtain rfl := Option.some.inj hstep
    · exact ⟨l, h, .stay⟩
    · next m hm =>
      refine change_put h hm QrLogin.act_move.request.1 (.act ?_ QrLogin.act_move)
      rw [get_loginId hm]
  | submit loginId owner password =>
    simp only [step] at hstep
    split at hstep <;> obtain rfl := Option.some.inj hstep
    · exact ⟨l, h, .stay⟩
    · next m hm =>
      refine change_put h hm (QrLogin.submit_request owner password).1 (.submit owner password ?_)
      rw [get_loginId hm]
  | provision loginId identityId =>
    simp only [step] at hstep
    split at hstep
    · obtain rfl := Option.some.inj hstep
      exact ⟨l, h, .stay⟩
    · next m hm =>
      split_ifs at hstep with hd <;> obtain rfl := Option.some.inj hstep
      · rcases mint_logins s m identityId with ⟨hlogins, hminted⟩ | hsame
        · rw [hlogins]
          exact change_put h hm rfl (.provision identityId hd hminted)
        · rw [hsame]
          exact ⟨l, h, .stay⟩
      · exact ⟨l, h, .stay⟩
  | shutdown =>
    obtain rfl := Option.some.inj hstep
    exact ⟨l.condemn, by rw [Table.get_updateAll, h]; rfl, .condemn⟩
  | elsewhere identities =>
    obtain rfl := Option.some.inj hstep
    exact ⟨l, h, .stay⟩

/-- Where a login comes from: it was there, or it has just begun. -/
theorem step_get_inv (hstep : s.step a = some s') (h' : s'.logins.get k = some l') :
    (∃ l, s.logins.get k = some l ∧ Change s s' a l l') ∨
      s.logins.get k = none ∧ ∃ request, l' = .new k request := by
  cases h : s.logins.get k with
  | some l =>
    obtain ⟨m, hm, hchange⟩ := step_get hstep h
    obtain rfl : m = l' := Option.some.inj (hm.symm.trans h')
    exact Or.inl ⟨l, rfl, hchange⟩
  | none =>
    refine Or.inr ⟨rfl, ?_⟩
    have hput : ∀ {k' : Uuid} {m m' : QrLogin}, s.logins.get k' = some m →
        m'.loginId = m.loginId → (s.logins.put m').get k ≠ some l' := by
      intro k' m m' hm hid heq
      rw [get_put hm hid, h] at heq
      split_ifs at heq with hk
      subst hk
      rw [h] at hm
      cases hm
    have hsame : s.logins.get k ≠ some l' := by
      rw [h]
      exact Option.some_ne_none l' ∘ Eq.symm
    cases a with
    | begin loginId request =>
      simp only [step] at hstep
      split at hstep <;> obtain rfl := Option.some.inj hstep
      · exact absurd h' hsame
      · next logins hinsert =>
        rw [Table.get_insert hinsert] at h'
        split_ifs at h' with hk
        · exact ⟨request, hk ▸ (Option.some.inj h').symm⟩
        · exact absurd h' hsame
    | act loginId action =>
      simp only [step] at hstep
      split at hstep <;> obtain rfl := Option.some.inj hstep
      · exact absurd h' hsame
      · next m hm => exact absurd h' (hput hm QrLogin.act_move.request.1)
    | submit loginId owner password =>
      simp only [step] at hstep
      split at hstep <;> obtain rfl := Option.some.inj hstep
      · exact absurd h' hsame
      · next m hm => exact absurd h' (hput hm (QrLogin.submit_request owner password).1)
    | provision loginId identityId =>
      simp only [step] at hstep
      split at hstep
      · obtain rfl := Option.some.inj hstep
        exact absurd h' hsame
      · next m hm =>
        split_ifs at hstep <;> obtain rfl := Option.some.inj hstep
        · rcases mint_logins s m identityId with ⟨hlogins, -⟩ | hkeep
          · rw [hlogins] at h'
            exact absurd h' (hput hm rfl)
          · exact absurd (hkeep ▸ h') hsame
        · exact absurd h' hsame
    | shutdown =>
      obtain rfl := Option.some.inj hstep
      rw [Table.get_updateAll, h] at h'
      cases h'
    | elsewhere identities =>
      obtain rfl := Option.some.inj hstep
      exact absurd h' hsame

/-- What holds of the registry at every moment. -/
def Inv (s : QrLogins) : Prop := ∀ k l, s.logins.get k = some l → l.Sound

theorem inv_init (identities : IdentityStore) : Inv (init identities) := by
  intro k l h
  cases h

theorem Change.sound (h : Change s s' a l l') (hsound : l.Sound) : l'.Sound := by
  cases h with
  | stay => exact hsound
  | act ha hmove => exact hsound.move hmove
  | submit owner password ha => exact hsound.submit owner password
  | provision identityId hd hminted => exact hsound.minted hd identityId
  | condemn => exact hsound.condemn

theorem inv_step (h : Inv s) (hstep : s.step a = some s') : Inv s' := by
  intro k l' h'
  rcases step_get_inv hstep h' with ⟨l, hl, hchange⟩ | ⟨-, request, rfl⟩
  · exact hchange.sound (h k l hl)
  · exact QrLogin.Sound.new k request

/-! ## Outcomes -/

/-- A login that has an outcome keeps it. -/
def Settled (s s' : QrLogins) : Prop :=
  ∀ k l, s.logins.get k = some l → l.status.terminal = true →
    ∃ l', s'.logins.get k = some l' ∧ l'.status = l.status ∧ l'.identityId = l.identityId ∧
      l'.error = l.error

/-- The audit record of a login that has made its identity cannot be written. -/
def Unaudited (s : QrLogins) : Step → Prop
  | .act k (.audit false) => ∃ l, s.logins.get k = some l ∧ l.driver = .auditing
  | _ => False

theorem Settled.refl (s : QrLogins) : Settled s s :=
  fun _ l h _ => ⟨l, h, rfl, rfl, rfl⟩

theorem Settled.trans {t u : QrLogins} (h : Settled s t) (h' : Settled t u) : Settled s u := by
  intro k l hl hterminal
  obtain ⟨m, hm, hstatus, hid, herror⟩ := h k l hl hterminal
  obtain ⟨n, hn, hstatus', hid', herror'⟩ := h' k m hm (hstatus ▸ hterminal)
  exact ⟨n, hn, hstatus'.trans hstatus, hid'.trans hid, herror'.trans herror⟩

theorem Change.outcome (h : Change s s' a l l') (hsound : l.Sound)
    (hterminal : l.status.terminal = true) :
    l'.status = l.status ∧ l'.identityId = l.identityId ∧ l'.error = l.error ∨
      a = .act l.loginId (.audit false) ∧ l.driver = .auditing := by
  have hdriver := hsound.terminal hterminal
  cases h with
  | stay => exact Or.inl ⟨rfl, rfl, rfl⟩
  | act ha hmove =>
    cases hmove with
    | unaudited hd haction => exact Or.inr ⟨haction ▸ ha, hd⟩
    | cancelled hplace haction =>
      obtain ⟨driver, password, heq⟩ := QrLogin.cancel_eq l
      rw [heq]
      exact Or.inl ⟨rfl, rfl, rfl⟩
    | stay => exact Or.inl ⟨rfl, rfl, rfl⟩
    | expired url hd => rcases hd with hd | hd <;> simp [hd] at hdriver
    | raised text hd =>
      rcases hd with hd | hd | hd | ⟨identityId, text, hd, haction⟩ <;> simp [hd] at hdriver
    | _ => simp_all
  | submit owner password ha =>
    rw [QrLogin.submit]
    split <;> exact Or.inl ⟨rfl, rfl, rfl⟩
  | provision identityId hd hminted => simp [hd] at hdriver
  | condemn =>
    rw [QrLogin.condemn]
    split <;> exact Or.inl ⟨rfl, rfl, rfl⟩

/-- **Outcomes stand.** A login that is complete, failed or expired stays so, with the identity
and the error it had, exactly as long as no audit record fails. -/
theorem settled_iff_audited (identities : IdentityStore) (as : List Step) :
    Between step Settled (init identities) as ↔
      Along step (fun s a => ¬s.Unaudited a) (init identities) as := by
  obtain ⟨s', hrun⟩ := exists_run exists_step (init identities) as
  refine between_iff_along Settled.refl Settled.trans ?_ (inv_init identities) hrun
  intro s a s' hinv hstep
  refine ⟨inv_step hinv hstep, ?_, ?_⟩
  · intro hsettled hunaudited
    obtain ⟨k, l, rfl, hl, hd⟩ : ∃ k l, a = .act k (.audit false) ∧ s.logins.get k = some l ∧
        l.driver = .auditing := by
      unfold Unaudited at hunaudited
      split at hunaudited
      · next k =>
        obtain ⟨l, hl, hd⟩ := hunaudited
        exact ⟨k, l, rfl, hl, hd⟩
      · exact hunaudited.elim
    have hcomplete := (hinv k l hl).complete hd
    obtain ⟨l', hl', hstatus, -, -⟩ := hsettled k l hl (by rw [hcomplete]; rfl)
    rw [step_act_get hl hstep] at hl'
    obtain rfl := Option.some.inj hl'
    rw [hcomplete] at hstatus
    simp [QrLogin.act, hd, QrLogin.loginFailed] at hstatus
  · intro haudited k l hl hterminal
    obtain ⟨l', hl', hchange⟩ := step_get hstep hl
    rcases hchange.outcome (hinv k l hl) hterminal with hsame | ⟨rfl, hd⟩
    · exact ⟨l', hl', hsame⟩
    · rw [get_loginId hl] at haudited
      exact absurd ⟨l, hl, hd⟩ haudited

/-! ## Passwords -/

/-- No login of the registry has a password that is not going to be used. -/
def Forgotten (s : QrLogins) : Prop :=
  ∀ k l, s.logins.get k = some l → l.place = .listed → l.password ≠ none →
    l.driver = .awaiting ∨ ∃ password, l.driver = .signingIn password

/-- A password comes too late: the driver is behind the sign-in, though the status still asks for
one, or the driver gives up in the turn in which it comes. -/
def Late (s : QrLogins) : Step → Prop
  | .submit k owner _ => ∃ l, s.logins.get k = some l ∧ l.place = .listed ∧
      l.request.userId = owner ∧ l.status = .passwordNeeded ∧
      (l.driver = .minting ∨ ∃ identityId, l.driver = .minted identityId)
  | .act k .passwordTimeout => ∃ l, s.logins.get k = some l ∧ l.place = .listed ∧
      l.driver = .awaiting ∧ l.password ≠ none
  | _ => False

theorem Change.forgotten (h : Change s s' a l l') (hl : s.logins.get k = some l) (hsound : l.Sound)
    (hforgotten : l.place = .listed → l.password ≠ none →
      l.driver = .awaiting ∨ ∃ password, l.driver = .signingIn password)
    (hlate : ¬s.Late a) : l'.place = .listed → l'.password ≠ none →
      l'.driver = .awaiting ∨ ∃ password, l'.driver = .signingIn password := by
  have hk := get_loginId hl
  cases h with
  | stay => exact hforgotten
  | act ha hmove =>
    cases hmove with
    | cancelled hplace haction => simp
    | unanswered hd haction =>
      intro hplace hpassword
      rw [hk, haction] at ha
      subst ha
      exact absurd ⟨l, hl, hplace, hd, hpassword⟩ hlate
    | registered hstarted hplace => simp [hsound.unlisted hplace]
    | turned url hd =>
      intro hplace hpassword
      rcases hforgotten hplace hpassword with h | ⟨password, h⟩ <;> simp [h] at hd
    | expired url hd =>
      intro hplace hpassword
      rcases hforgotten hplace hpassword with h | ⟨password, h⟩ <;> simp [h] at hd
    | raised text hd =>
      intro hplace hpassword
      rcases hforgotten hplace hpassword with h | ⟨password, h⟩ <;> simp [h] at hd
    | _ => simp_all
  | submit owner password ha =>
    rw [QrLogin.submit]
    split
    · next hcond =>
      intro hplace hpassword
      have hengaged := hsound.needed (Or.inr hcond.1) hcond.2.2
      rw [hk] at ha
      subst ha
      have hpast : ¬(l.driver = .minting ∨ ∃ identityId, l.driver = .minted identityId) :=
        fun hd => hlate ⟨l, hl, hcond.1, hcond.2.1, hcond.2.2, hd⟩
      cases hd : l.driver <;> simp_all [Driver.engaged]
    · exact hforgotten
  | provision identityId hd hminted =>
    intro hplace hpassword
    rcases hforgotten hplace hpassword with h | ⟨password, h⟩ <;> simp [h] at hd
  | condemn =>
    rw [QrLogin.condemn]
    split
    · simp
    · exact hforgotten

/-- **Passwords are forgotten.** No login of the registry keeps a password that its driver is not
going to use or using, exactly as long as none comes too late. -/
theorem forgotten_iff (identities : IdentityStore) (as : List Step) :
    Throughout step Forgotten (init identities) as ↔
      Along step (fun s a => ¬s.Late a) (init identities) as := by
  obtain ⟨s', hrun⟩ := exists_run exists_step (init identities) as
  refine throughout_iff_along (I := fun s => Inv s ∧ s.Forgotten) And.right ?_ ?_
    ⟨inv_init identities, by rintro k l ⟨⟩⟩ hrun
  · rintro s a s' ⟨hinv, hforgotten⟩ hlate hstep
    refine ⟨inv_step hinv hstep, fun k l' h' => ?_⟩
    rcases step_get_inv hstep h' with ⟨l, hl, hchange⟩ | ⟨-, request, rfl⟩
    · exact hchange.forgotten hl (hinv k l hl) (hforgotten k l hl) hlate
    · simp [QrLogin.new]
  · rintro s a s' - hstep hforgotten hlate
    unfold Late at hlate
    split at hlate
    · next k owner password =>
      obtain ⟨l, hl, hplace, howner, hneeded, hd⟩ := hlate
      have hl' := step_submit_get hl hstep
      rw [QrLogin.submit, if_pos ⟨hplace, howner, hneeded⟩] at hl'
      have hd' := hforgotten k _ hl' hplace (Option.some_ne_none password)
      rcases hd with hd | ⟨identityId, hd⟩ <;> simp [hd] at hd'
    · next k =>
      obtain ⟨l, hl, hplace, hd, hpassword⟩ := hlate
      have hl' := step_act_get hl hstep
      simp only [QrLogin.act, hd] at hl'
      have hd' := hforgotten k _ hl' hplace hpassword
      simp at hd'
    · exact hlate

/-! ## Clients -/

/-- Every client that is connected has somebody to disconnect it: `start` or the driver, or the
one who took the login out. -/
def Closed (s : QrLogins) : Prop :=
  ∀ k l, s.logins.get k = some l → l.connected = true →
    l.driver ≠ .failed ∧ ¬(l.driver = .ended ∧ l.place = .dropped)

/-- The code cannot be had, or the second of the two `disconnect`s fails. -/
def Leaks (s : QrLogins) : Step → Prop
  | .act k (.qrLogin none _) => ∃ l, s.logins.get k = some l ∧ l.driver = .requesting
  | .act k (.disconnect false) => ∃ l, s.logins.get k = some l ∧ l.driver = .closing ∧
      l.place = .dropped ∧ l.connected = true
  | .act k (.drop false) => ∃ l, s.logins.get k = some l ∧ l.place = .dropping ∧
      l.driver = .ended ∧ l.connected = true
  | _ => False

theorem Change.closed (h : Change s s' a l l') (hl : s.logins.get k = some l) (hsound : l.Sound)
    (hclosed : l.connected = true → l.driver ≠ .failed ∧ ¬(l.driver = .ended ∧ l.place = .dropped))
    (hleaks : ¬s.Leaks a) : l'.connected = true →
      l'.driver ≠ .failed ∧ ¬(l'.driver = .ended ∧ l'.place = .dropped) := by
  have hk := get_loginId hl
  cases h with
  | stay => exact hclosed
  | act ha hmove =>
    rw [hk] at ha
    subst ha
    cases hmove with
    | refused hd => simp [hsound.unconnected hd]
    | codeless hd haction =>
      obtain ⟨now, rfl⟩ := haction
      exact absurd ⟨l, hl, hd⟩ hleaks
    | closed ok hd haction =>
      subst haction
      cases ok with
      | true => simp
      | false =>
        intro hconnected
        have hconnected' : l.connected = true := by simpa using hconnected
        refine ⟨by simp, fun hdropped => ?_⟩
        exact hleaks ⟨l, hl, hd, hdropped.2, hconnected'⟩
    | cancelled hplace haction =>
      have hstarted : l.started = true :=
        hsound.started (by rcases hplace with h | h <;> simp [h])
      intro hconnected
      refine ⟨?_, by simp⟩
      cases hd : l.driver <;> simp_all [QrLogin.cancel, QrLogin.started]
    | dropped ok hplace haction =>
      subst haction
      cases ok with
      | true => simp
      | false =>
        intro hconnected
        have hconnected' : l.connected = true := by simpa using hconnected
        refine ⟨(hclosed hconnected').1, fun hended => ?_⟩
        exact hleaks ⟨l, hl, hplace, hended.1, hconnected'⟩
    | _ => simp_all
  | submit owner password ha =>
    rw [QrLogin.submit]
    split <;> exact hclosed
  | provision identityId hd hminted => simp
  | condemn =>
    rw [QrLogin.condemn]
    split
    · next hplace =>
      intro hconnected
      exact ⟨(hclosed hconnected).1, by simp⟩
    · exact hclosed

/-- **Clients are disconnected.** Every connected client has somebody to disconnect it, exactly as
long as every login gets its code and the last call of `disconnect` for a client does not fail. -/
theorem closed_iff (identities : IdentityStore) (as : List Step) :
    Throughout step Closed (init identities) as ↔
      Along step (fun s a => ¬s.Leaks a) (init identities) as := by
  obtain ⟨s', hrun⟩ := exists_run exists_step (init identities) as
  refine throughout_iff_along (I := fun s => Inv s ∧ s.Closed) And.right ?_ ?_
    ⟨inv_init identities, by rintro k l ⟨⟩⟩ hrun
  · rintro s a s' ⟨hinv, hclosed⟩ hleaks hstep
    refine ⟨inv_step hinv hstep, fun k l' h' => ?_⟩
    rcases step_get_inv hstep h' with ⟨l, hl, hchange⟩ | ⟨-, request, rfl⟩
    · exact hchange.closed hl (hinv k l hl) (hclosed k l hl) hleaks
    · simp [QrLogin.new]
  · rintro s a s' ⟨hinv, -⟩ hstep hclosed hleaks
    unfold Leaks at hleaks
    split at hleaks
    · next k now =>
      obtain ⟨l, hl, hd⟩ := hleaks
      have hl' := step_act_get hl hstep
      simp only [QrLogin.act, hd] at hl'
      exact (hclosed k _ hl' ((hinv k l hl).connected hd)).1 rfl
    · next k =>
      obtain ⟨l, hl, hd, hplace, hconnected⟩ := hleaks
      have hl' := step_act_get hl hstep
      simp only [QrLogin.act, hd] at hl'
      exact (hclosed k _ hl' (by simp [hconnected])).2 ⟨rfl, hplace⟩
    · next k =>
      obtain ⟨l, hl, hplace, hd, hconnected⟩ := hleaks
      have hl' := step_act_get hl hstep
      simp only [QrLogin.act, if_pos hplace] at hl'
      exact (hclosed k _ hl' (by simp [hconnected])).2 ⟨hd, rfl⟩
    · exact hleaks

/-! ## Where passwords and identities come from -/

/-- The login has the password, or its driver signs in with it. -/
def Holds (s : QrLogins) (use : Uuid × String) : Prop :=
  ∃ l, s.logins.get use.1 = some l ∧ (l.password = some use.2 ∨ l.driver = .signingIn use.2)

/-- The owner of a login that asks for a password hands it in. -/
def HandedIn (s : QrLogins) (a : Step) (use : Uuid × String) : Prop :=
  ∃ l, s.logins.get use.1 = some l ∧ l.place = .listed ∧ l.status = .passwordNeeded ∧
    a = .submit use.1 l.request.userId use.2

theorem step_holds {use : Uuid × String} (hinv : Inv s) (hstep : s.step a = some s')
    (h' : s'.Holds use) : s.Holds use ∨ s.HandedIn a use := by
  obtain ⟨l', hl', huse⟩ := h'
  rcases step_get_inv hstep hl' with ⟨l, hl, hchange⟩ | ⟨-, request, rfl⟩
  · have hk := get_loginId hl
    have hkept : l.password = some use.2 ∨ l.driver = .signingIn use.2 → s.Holds use :=
      fun h => ⟨l, hl, h⟩
    cases hchange with
    | stay => exact Or.inl (hkept huse)
    | act ha hmove =>
      refine Or.inl (hkept ?_)
      cases hmove with
      | woken hd hevent =>
        have hsome := (hinv use.1 l hl).event (by rw [hd]; rfl) hevent
        obtain ⟨password, hpassword⟩ := Option.ne_none_iff_exists'.mp hsome
        simp_all
      | cancelled hplace haction =>
        cases hd : l.driver <;> simp_all [QrLogin.cancel]
      | _ => simp_all
    | submit owner password ha =>
      rw [QrLogin.submit] at huse
      split at huse
      · next hcond =>
        rcases huse with hpassword | hd
        · obtain rfl : password = use.2 := Option.some.inj hpassword
          exact Or.inr ⟨l, hl, hcond.1, hcond.2.2, by rw [ha, hk, hcond.2.1]⟩
        · exact Or.inl (hkept (Or.inr hd))
      · exact Or.inl (hkept huse)
    | provision identityId hd hminted =>
      refine Or.inl (hkept ?_)
      simp_all
    | condemn =>
      refine Or.inl (hkept ?_)
      rw [QrLogin.condemn] at huse
      split at huse <;> exact huse
  · simp [QrLogin.new] at huse

/-- **Whose password it is.** A driver signs in with a password that the owner of its login has
handed in, after the login asked for one. -/
theorem signed_in_with {identities : IdentityStore} {as : List Step} {password : String}
    (hrun : run step (init identities) as = some s) (hl : s.logins.get k = some l)
    (hd : l.driver = .signingIn password) :
    ∃ bs cs t m, as = bs ++ .submit k m.request.userId password :: cs ∧
      run step (init identities) bs = some t ∧ t.logins.get k = some m ∧
      m.place = .listed ∧ m.status = .passwordNeeded := by
  have horigin := exists_step_origin (I := Inv) (R := Holds) (P := HandedIn) (r := (k, password))
    inv_step step_holds (inv_init identities) hrun ⟨l, hl, Or.inr hd⟩
  rcases horigin with ⟨m, hm, -⟩ | ⟨bs, a, cs, t, rfl, ht, m, hm, hplace, hneeded, rfl⟩
  · cases hm
  · exact ⟨bs, cs, t, m, rfl, ht, hm, hplace, hneeded⟩

/-- A login whose password is asked for and handed in. -/
def signInRun : List Step :=
  [.begin 7 ⟨1, 2, "hash", "scout", 3, [], .monitor, 0, none, none⟩, .act 7 (.connect true),
    .act 7 (.qrLogin (some "tg://login") 0), .act 7 .register, .act 7 (.launch 0),
    .act 7 (.scan .passwordNeeded), .submit 7 1 "secret", .act 7 .wake]

theorem signed_in_with_secret :
    ∃ s, run step (init ⟨.empty, .empty⟩) signInRun = some s ∧
      ∃ bs cs t m, signInRun = bs ++ .submit 7 m.request.userId "secret" :: cs ∧
        run step (init ⟨.empty, .empty⟩) bs = some t ∧ t.logins.get 7 = some m ∧
        m.place = .listed ∧ m.status = .passwordNeeded :=
  ⟨_, rfl, signed_in_with rfl rfl rfl⟩

/-- The login is to tell of the identity, or tells of it. -/
def Told (l : QrLogin) (i : Uuid) : Prop := l.driver = .minted i ∨ l.identityId = some i

/-- The registry tells of every identity that a login has made, and of no other. -/
def Reported (s : QrLogins) : Prop :=
  ∀ k i, (i, k) ∈ s.minted ↔ ∃ l, s.logins.get k = some l ∧ Told l i

/-- The driver is cut off between the commit of an identity and its own note of it. -/
def CutOff (s : QrLogins) : Step → Prop
  | .act k (.provisionFails _) => ∃ l, s.logins.get k = some l ∧ ∃ i, l.driver = .minted i
  | .act k (.reap now) => ∃ l, s.logins.get k = some l ∧ (∃ i, l.driver = .minted i) ∧
      l.place = .listed ∧ l.reapable now = true
  | .act k .stop => ∃ l, s.logins.get k = some l ∧ (∃ i, l.driver = .minted i) ∧
      l.place = .condemned
  | _ => False

/-- A step makes no identity, or it makes one for a login whose driver is at that. -/
theorem step_minted (hstep : s.step a = some s') :
    s'.minted = s.minted ∨ ∃ k i l, s.logins.get k = some l ∧ l.driver = .minting ∧
      s'.minted = (i, k) :: s.minted ∧
      s'.logins.get k = some { l with driver := .minted i } := by
  cases a with
  | provision k i =>
    simp only [step] at hstep
    split at hstep
    · obtain rfl := Option.some.inj hstep
      exact Or.inl rfl
    · next l hl =>
      split_ifs at hstep with hd <;> obtain rfl := Option.some.inj hstep
      · rcases mint_logins s l i with ⟨hlogins, hminted⟩ | hsame
        · refine Or.inr ⟨k, i, l, hl, hd, hminted.trans (by rw [get_loginId hl]), ?_⟩
          have hput := get_put hl
            (show ({ l with driver := .minted i } : QrLogin).loginId = l.loginId from rfl) k
          rw [hlogins, hput, if_pos rfl]
        · exact Or.inl (by rw [hsame])
      · exact Or.inl rfl
  | begin loginId request =>
    simp only [step] at hstep
    split at hstep <;> obtain rfl := Option.some.inj hstep <;> exact Or.inl rfl
  | act loginId action =>
    simp only [step] at hstep
    split at hstep <;> obtain rfl := Option.some.inj hstep <;> exact Or.inl rfl
  | submit loginId owner password =>
    simp only [step] at hstep
    split at hstep <;> obtain rfl := Option.some.inj hstep <;> exact Or.inl rfl
  | shutdown =>
    obtain rfl := Option.some.inj hstep
    exact Or.inl rfl
  | elsewhere identities =>
    obtain rfl := Option.some.inj hstep
    exact Or.inl rfl

/-- Where no identity is made for a login and its driver is not cut off, it tells what it told. -/
theorem Change.told (h : Change s s' a l l') (hl : s.logins.get k = some l) (hsound : l.Sound)
    (hcut : ¬s.CutOff a) (hminted : ∀ i, s'.minted ≠ (i, k) :: s.minted) (i : Uuid) :
    Told l' i ↔ Told l i := by
  have hk := get_loginId hl
  cases h with
  | stay => exact Iff.rfl
  | act ha hmove =>
    rw [hk] at ha
    subst ha
    cases hmove with
    | completed identityId hd =>
      have hnone : l.identityId = none := by
        by_contra hsome
        have hdriver := hsound.identified hsome
        simp [hd] at hdriver
      simp [Told, hd, hnone]
    | raised text hd =>
      rcases hd with hd | hd | hd | ⟨identityId, text, hd, rfl⟩
      · simp [Told, hd]
      · simp [Told, hd]
      · simp [Told, hd]
      · exact absurd ⟨l, hl, identityId, hd⟩ hcut
    | cancelled hplace haction =>
      have hunminted : ∀ i, l.driver ≠ .minted i := by
        intro i hd
        rcases haction with ⟨now, rfl, hlisted, hreapable⟩ | ⟨rfl, hcondemned⟩
        · exact hcut ⟨l, hl, ⟨i, hd⟩, hlisted, hreapable⟩
        · exact hcut ⟨l, hl, ⟨i, hd⟩, hcondemned⟩
      cases hd : l.driver <;> simp_all [Told, QrLogin.cancel]
    | turned url hd => rcases hd with hd | hd <;> simp [Told, hd]
    | expired url hd => rcases hd with hd | hd <;> simp [Told, hd]
    | registered hstarted hplace => exact Iff.rfl
    | dropped ok hplace haction => exact Iff.rfl
    | _ => simp_all [Told]
  | submit owner password ha =>
    rw [QrLogin.submit]
    split <;> exact Iff.rfl
  | provision identityId hd hminted' => exact absurd (hk ▸ hminted') (hminted identityId)
  | condemn =>
    rw [QrLogin.condemn]
    split <;> exact Iff.rfl

/-- **Identities are reported.** The registry tells of the identities that its logins have made,
and of no others, exactly as long as no driver is cut off between the two. -/
theorem reported_iff (identities : IdentityStore) (as : List Step) :
    Throughout step Reported (init identities) as ↔
      Along step (fun s a => ¬s.CutOff a) (init identities) as := by
  obtain ⟨s', hrun⟩ := exists_run exists_step (init identities) as
  refine throughout_iff_along (I := fun s => Inv s ∧ s.Reported) And.right ?_ ?_
    ⟨inv_init identities, fun k i => by simp [init, Table.get_eq_some]⟩ hrun
  · rintro s a s' ⟨hinv, hreported⟩ hcut hstep
    refine ⟨inv_step hinv hstep, fun k i => ?_⟩
    -- where no identity is made for the login
    have hsame (hminted : ∀ i, s'.minted ≠ (i, k) :: s.minted) :
        (∃ l', s'.logins.get k = some l' ∧ Told l' i) ↔ (i, k) ∈ s.minted := by
      rw [hreported k i]
      refine ⟨?_, ?_⟩
      · rintro ⟨l', hl', htold⟩
        rcases step_get_inv hstep hl' with ⟨l, hl, hchange⟩ | ⟨-, request, rfl⟩
        · exact ⟨l, hl, (hchange.told hl (hinv k l hl) hcut hminted i).mp htold⟩
        · simp [Told, QrLogin.new] at htold
      · rintro ⟨l, hl, htold⟩
        obtain ⟨l', hl', hchange⟩ := step_get hstep hl
        exact ⟨l', hl', (hchange.told hl (hinv k l hl) hcut hminted i).mpr htold⟩
    rcases step_minted hstep with hminted | ⟨k', j, l, hl, hd, hminted, hl'⟩
    · rw [hminted, hsame fun i h => by simp [hminted] at h]
    · by_cases hk : k' = k
      · subst hk
        have hnone : l.identityId = none := by
          by_contra hsome
          have hdriver := (hinv k' l hl).identified hsome
          simp [hd] at hdriver
        have hnew : (i, k') ∉ s.minted := by
          rw [hreported k' i]
          rintro ⟨m, hm, htold⟩
          obtain rfl : l = m := Option.some.inj (hl.symm.trans hm)
          simp [Told, hd, hnone] at htold
        simp [hminted, hnew, hl', Told, hnone, eq_comm]
      · rw [hsame fun i h => hk (by simp_all), hminted, List.mem_cons]
        exact or_iff_right fun h => hk (Prod.mk.inj h).2.symm
  · rintro s a s' ⟨hinv, hreported⟩ hstep hreported' hcut
    -- the identity is there, and nobody is going to tell of it
    have hlost : ∀ {k l i action}, s.logins.get k = some l → l.driver = .minted i →
        a = .act k action → (l.act action).driver = .closing →
        (l.act action).identityId = l.identityId → False := by
      rintro k l i action hl hd rfl hclosing hid
      have hmem : (i, k) ∈ s'.minted := by
        have hthere := (hreported k i).mpr ⟨l, hl, Or.inl hd⟩
        rcases step_minted hstep with hminted | ⟨k', j, m, -, -, hminted, -⟩
        · exact hminted ▸ hthere
        · exact hminted ▸ List.mem_cons_of_mem _ hthere
      obtain ⟨l', hl', htold⟩ := (hreported' k i).mp hmem
      rw [step_act_get hl hstep] at hl'
      obtain rfl := Option.some.inj hl'
      rcases htold with hd' | hsome
      · simp [hclosing] at hd'
      · rw [hid] at hsome
        have hdriver := (hinv k l hl).identified (by simp [hsome])
        simp [hd] at hdriver
    unfold CutOff at hcut
    split at hcut
    · next k text =>
      obtain ⟨l, hl, i, hd⟩ := hcut
      exact hlost hl hd rfl (by simp [QrLogin.act, hd, QrLogin.provisionFailed])
        (by simp [QrLogin.act, hd, QrLogin.provisionFailed])
    · next k now =>
      obtain ⟨l, hl, ⟨i, hd⟩, hplace, hreapable⟩ := hcut
      exact hlost hl hd rfl (by simp [QrLogin.act, hd, hplace, hreapable, QrLogin.cancel])
        (by simp [QrLogin.act, hd, hplace, hreapable, QrLogin.cancel])
    · next k =>
      obtain ⟨l, hl, ⟨i, hd⟩, hplace⟩ := hcut
      exact hlost hl hd rfl (by simp [QrLogin.act, hd, hplace, QrLogin.cancel])
        (by simp [QrLogin.act, hd, hplace, QrLogin.cancel])
    · exact hcut

end QrLogins

end Eyenet
