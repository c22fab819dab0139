import Eyenet.Enums
import Eyenet.Machine
import Eyenet.Sha256

/-!
# Idempotency keys

A `POST` under `/v1/` that carries an `Idempotency-Key` first reserves the key
(`sqlmodel_repo/idempotency.py`). The winner runs the handler and keeps its response; whoever
finds the key taken gets that response again, or a conflict (`middleware/idempotency.py`). All
this happens before the request is authenticated.

The table is given by its statements, so that the same statements serve one request after the
other here and interleaved requests elsewhere. A record also remembers who inserted it, which
the real table does not.

* `reserveIdempotencyRecord_eq` — a reservation is decided by the live record of its key.
* `isolation_iff` — exactly when requests served one after the other do not see each other's
  responses.
-/

namespace Eyenet

open Machine

/-! ## The table -/

/-- The outcome of the bus publication. -/
inductive BusState where
  | pending
  | delivered
  deriving DecidableEq, Repr

/-- A row of `idempotency_record` with a JSON document of type `Doc`; times are instants. -/
structure IdempotencyRecordRow (ω Doc : Type) where
  key : String
  requestHash : String
  responseStatus : Option ℕ
  responseBody : Option Doc
  busState : BusState
  systemUserId : Option Uuid
  createdAt : ℤ
  expiresAt : ℤ
  /-- who inserted the row -/
  maker : ω
  deriving DecidableEq

/-- `_IDEMPOTENCY_TTL_SECONDS`, in microseconds: seven days. -/
def idempotencyTtl : ℤ := 7 * 24 * 3600 * 1000000

section Table

variable {ω Doc : Type}

/-- `is_finalized` -/
def IdempotencyRecordRow.isFinalized (r : IdempotencyRecordRow ω Doc) : Bool :=
  r.responseStatus.isSome

/-- `_expired` -/
def IdempotencyRecordRow.expired (now : ℤ) (r : IdempotencyRecordRow ω Doc) : Bool :=
  decide (r.expiresAt ≤ now)

/-- The row that `reserve_idempotency_record` inserts. -/
def reservation (key requestHash : String) (stamp ttl : ℤ) (maker : ω) :
    IdempotencyRecordRow ω Doc :=
  ⟨key, requestHash, none, none, .pending, none, stamp, stamp + ttl, maker⟩

/-- The row as `finalize_idempotency_record` leaves it. -/
def IdempotencyRecordRow.finalize (status : ℕ) (body : Doc) (r : IdempotencyRecordRow ω Doc) :
    IdempotencyRecordRow ω Doc :=
  { r with responseStatus := some status, responseBody := some body, busState := .delivered }

variable (table : List (IdempotencyRecordRow ω Doc))

/-- `SELECT` by key. -/
def getRecord (key : String) : Option (IdempotencyRecordRow ω Doc) :=
  table.find? fun r => r.key == key

/-- `INSERT`; `none` when the key is taken. -/
def insertRecord (row : IdempotencyRecordRow ω Doc) :
    Option (List (IdempotencyRecordRow ω Doc)) :=
  if (getRecord table row.key).isSome then none else some (row :: table)

/-- `DELETE` by key. -/
def deleteRecord (key : String) : List (IdempotencyRecordRow ω Doc) :=
  table.filter fun r => r.key != key

/-- `UPDATE` by key. -/
def updateRecord (key : String) (status : ℕ) (body : Doc) : List (IdempotencyRecordRow ω Doc) :=
  table.map fun r => if r.key = key then r.finalize status body else r

/-- `ReserveResult` -/
inductive ReserveResult (ω Doc : Type) where
  | won
  | lost (existing : Option (IdempotencyRecordRow ω Doc))

/-- One turn of the loop of `reserve_idempotency_record`; `none` when it goes around. -/
def reserveAttempt (row : IdempotencyRecordRow ω Doc) :
    Option (ReserveResult ω Doc) × List (IdempotencyRecordRow ω Doc) :=
  match insertRecord table row with
  | some table => (some .won, table)
  | none =>
    match getRecord table row.key with
    | none => (none, table)
    | some existing =>
      if existing.expired row.createdAt then (none, deleteRecord table row.key)
      else (some (.lost (some existing)), table)

/-- `reserve_idempotency_record`: two turns, then a conflict. -/
def reserveIdempotencyRecord (row : IdempotencyRecordRow ω Doc) :
    ReserveResult ω Doc × List (IdempotencyRecordRow ω Doc) :=
  match reserveAttempt table row with
  | (some result, table) => (result, table)
  | (none, table) =>
    match reserveAttempt table row with
    | (some result, table) => (result, table)
    | (none, table) => (.lost none, table)

/-- The record of the key, unless it is expired. -/
def liveRecord (key : String) (now : ℤ) : Option (IdempotencyRecordRow ω Doc) :=
  (getRecord table key).filter fun r => !r.expired now

end Table

section TableLemmas

variable {ω Doc : Type} {table table' : List (IdempotencyRecordRow ω Doc)}
variable {row r : IdempotencyRecordRow ω Doc} {key k : String} {now : ℤ}

theorem getRecord_mem (h : getRecord table key = some r) : r ∈ table ∧ r.key = key :=
  ⟨List.mem_of_find?_eq_some h, by simpa using List.find?_some h⟩

theorem getRecord_cons :
    getRecord (row :: table) k = if k = row.key then some row else getRecord table k := by
  simp only [getRecord, List.find?_cons]
  by_cases h : k = row.key
  · simp [h]
  · rw [beq_false_of_ne (Ne.symm h), if_neg h]

theorem getRecord_deleteRecord :
    getRecord (deleteRecord table key) k = if k = key then none else getRecord table k := by
  rw [getRecord, deleteRecord, List.find?_filter]
  by_cases h : k = key
  · rw [if_pos h, List.find?_eq_none]
    intro r _
    by_cases hr : r.key = key <;> simp [hr, h]
  · rw [if_neg h, getRecord]
    congr 1
    funext r
    by_cases hr : r.key = k <;> simp [hr, h]

theorem getRecord_updateRecord {status : ℕ} {body : Doc} :
    getRecord (updateRecord table key status body) k =
      if k = key then (getRecord table k).map (·.finalize status body)
      else getRecord table k := by
  induction table with
  | nil => simp [updateRecord, getRecord]
  | cons r table ih =>
    rw [show updateRecord (r :: table) key status body =
      (if r.key = key then r.finalize status body else r) ::
        updateRecord table key status body from rfl, getRecord_cons, getRecord_cons, ih]
    by_cases hr : r.key = key <;> by_cases hk : k = r.key <;>
      by_cases hkk : k = key <;> simp_all [IdempotencyRecordRow.finalize]

theorem insertRecord_eq_some :
    insertRecord table row = some table' ↔
      getRecord table row.key = none ∧ table' = row :: table := by
  cases hget : getRecord table row.key with
  | none => simp [insertRecord, hget, eq_comm]
  | some existing => simp [insertRecord, hget]

theorem deleteRecord_eq_self (h : getRecord table key = none) : deleteRecord table key = table := by
  rw [deleteRecord, List.filter_eq_self]
  intro r hr
  simpa [bne] using List.find?_eq_none.mp h r hr

theorem liveRecord_eq_some :
    liveRecord table key now = some r ↔ getRecord table key = some r ∧ r.expired now = false := by
  simp [liveRecord, Option.filter_eq_some_iff]

/-- A record only ceases to be live. -/
theorem liveRecord_later {later : ℤ} (h : now ≤ later) :
    liveRecord table key later = (liveRecord table key now).filter fun r => !r.expired later := by
  rw [liveRecord, liveRecord, Option.filter_filter]
  congr 1
  funext r
  rw [Bool.eq_iff_iff]
  simp only [IdempotencyRecordRow.expired, Bool.and_eq_true, Bool.not_eq_true',
    decide_eq_false_iff_not, not_le]
  omega

/-- **Reservation.** A live record keeps the key; otherwise whatever stands under the key gives
way. -/
theorem reserveIdempotencyRecord_eq :
    reserveIdempotencyRecord table row =
      match liveRecord table row.key row.createdAt with
      | some existing => (.lost (some existing), table)
      | none => (.won, row :: deleteRecord table row.key) := by
  have hinsert : ∀ {t : List (IdempotencyRecordRow ω Doc)}, getRecord t row.key = none →
      reserveAttempt t row = (some .won, row :: t) := by
    intro t ht
    simp [reserveAttempt, insertRecord, ht]
  cases hget : getRecord table row.key with
  | none =>
    simp [reserveIdempotencyRecord, hinsert hget, liveRecord, hget, deleteRecord_eq_self hget]
  | some existing =>
    cases hexp : existing.expired row.createdAt with
    | false =>
      simp [reserveIdempotencyRecord, reserveAttempt, insertRecord, liveRecord, hget, hexp,
        Option.filter_some]
    | true =>
      have hfirst : reserveAttempt table row = (none, deleteRecord table row.key) := by
        simp [reserveAttempt, insertRecord, hget, hexp]
      have hfree : getRecord (deleteRecord table row.key) row.key = none := by
        rw [getRecord_deleteRecord, if_pos rfl]
      simp [reserveIdempotencyRecord, hfirst, hinsert hfree, liveRecord, hget, hexp,
        Option.filter_some]

end TableLemmas

/-! ## The middleware -/

/-- A request as the middleware sees it. -/
structure Request where
  method : String
  path : String
  /-- names in lower case -/
  headers : List (String × String)
  body : Bytes
  deriving DecidableEq

/-- The first header of that name. -/
def Request.header (r : Request) (name : String) : Option String :=
  (r.headers.find? fun h => h.1 == name).map (·.2)

/-- The key of a guarded request, at most 128 characters of it. -/
def Request.idempotencyKey (r : Request) : Option String :=
  match r.header "idempotency-key" with
  | none => none
  | some value =>
    let key := String.ofList (value.toList.take 128)
    if r.method = "POST" ∧ "/v1/".toList <+: r.path.toList ∧ key ≠ "" then some key else none

/-- The credential that a request presents. -/
def Request.credential (r : Request) : Option String := r.header "authorization"

/-- `request_hash` -/
def Request.requestHash (r : Request) : String :=
  hex (Sha256.digest (utf8 r.method ++ utf8 " " ++ utf8 r.path ++ utf8 "\n" ++ r.body))

/-- A response with its JSON document. -/
structure Response (Doc : Type) where
  status : ℕ
  body : Doc
  deriving DecidableEq

/-- What a request is answered with. -/
inductive Answer (ω Doc : Type) where
  /-- the handler ran; `none` when it raised -/
  | handler (outcome : Option (Response Doc))
  /-- the stored response of a record -/
  | replay (existing : IdempotencyRecordRow ω Doc)
  /-- 409 -/
  | conflict (detail : String)
  deriving DecidableEq

section Middleware

variable {ω Doc : Type}

/-- `_handle_contended` -/
def handleContended (existing : Option (IdempotencyRecordRow ω Doc)) (requestHash : String) :
    Answer ω Doc :=
  match existing with
  | none => .conflict "idempotency reservation contended; retry"
  | some existing =>
    if existing.requestHash ≠ requestHash then
      .conflict "Idempotency-Key reused with a different request body"
    else if !existing.isFinalized then
      .conflict "a request with this Idempotency-Key is still in progress"
    else .replay existing

/-- A response that is stored. -/
def Response.isSuccess (r : Response Doc) : Bool := decide (200 ≤ r.status ∧ r.status < 300)

/-- `IdempotencyMiddleware.__call__` for a request that nobody interrupts; `outcome` is what the
handler answers if it runs. -/
def serve (ttl : ℤ) (table : List (IdempotencyRecordRow ω Doc)) (now : ℤ) (maker : ω)
    (r : Request) (outcome : Option (Response Doc)) :
    Answer ω Doc × List (IdempotencyRecordRow ω Doc) :=
  match r.idempotencyKey with
  | none => (.handler outcome, table)
  | some key =>
    match reserveIdempotencyRecord table (reservation key r.requestHash now ttl maker) with
    | (.lost existing, table) => (handleContended existing r.requestHash, table)
    | (.won, table) =>
      match outcome with
      | none => (.handler none, deleteRecord table key)
      | some response =>
        if response.isSuccess then
          (.handler outcome, updateRecord table key response.status response.body)
        else (.handler outcome, deleteRecord table key)

/-- What a request leaves under its key when its handler ran. -/
def stored (ttl : ℤ) (now : ℤ) (maker : ω) (r : Request) (key : String)
    (outcome : Option (Response Doc)) : Option (IdempotencyRecordRow ω Doc) :=
  match outcome with
  | none => none
  | some response =>
    if response.isSuccess then
      some ((reservation key r.requestHash now ttl maker).finalize response.status response.body)
    else none

variable {ttl now : ℤ} {table : List (IdempotencyRecordRow ω Doc)} {maker : ω} {r : Request}
variable {outcome : Option (Response Doc)} {key k : String}

/-- Under a taken key the handler does not run. -/
theorem serve_of_live {existing : IdempotencyRecordRow ω Doc} (hkey : r.idempotencyKey = some key)
    (hlive : liveRecord table key now = some existing) :
    serve ttl table now maker r outcome =
      (handleContended (some existing) r.requestHash, table) := by
  simp only [serve, hkey]
  rw [reserveIdempotencyRecord_eq, show (reservation key r.requestHash now ttl maker :
    IdempotencyRecordRow ω Doc).key = key from rfl, show (reservation key r.requestHash now ttl
    maker : IdempotencyRecordRow ω Doc).createdAt = now from rfl, hlive]

/-- Under a free key the handler runs, and the table changes at this key only. -/
theorem serve_of_free (hkey : r.idempotencyKey = some key)
    (hfree : liveRecord table key now = none) :
    (serve ttl table now maker r outcome).1 = .handler outcome ∧
      ∀ k, getRecord (serve ttl table now maker r outcome).2 k =
        if k = key then stored ttl now maker r key outcome else getRecord table k := by
  simp only [serve, hkey]
  rw [reserveIdempotencyRecord_eq, show (reservation key r.requestHash now ttl maker :
    IdempotencyRecordRow ω Doc).key = key from rfl, show (reservation key r.requestHash now ttl
    maker : IdempotencyRecordRow ω Doc).createdAt = now from rfl, hfree]
  have hrow :
      (reservation key r.requestHash now ttl maker : IdempotencyRecordRow ω Doc).key = key :=
    rfl
  cases outcome with
  | none =>
    refine ⟨rfl, fun k => ?_⟩
    simp only [getRecord_deleteRecord, getRecord_cons, hrow, stored]
    split <;> rfl
  | some response =>
    simp only [stored]
    split
    · refine ⟨rfl, fun k => ?_⟩
      simp only [getRecord_updateRecord, getRecord_deleteRecord, getRecord_cons, hrow]
      split <;> simp
    · refine ⟨rfl, fun k => ?_⟩
      simp only [getRecord_deleteRecord, getRecord_cons, hrow]
      split <;> rfl

theorem serve_of_no_key (hkey : r.idempotencyKey = none) :
    serve ttl table now maker r outcome = (.handler outcome, table) := by
  simp [serve, hkey]

theorem handleContended_ne_handler {existing : Option (IdempotencyRecordRow ω Doc)}
    {hash : String} : handleContended existing hash ≠ .handler outcome := by
  simp only [handleContended]
  split
  · simp
  · split
    · simp
    · split <;> simp

end Middleware

/-! ## One request after the other -/

/-- The clock and the table; a record remembers the request that made it. -/
structure Server (Doc : Type) where
  clock : ℤ
  table : List (IdempotencyRecordRow Request Doc)
  deriving DecidableEq

/-- What happens: time passes, or a request is served. -/
inductive Arrival (Doc : Type) where
  | tick (d : ℕ)
  /-- `outcome` is what the handler answers if it runs -/
  | post (r : Request) (outcome : Option (Response Doc))
  deriving DecidableEq

namespace Server

section Isolation

variable {Doc : Type} (ttl : ℤ)

/-- Nothing is stored yet. -/
def init (clock : ℤ) : Server Doc := ⟨clock, []⟩

/-- The server after an arrival. -/
def arrive (s : Server Doc) : Arrival Doc → Server Doc
  | .tick d => { s with clock := s.clock + d }
  | .post r outcome => { s with table := (serve ttl s.table s.clock r r outcome).2 }

/-- Requests with their answers, in order. -/
def answers (s : Server Doc) : List (Arrival Doc) → List (Request × Answer Request Doc)
  | [] => []
  | .tick d :: as => answers (s.arrive ttl (.tick d)) as
  | .post r outcome :: as =>
    (r, (serve ttl s.table s.clock r r outcome).1) ::
      answers (s.arrive ttl (.post r outcome)) as

/-- The arrivals without the requests of other credentials. -/
def only (c : Option String) (as : List (Arrival Doc)) : List (Arrival Doc) :=
  as.filter fun
    | .tick _ => true
    | .post r _ => r.credential == c

/-- A request meets no stored response of another credential: neither one that it would get, nor,
without a valid credential, any at all. -/
def Unshared (valid : Option String → Bool) (s : Server Doc) : Arrival Doc → Prop
  | .tick _ => True
  | .post r _ => ∀ key, r.idempotencyKey = some key →
    ∀ existing, liveRecord s.table key s.clock = some existing →
      existing.maker.credential ≠ r.credential →
        existing.requestHash ≠ r.requestHash ∧ valid r.credential

/-- The part of `Unshared` about replays. -/
def NoForeignReplay (s : Server Doc) : Arrival Doc → Prop
  | .tick _ => True
  | .post r _ => ∀ key, r.idempotencyKey = some key →
    ∀ existing, liveRecord s.table key s.clock = some existing →
      existing.requestHash = r.requestHash → existing.maker.credential = r.credential

/-- The part of `Unshared` about one credential. -/
def NoForeignRecord (c : Option String) (s : Server Doc) : Arrival Doc → Prop
  | .tick _ => True
  | .post r _ => r.credential = c → ∀ key, r.idempotencyKey = some key →
    ∀ existing, liveRecord s.table key s.clock = some existing →
      existing.maker.credential = c

theorem unshared_iff {valid : Option String → Bool} {s : Server Doc} {a : Arrival Doc} :
    s.Unshared valid a ↔
      s.NoForeignReplay a ∧ ∀ c, valid c = false → s.NoForeignRecord c a := by
  cases a with
  | tick d => simp [Unshared, NoForeignReplay, NoForeignRecord]
  | post r outcome =>
    refine ⟨?_, ?_⟩
    · refine fun h => ⟨fun key hkey existing hlive hhash => ?_, ?_⟩
      · by_contra hne
        exact (h key hkey existing hlive hne).1 hhash
      · rintro c hc rfl key hkey existing hlive
        by_contra hne
        have hvalid := (h key hkey existing hlive hne).2
        rw [hc] at hvalid
        exact Bool.false_ne_true hvalid
    · rintro ⟨hreplay, hrecord⟩ key hkey existing hlive hne
      refine ⟨fun hhash => hne (hreplay key hkey existing hlive hhash), ?_⟩
      by_contra hinvalid
      exact hne (hrecord _ (by simpa using hinvalid) rfl key hkey existing hlive)

/-! ### Replays -/

/-- Served one after the other, requests leave finalized records only. -/
def Settled (s : Server Doc) : Prop :=
  ∀ key existing, getRecord s.table key = some existing → existing.isFinalized

variable {ttl} {s s' : Server Doc} {c : Option String}

theorem Settled.arrive (h : s.Settled) (a : Arrival Doc) : (s.arrive ttl a).Settled := by
  cases a with
  | tick d => exact h
  | post r outcome =>
    intro k existing hget
    cases hkey : r.idempotencyKey with
    | none =>
      rw [Server.arrive, serve_of_no_key hkey] at hget
      exact h k existing hget
    | some key =>
      cases hlive : liveRecord s.table key s.clock with
      | some ρ =>
        rw [Server.arrive, serve_of_live hkey hlive] at hget
        exact h k existing hget
      | none =>
        rw [Server.arrive, (serve_of_free hkey hlive).2 k] at hget
        split at hget
        · simp only [stored] at hget
          split at hget
          · cases hget
          · split at hget
            · cases hget
              rfl
            · cases hget
        · exact h k existing hget

/-- The answer is a replay exactly of a live record made by the same request. -/
theorem serve_replay_iff (h : s.Settled) {r : Request} {outcome : Option (Response Doc)}
    {existing : IdempotencyRecordRow Request Doc} :
    (serve ttl s.table s.clock r r outcome).1 = .replay existing ↔
      ∃ key, r.idempotencyKey = some key ∧
        liveRecord s.table key s.clock = some existing ∧
        existing.requestHash = r.requestHash := by
  cases hkey : r.idempotencyKey with
  | none => simp [serve_of_no_key hkey]
  | some key =>
    cases hlive : liveRecord s.table key s.clock with
    | none => simp [(serve_of_free hkey hlive).1, hlive]
    | some ρ =>
      have hfin : ρ.isFinalized := h key ρ (liveRecord_eq_some.mp hlive).1
      rw [serve_of_live hkey hlive]
      by_cases hhash : ρ.requestHash = r.requestHash
      · simp only [handleContended, hhash, hfin, ne_eq, not_true_eq_false, Bool.not_true,
          Bool.false_eq_true, if_false, Answer.replay.injEq, Option.some.injEq, exists_eq_left',
          hlive]
        refine ⟨?_, ?_⟩
        · rintro rfl
          exact ⟨rfl, hhash⟩
        · exact fun hρ => hρ.1
      · simp only [handleContended, hhash, ne_eq, not_false_eq_true, if_true, reduceCtorEq,
          Option.some.injEq, exists_eq_left', hlive, false_iff, not_and]
        rintro rfl
        exact hhash

/-- The replays go to the credential that produced them exactly when no request meets a foreign
response to itself. -/
theorem replays_iff (h : s.Settled) (as : List (Arrival Doc)) :
    (∀ x ∈ answers ttl s as, ∀ existing, x.2 = .replay existing →
        existing.maker.credential = x.1.credential) ↔
      Along (fun s a => some (s.arrive ttl a)) NoForeignReplay s as := by
  induction as generalizing s with
  | nil => simp [answers]
  | cons a as ih =>
    have hnext : (s.arrive ttl a).Settled := h.arrive a
    have htail := ih hnext
    rw [along_cons]
    cases a with
    | tick d => simpa [answers, NoForeignReplay] using htail
    | post r outcome =>
      simp only [answers, List.forall_mem_cons, Option.some.injEq, forall_eq']
      refine and_congr ?_ htail
      simp only [serve_replay_iff h, NoForeignReplay]
      refine ⟨?_, ?_⟩
      · exact fun hall key hkey existing hlive hhash => hall existing ⟨key, hkey, hlive, hhash⟩
      · rintro hall existing ⟨key, hkey, hlive, hhash⟩
        exact hall key hkey existing hlive hhash

/-! ### What one credential sees -/

/-- `s'` holds exactly the live records of `s` that the credential `c` made. -/
structure Sees (c : Option String) (s s' : Server Doc) : Prop where
  clock : s'.clock = s.clock
  live : ∀ k, liveRecord s'.table k s.clock =
    (liveRecord s.table k s.clock).filter fun ρ => ρ.maker.credential == c

theorem Sees.tick (h : Sees c s s') (d : ℕ) :
    Sees c (s.arrive ttl (.tick d)) (s'.arrive ttl (.tick d)) where
  clock := by simp [Server.arrive, h.clock]
  live := by
    intro k
    have hle : s.clock ≤ s.clock + d := by simp
    simp only [Server.arrive]
    rw [liveRecord_later hle, liveRecord_later hle, h.live k, Option.filter_filter,
      Option.filter_filter]
    congr 1
    funext ρ
    exact Bool.and_comm _ _

/-- The live records after a handler ran. -/
theorem liveRecord_arrive {r : Request} {outcome : Option (Response Doc)} {key : String}
    (hkey : r.idempotencyKey = some key) (hfree : liveRecord s.table key s.clock = none)
    (k : String) :
    liveRecord (s.arrive ttl (.post r outcome)).table k s.clock =
      if k = key then (stored ttl s.clock r r key outcome).filter fun ρ => !ρ.expired s.clock
      else liveRecord s.table k s.clock := by
  simp only [liveRecord, Server.arrive, (serve_of_free hkey hfree).2 k]
  split <;> rfl

theorem stored_maker {r : Request} {outcome : Option (Response Doc)} {key : String}
    {ρ : IdempotencyRecordRow Request Doc} {now : ℤ}
    (h : stored ttl now r r key outcome = some ρ) : ρ.maker = r := by
  simp only [stored] at h
  split at h
  · cases h
  · split at h
    · cases h
      rfl
    · cases h

/-- Others' requests do not change what `c` sees. -/
theorem Sees.other (h : Sees c s s') {r : Request} (outcome : Option (Response Doc))
    (hne : r.credential ≠ c) : Sees c (s.arrive ttl (.post r outcome)) s' where
  clock := h.clock
  live := by
    intro k
    cases hkey : r.idempotencyKey with
    | none =>
      rw [Server.arrive, serve_of_no_key hkey]
      exact h.live k
    | some key =>
      cases hlive : liveRecord s.table key s.clock with
      | some ρ =>
        rw [Server.arrive, serve_of_live hkey hlive]
        exact h.live k
      | none =>
        rw [show (s.arrive ttl (.post r outcome)).clock = s.clock from rfl,
          liveRecord_arrive hkey hlive, h.live k]
        by_cases hk : k = key
        · -- what the others store under the key is not seen
          rw [if_pos hk, hk, hlive]
          refine (Option.filter_eq_none_iff.mpr fun ρ hρ => ?_).symm
          have hmaker : ρ.maker = r := stored_maker (Option.filter_eq_some_iff.mp hρ).1
          simpa [hmaker] using hne
        · rw [if_neg hk]

/-- A request of `c` that meets no foreign record is served as if the others were not there. -/
theorem Sees.own (h : Sees c s s') {r : Request} (outcome : Option (Response Doc))
    (hc : r.credential = c)
    (hown : ∀ key, r.idempotencyKey = some key →
      ∀ ρ, liveRecord s.table key s.clock = some ρ → ρ.maker.credential = c) :
    (serve ttl s.table s.clock r r outcome).1 = (serve ttl s'.table s'.clock r r outcome).1 ∧
      Sees c (s.arrive ttl (.post r outcome)) (s'.arrive ttl (.post r outcome)) := by
  cases hkey : r.idempotencyKey with
  | none =>
    simp only [Server.arrive, serve_of_no_key hkey, true_and]
    exact ⟨h.clock, h.live⟩
  | some key =>
    have hsame := h.live key
    cases hlive : liveRecord s.table key s.clock with
    | some ρ =>
      have hlive' : liveRecord s'.table key s'.clock = some ρ := by
        rw [h.clock, hsame, hlive, Option.filter_some,
          if_pos (by simpa using hown key hkey ρ hlive)]
      simp only [Server.arrive, serve_of_live hkey hlive, serve_of_live hkey hlive', true_and]
      exact ⟨h.clock, h.live⟩
    | none =>
      have hfree : liveRecord s'.table key s'.clock = none := by
        rw [h.clock, hsame, hlive, Option.filter_none]
      refine ⟨?_, h.clock, fun k => ?_⟩
      · rw [(serve_of_free hkey hlive).1, (serve_of_free hkey hfree).1]
      · rw [show (s.arrive ttl (.post r outcome)).clock = s.clock from rfl,
          liveRecord_arrive hkey hlive, ← h.clock, liveRecord_arrive hkey hfree, h.clock]
        by_cases hk : k = key
        · rw [if_pos hk, if_pos hk]
          cases hst : (stored ttl s.clock r r key outcome).filter fun ρ => !ρ.expired s.clock with
          | none => rfl
          | some ρ =>
            have hmaker : ρ.maker = r := stored_maker (Option.filter_eq_some_iff.mp hst).1
            rw [Option.filter_some, if_pos (by simpa [hmaker] using hc)]
        · rw [if_neg hk, if_neg hk, h.live k]

/-- A request of `c` that meets a foreign record is answered otherwise than without the others. -/
theorem Sees.foreign (h : Sees c s s') {r : Request} (outcome : Option (Response Doc))
    {key : String} {ρ : IdempotencyRecordRow Request Doc} (hkey : r.idempotencyKey = some key)
    (hlive : liveRecord s.table key s.clock = some ρ) (hne : ρ.maker.credential ≠ c) :
    (serve ttl s.table s.clock r r outcome).1 ≠ (serve ttl s'.table s'.clock r r outcome).1 := by
  have hfree : liveRecord s'.table key s'.clock = none := by
    rw [h.clock, h.live key, hlive, Option.filter_some, if_neg (by simpa using hne)]
  rw [serve_of_live hkey hlive, (serve_of_free hkey hfree).1]
  dsimp only
  exact handleContended_ne_handler

/-- The requests of `c` are answered as if there were no others exactly when none of them meets a
foreign record. -/
theorem Sees.answers_iff (h : Sees c s s') (as : List (Arrival Doc)) :
    ((answers ttl s as).filter fun x => x.1.credential == c) = answers ttl s' (only c as) ↔
      Along (fun s a => some (s.arrive ttl a)) (NoForeignRecord c) s as := by
  induction as generalizing s s' with
  | nil => simp [answers, only]
  | cons a as ih =>
    rw [along_cons]
    simp only [Option.some.injEq, forall_eq']
    cases a with
    | tick d => simpa [answers, only, NoForeignRecord] using ih (h.tick d)
    | post r outcome =>
      by_cases hc : r.credential = c
      · have hlog : ((answers ttl s (.post r outcome :: as)).filter fun x => x.1.credential == c) =
            (r, (serve ttl s.table s.clock r r outcome).1) ::
              (answers ttl (s.arrive ttl (.post r outcome)) as).filter
                fun x => x.1.credential == c := by
          simp [answers, hc]
        have hown : answers ttl s' (only c (.post r outcome :: as)) =
            (r, (serve ttl s'.table s'.clock r r outcome).1) ::
              answers ttl (s'.arrive ttl (.post r outcome)) (only c as) := by
          simp [answers, only, hc]
        rw [hlog, hown, List.cons.injEq, Prod.mk.injEq]
        by_cases hmeet : NoForeignRecord c s (.post r outcome)
        · have hseen : _ ∧ Sees c (s.arrive ttl (.post r outcome)) _ :=
            h.own outcome hc (hmeet hc)
          obtain ⟨hans, hsees⟩ := hseen
          simp only [hans, true_and, hmeet]
          exact ih hsees
        · simp only [hmeet, false_and, iff_false]
          simp only [NoForeignRecord, not_forall] at hmeet
          obtain ⟨-, key, hkey, ρ, hlive, hne⟩ := hmeet
          exact fun heq => h.foreign outcome hkey hlive hne heq.1.2
      · have hskip : NoForeignRecord c s (.post r outcome) := fun heq => absurd heq hc
        simpa [answers, only, hc, hskip] using ih (h.other outcome hc)

theorem sees_init (clock : ℤ) : Sees c (init clock : Server Doc) (init clock) :=
  ⟨rfl, fun _ => rfl⟩

/-! ### Isolation -/

/-- **Isolation.** Every replay goes to the credential that produced the response and the requests
without a valid credential are answered as if nobody else were there, exactly when no request meets
a stored response of another credential. -/
theorem isolation_iff (ttl clock : ℤ) (valid : Option String → Bool) (as : List (Arrival Doc)) :
    ((∀ x ∈ answers ttl (init clock) as, ∀ existing, x.2 = .replay existing →
        existing.maker.credential = x.1.credential) ∧
      ∀ c, valid c = false →
        ((answers ttl (init clock) as).filter fun x => x.1.credential == c) =
          answers ttl (init clock) (only c as)) ↔
      Along (fun s a => some (arrive ttl s a)) (Unshared valid) (init clock) as := by
  have hsettled : (init clock : Server Doc).Settled := nofun
  calc
    _ ↔ Along (fun s a => some (arrive ttl s a)) NoForeignReplay (init clock) as ∧
        ∀ c, valid c = false →
          Along (fun s a => some (arrive ttl s a)) (NoForeignRecord c) (init clock) as :=
      and_congr (replays_iff hsettled as) <| forall_congr' fun c => imp_congr_right fun _ =>
        (sees_init clock).answers_iff as
    _ ↔ Along (fun s a => some (arrive ttl s a)) (fun s a => NoForeignReplay s a ∧
          ∀ c, valid c = false → NoForeignRecord c s a) (init clock) as := by
      rw [along_and, along_forall]
      simp only [along_forall]
    _ ↔ _ := along_congr fun s a => unshared_iff.symm

/-- An operator's request, and the same request without the credential. -/
def confirmRequest (credential : List (String × String)) : Request :=
  ⟨"POST", "/v1/linkages/1/confirm", ("idempotency-key", "k") :: credential, utf8 "\x7b\x7d"⟩

/-- The stored response goes to a request without any credential, which alone would be refused. -/
theorem replayed_without_credential :
    ∃ existing, answers idempotencyTtl (init 0)
        [.post (confirmRequest [("authorization", "Bearer a")]) (some ⟨202, "applied"⟩),
          .post (confirmRequest []) (some ⟨401, "unauthorized"⟩)] =
        [(confirmRequest [("authorization", "Bearer a")], .handler (some ⟨202, "applied"⟩)),
          (confirmRequest [], .replay existing)] ∧
      existing.maker.credential = some "Bearer a" ∧ (confirmRequest []).credential = none ∧
      answers idempotencyTtl (init 0) [.post (confirmRequest []) (some ⟨401, "unauthorized"⟩)] =
        [(confirmRequest [], .handler (some ⟨401, "unauthorized"⟩))] := by
  refine ⟨⟨"k", (confirmRequest []).requestHash, some 202, some "applied", .delivered, none, 0,
    idempotencyTtl, confirmRequest [("authorization", "Bearer a")]⟩, ?_⟩
  decide +kernel

end Isolation

end Server

end Eyenet
