import Eyenet.Calls
import Eyenet.EventLog
import Eyenet.Machine

/-!
# The event stream of one client

Operator writes allocate an event id, audit, append to the event log and publish
(`api/v1/_writes.py`), any number of them at once. One client of the linkage and persona topics
connects, receives, and reconnects with the last id it received; a connection first replays the
log after that id, then tails the bus, skipping what the replay has already sent
(`api/streaming/sse.py`). A label is one step of one writer or of the client's connection, and a
run is any interleaving of them.

* `StreamState.Unbroken` — no step leaves an event behind: a connection ends only when the client
  can still ask for everything it misses, and so on.
* `delivered_of_unbroken` — no run delivers an event twice over one connection; along unbroken runs
  a client that is up to date has received every event appended since it first connected.
-/

namespace Eyenet

open Machine EventLogs

/-! ## Writers and connections -/

/-- Where an operator write stands. -/
inductive WritePhase where
  /-- the event id is allocated; about to audit -/
  | allocated (r : EventLogRow)
  /-- audited; about to append to the event log -/
  | audited (r : EventLogRow)
  /-- appended; about to publish -/
  | appended (r : EventLogRow)
  /-- answered, refused or failed -/
  | done
  deriving DecidableEq

/-- The event of a write that is not over. -/
def WritePhase.event : WritePhase → Option EventLogRow
  | allocated r => some r
  | audited r => some r
  | appended r => some r
  | done => none

/-- The event that is not in the log yet. -/
def WritePhase.draft : WritePhase → Option EventLogRow
  | allocated r => some r
  | audited r => some r
  | _ => none

/-- The event that is in the log and not published yet. -/
def WritePhase.unpublished : WritePhase → Option EventLogRow
  | appended r => some r
  | _ => none

/-- What a connection is doing. -/
inductive ConnectionMode where
  /-- about to fetch the events after the cursor -/
  | replaying (cursor : Uuid)
  /-- sending a page; `full` when more pages may follow -/
  | sending (page : List Uuid) (full : Bool)
  /-- `_live_phase` -/
  | live
  deriving DecidableEq

/-- An empty page ends the replay. -/
def ConnectionMode.afterFetch (limit : ℕ) (page : List Uuid) : ConnectionMode :=
  if page = [] then live else sending page (decide (limit ≤ page.length))

/-- The rest of the page; after the last event of a full page, the next page. -/
def ConnectionMode.afterSend (e : Uuid) (page : List Uuid) (full : Bool) : ConnectionMode :=
  if page = [] then (if full then replaying e else live) else sending page full

/-- The connection of the client, with the events that wait for it on the bus. -/
structure StreamConnection where
  number : ℕ
  mode : ConnectionMode
  queue : List Uuid
  seen : List Uuid
  overflow : Bool
  deriving DecidableEq

/-- `_on_msg`; a maximal size of zero is no bound. -/
def StreamConnection.onMsg (hwm : ℕ) (conn : StreamConnection) (eventId : Uuid) :
    StreamConnection :=
  if 0 < hwm ∧ hwm ≤ conn.queue.length then { conn with overflow := true }
  else { conn with queue := conn.queue ++ [eventId] }

/-- The event logs, the writers and the client. -/
structure StreamState where
  logs : EventLogs
  writers : Calls WritePhase
  /-- the event ids allocated so far -/
  allocated : List Uuid
  /-- the number of connections so far -/
  connections : ℕ
  conn : Option StreamConnection
  /-- the id of the last event that the client has received -/
  lastEventId : Option Uuid
  /-- the events appended since the first connection -/
  tracked : List Uuid
  /-- connections and the events received over them -/
  received : List (ℕ × Uuid)

/-- One step of a writer or of the client's connection. -/
inductive StreamStep where
  /-- `uuid7` -/
  | allocate (w : ℕ) (r : EventLogRow)
  /-- the audit gate, open or not -/
  | audit (w : ℕ) (ok : Bool)
  /-- `append_linkage_event` or `append_persona_event`, when it does not fail -/
  | append (w : ℕ) (ok : Bool)
  /-- publication, which may fail -/
  | publish (w : ℕ) (ok : Bool)
  /-- the client connects, with the last id it has received -/
  | connect
  /-- the next page of the replay -/
  | fetch
  /-- one event of the page goes to the client -/
  | send
  /-- one turn of `_live_phase` -/
  | tail
  /-- either side ends the connection -/
  | disconnect
  deriving DecidableEq

/-- The topics of the client. -/
def clientTopics : List StreamTopic := [.linkage, .persona]

namespace StreamState

/-- An empty log and no connection. -/
def init : StreamState := ⟨.empty, [], [], 0, none, none, [], []⟩

/-- A writer moves on. -/
def put (s : StreamState) (w : ℕ) (p : WritePhase) : StreamState :=
  { s with writers := s.writers.put w p }

/-- The client receives an event; what is sent and not received is as good as not sent. -/
def receive (s : StreamState) (conn : StreamConnection) (eventId : Uuid) : StreamState :=
  { s with
    conn := some conn
    lastEventId := some eventId
    received := (conn.number, eventId) :: s.received }

/-- One step; `none` where it cannot happen. -/
def step (limit hwm : ℕ) (s : StreamState) : StreamStep → Option StreamState
  | .allocate w r =>
    if s.writers.phase w = none ∧ r.eventId ∉ s.allocated ∧ r.log ≠ .identity then
      some { s.put w (.allocated r) with allocated := r.eventId :: s.allocated }
    else none
  | .audit w ok =>
    match s.writers.phase w with
    | some (.allocated r) => some (s.put w (if ok then .audited r else .done))
    | _ => none
  | .append w ok =>
    match s.writers.phase w with
    | some (.audited r) =>
      if ok then
        some { s.put w (.appended r) with
          logs := s.logs.appendEvent r
          tracked := if s.connections = 0 then s.tracked else r.eventId :: s.tracked }
      else some (s.put w .done)
    | _ => none
  | .publish w ok =>
    match s.writers.phase w with
    | some (.appended r) =>
      some { s.put w .done with
        conn := if ok then s.conn.map (·.onMsg hwm r.eventId) else s.conn }
    | _ => none
  | .connect =>
    match s.conn with
    | some _ => none
    | none =>
      some { s with
        connections := s.connections + 1
        conn := some ⟨s.connections + 1, s.lastEventId.elim .live .replaying, [], [], false⟩ }
  | .fetch =>
    match s.conn with
    | some ⟨number, .replaying cursor, queue, seen, overflow⟩ =>
      let page := (s.logs.replay clientTopics (some cursor) limit).map EventLogRow.eventId
      some { s with conn := some ⟨number, .afterFetch limit page, queue, seen, overflow⟩ }
    | _ => none
  | .send =>
    match s.conn with
    | some ⟨number, .sending (e :: page) full, queue, seen, overflow⟩ =>
      some (s.receive ⟨number, .afterSend e page full, queue, e :: seen, overflow⟩ e)
    | _ => none
  | .tail =>
    match s.conn with
    | some ⟨_, .live, _, _, true⟩ => some { s with conn := none }
    | some ⟨number, .live, e :: queue, seen, false⟩ =>
      if e ∈ seen then some { s with conn := some ⟨number, .live, queue, seen, false⟩ }
      else some (s.receive ⟨number, .live, queue, seen, false⟩ e)
    | _ => none
  | .disconnect =>
    match s.conn with
    | some _ => some { s with conn := none }
    | none => none

/-- Appended and not published yet. -/
def Unpublished (s : StreamState) (e : Uuid) : Prop :=
  ∃ x ∈ s.writers, ∃ r ∈ x.2.unpublished, r.eventId = e

/-- The client has received the event. -/
def Delivered (s : StreamState) (e : Uuid) : Prop := ∃ x ∈ s.received, x.2 = e

/-- An event whose publication is over, and which the client should have and has not. -/
def Missing (s : StreamState) (e : Uuid) : Prop :=
  e ∈ s.tracked ∧ ¬ s.Delivered e ∧ ¬ s.Unpublished e

/-- The client can still ask for the event. -/
def Resumable (s : StreamState) (e : Uuid) : Prop := ∃ l ∈ s.lastEventId, l < e

/-- The connection is live with nothing waiting, and no publication is due. -/
def UpToDate (s : StreamState) : Prop :=
  (∃ conn ∈ s.conn, conn.mode = .live ∧ conn.queue = [] ∧ conn.overflow = false) ∧
    ∀ x ∈ s.writers, x.2.unpublished = none

end StreamState

/-- The connection will yet send the event from the log. -/
def ConnectionMode.Coming : ConnectionMode → Uuid → Prop
  | replaying cursor, e => cursor < e
  | sending page full, e => e ∈ page ∨ full = true ∧ ∃ last ∈ page.getLast?, last < e
  | live, _ => False

instance ConnectionMode.decidableComing : ∀ (mode : ConnectionMode) e, Decidable (mode.Coming e)
  | replaying _, _ => inferInstanceAs (Decidable (_ < _))
  | sending page full, e =>
    decidable_of_iff (e ∈ page ∨ full = true ∧ page.getLast?.any (· < e))
      (by simp [Coming, Option.any_eq_true])
  | live, _ => inferInstanceAs (Decidable False)

/-- The connection will yet send the event if nothing ends it. -/
def StreamConnection.Coming (conn : StreamConnection) (e : Uuid) : Prop :=
  e ∈ conn.queue ∨ conn.mode.Coming e

instance (conn : StreamConnection) (e : Uuid) : Decidable (conn.Coming e) :=
  inferInstanceAs (Decidable (_ ∨ _))

namespace StreamState

/-- The client can still get the event whose publication ends like this. -/
def Recoverable (s : StreamState) (ok : Bool) (e : Uuid) : Prop :=
  match s.conn with
  | none => s.Resumable e
  | some conn => ok = true ∨ conn.overflow = true ∨ conn.Coming e

/-- No step leaves a missing event behind: when a connection ends the client can still ask for
whatever it misses, and when a publication is over without a connection, or has failed during one,
the event will be replayed. -/
def Unbroken (s : StreamState) : StreamStep → Prop
  | .publish w ok => ∀ p ∈ s.writers.phase w, ∀ r ∈ p.unpublished,
    r.eventId ∈ s.tracked → ¬ s.Delivered r.eventId → s.Recoverable ok r.eventId
  | .tail => ∀ conn ∈ s.conn, conn.overflow = true → ∀ e ∈ s.tracked, s.Missing e → s.Resumable e
  | .disconnect => ∀ e ∈ s.tracked, s.Missing e → s.Resumable e
  | _ => True

section Decidable

variable (s : StreamState) (e : Uuid)

instance : Decidable (s.Unpublished e) :=
  inferInstanceAs (Decidable (∃ x ∈ s.writers, ∃ r ∈ x.2.unpublished, r.eventId = e))

instance : Decidable (s.Delivered e) :=
  inferInstanceAs (Decidable (∃ x ∈ s.received, x.2 = e))

instance : Decidable (s.Missing e) :=
  inferInstanceAs (Decidable (_ ∧ ¬ _ ∧ ¬ _))

instance : Decidable (s.Resumable e) :=
  decidable_of_iff (s.lastEventId.any (· < e)) (by simp [Resumable, Option.any_eq_true])

/-- Whether every tracked event has a property; there are too many ids to try them all. -/
instance decidableTracked (P : Uuid → Prop) [DecidablePred P] :
    Decidable (∀ e ∈ s.tracked, P e) := List.decidableBAll P s.tracked

instance : Decidable s.UpToDate :=
  inferInstanceAs (Decidable ((∃ conn ∈ s.conn, _ ∧ _ ∧ _) ∧ ∀ x ∈ s.writers, _))

instance (ok : Bool) : Decidable (s.Recoverable ok e) :=
  match h : s.conn with
  | none => decidable_of_iff (s.Resumable e) (by simp [Recoverable, h])
  | some conn =>
    decidable_of_iff (ok = true ∨ conn.overflow = true ∨ conn.Coming e) (by simp [Recoverable, h])

instance : ∀ a, Decidable (s.Unbroken a)
  | .publish w ok => inferInstanceAs (Decidable (∀ p ∈ s.writers.phase w, ∀ r ∈ p.unpublished,
      r.eventId ∈ s.tracked → ¬ s.Delivered r.eventId → s.Recoverable ok r.eventId))
  | .tail =>
    have := s.decidableTracked fun e => s.Missing e → s.Resumable e
    inferInstanceAs (Decidable (∀ conn ∈ s.conn, conn.overflow = true →
      ∀ e ∈ s.tracked, s.Missing e → s.Resumable e))
  | .disconnect => s.decidableTracked fun e => s.Missing e → s.Resumable e
  | .allocate .. | .audit .. | .append .. | .connect | .fetch | .send =>
    inferInstanceAs (Decidable True)

end Decidable

/-! ## The writers -/

/-- The ids in the event log. -/
def ids (s : StreamState) : List Uuid := s.logs.rows.map EventLogRow.eventId

/-- Every id belongs to one write, which appends it once. -/
structure Sound (s : StreamState) : Prop where
  keyed : s.writers.Keyed
  ids_nodup : s.ids.Nodup
  ids_allocated : ∀ e ∈ s.ids, e ∈ s.allocated
  row_log : ∀ r ∈ s.logs.rows, r.log ≠ .identity
  event : ∀ x ∈ s.writers, ∀ r ∈ x.2.event, r.log ≠ .identity ∧ r.eventId ∈ s.allocated
  draft : ∀ x ∈ s.writers, ∀ r ∈ x.2.draft, r.eventId ∉ s.ids
  unpublished : ∀ x ∈ s.writers, ∀ r ∈ x.2.unpublished, r.eventId ∈ s.ids
  distinct : ∀ x ∈ s.writers, ∀ y ∈ s.writers, ∀ r ∈ x.2.event, ∀ q ∈ y.2.event,
    r.eventId = q.eventId → x.1 = y.1
  tracked : ∀ e ∈ s.tracked, e ∈ s.ids

/-- What is received and what is on its way. -/
structure Connected (s : StreamState) (conn : StreamConnection) : Prop where
  number : conn.number ≤ s.connections
  seen : ∀ e ∈ conn.seen, (conn.number, e) ∈ s.received
  queue_nodup : conn.queue.Nodup
  queued : ∀ e ∈ conn.queue, e ∈ s.ids ∧ ¬ s.Unpublished e ∧
    ((conn.number, e) ∈ s.received → e ∈ conn.seen)
  unpublished : ∀ e, s.Unpublished e → (conn.number, e) ∈ s.received → e ∈ conn.seen
  mode : ∀ e, (conn.number, e) ∈ s.received →
    match conn.mode with
    | .replaying cursor => e ≤ cursor
    | .sending page _ => ∀ e' ∈ page, e < e'
    | .live => True
  page : ∀ page full, conn.mode = .sending page full →
    page.Pairwise (· < ·) ∧ ∀ e ∈ page, e ∈ s.ids

/-- Nothing is received twice over one connection. -/
structure Received (s : StreamState) : Prop where
  nodup : s.received.Nodup
  mem : ∀ x ∈ s.received, x.1 ≤ s.connections ∧ x.2 ∈ s.ids
  conn : ∀ conn ∈ s.conn, s.Connected conn

section Invariant

variable {limit hwm : ℕ} {s s' : StreamState} {w : ℕ} {r : EventLogRow} {e : Uuid}
variable {conn : StreamConnection}

theorem mem_ids : e ∈ s.ids ↔ ∃ r ∈ s.logs.rows, r.eventId = e := List.mem_map

theorem ids_appendEvent (logs : EventLogs) (r : EventLogRow) :
    (logs.appendEvent r).rows.map EventLogRow.eventId =
      logs.rows.map EventLogRow.eventId ++ [r.eventId] := by
  simp [EventLogs.appendEvent]

theorem sound_init : Sound init := by
  constructor <;> simp [init, ids, EventLogs.empty, Calls.Keyed.nil]

theorem WritePhase.event_of_draft {p : WritePhase} (h : r ∈ p.draft) : r ∈ p.event := by
  cases p <;> first | exact h | cases h

theorem WritePhase.event_of_unpublished {p : WritePhase} (h : r ∈ p.unpublished) :
    r ∈ p.event := by
  cases p <;> first | exact h | cases h

/-- Two writes have different events. -/
theorem Sound.eq_of_event {p : WritePhase} {x : ℕ × WritePhase} {q : EventLogRow} (h : Sound s)
    (hphase : s.writers.phase w = some p) (hr : r ∈ p.event) (hx : x ∈ s.writers)
    (hq : q ∈ x.2.event) (heq : q.eventId = r.eventId) : x.1 = w :=
  h.distinct x hx _ (Calls.mem_of_phase hphase) q hq r hr heq

/-- A write moves on with the event that it has, and the events stay different. -/
theorem Sound.distinct_put {p q : WritePhase} (h : Sound s) (hphase : s.writers.phase w = some p)
    (hevent : ∀ r ∈ q.event, r ∈ p.event) :
    ∀ x ∈ s.writers.put w q, ∀ y ∈ s.writers.put w q, ∀ r ∈ x.2.event, ∀ r' ∈ y.2.event,
      r.eventId = r'.eventId → x.1 = y.1 := by
  have hold : ∀ x ∈ s.writers.put w q, ∃ y ∈ s.writers, y.1 = x.1 ∧
      ∀ r ∈ x.2.event, r ∈ y.2.event := by
    intro x hx
    rcases Calls.mem_put.mp hx with rfl | ⟨hx, -⟩
    · exact ⟨_, Calls.mem_of_phase hphase, rfl, hevent⟩
    · exact ⟨x, hx, rfl, fun r hr => hr⟩
  intro x hx y hy r hr r' hr' heq
  obtain ⟨x', hx', hxx, hrx⟩ := hold x hx
  obtain ⟨y', hy', hyy, hry⟩ := hold y hy
  rw [← hxx, ← hyy]
  exact h.distinct x' hx' y' hy' r (hrx r hr) r' (hry r' hr') heq

theorem Sound.put {p q : WritePhase} (h : Sound s) (hphase : s.writers.phase w = some p)
    (hevent : ∀ r ∈ q.event, r ∈ p.event) (hdraft : ∀ r ∈ q.draft, r ∈ p.draft)
    (hun : ∀ r ∈ q.unpublished, r ∈ p.unpublished) : Sound (s.put w q) where
  keyed := h.keyed.put
  ids_nodup := h.ids_nodup
  ids_allocated := h.ids_allocated
  row_log := h.row_log
  event := by
    intro x hx r hr
    rcases Calls.mem_put.mp hx with rfl | ⟨hx, -⟩
    · exact h.event _ (Calls.mem_of_phase hphase) r (hevent r hr)
    · exact h.event x hx r hr
  draft := by
    intro x hx r hr
    rcases Calls.mem_put.mp hx with rfl | ⟨hx, -⟩
    · exact h.draft _ (Calls.mem_of_phase hphase) r (hdraft r hr)
    · exact h.draft x hx r hr
  unpublished := by
    intro x hx r hr
    rcases Calls.mem_put.mp hx with rfl | ⟨hx, -⟩
    · exact h.unpublished _ (Calls.mem_of_phase hphase) r (hun r hr)
    · exact h.unpublished x hx r hr
  distinct := h.distinct_put hphase hevent
  tracked := h.tracked

/-- A write is over. -/
theorem Sound.finish {p : WritePhase} (h : Sound s) (hphase : s.writers.phase w = some p) :
    Sound (s.put w .done) :=
  h.put hphase (by simp [WritePhase.event]) (by simp [WritePhase.draft])
    (by simp [WritePhase.unpublished])

/-- A fresh id is allocated. -/
theorem Sound.allocate (h : Sound s) (hfresh : r.eventId ∉ s.allocated) (hlog : r.log ≠ .identity) :
    Sound { s.put w (.allocated r) with allocated := r.eventId :: s.allocated } where
  keyed := h.keyed.put
  ids_nodup := h.ids_nodup
  ids_allocated := fun e he => List.mem_cons_of_mem _ (h.ids_allocated e he)
  row_log := h.row_log
  event := by
    intro x hx q hq
    rcases Calls.mem_put.mp hx with rfl | ⟨hx, -⟩
    · cases hq
      exact ⟨hlog, List.mem_cons_self⟩
    · exact ⟨(h.event x hx q hq).1, List.mem_cons_of_mem _ (h.event x hx q hq).2⟩
  draft := by
    intro x hx q hq
    rcases Calls.mem_put.mp hx with rfl | ⟨hx, -⟩
    · cases hq
      exact fun hmem => hfresh (h.ids_allocated _ hmem)
    · exact h.draft x hx q hq
  unpublished := by
    intro x hx q hq
    rcases Calls.mem_put.mp hx with rfl | ⟨hx, -⟩
    · cases hq
    · exact h.unpublished x hx q hq
  distinct := by
    have hother : ∀ x ∈ s.writers, ∀ q ∈ x.2.event, q.eventId ≠ r.eventId :=
      fun x hx q hq heq => hfresh (heq ▸ (h.event x hx q hq).2)
    intro x hx y hy q hq q' hq' heq
    rcases Calls.mem_put.mp hx with rfl | ⟨hx, -⟩ <;>
      rcases Calls.mem_put.mp hy with rfl | ⟨hy, -⟩
    · rfl
    · cases hq
      exact absurd heq.symm (hother y hy q' hq')
    · cases hq'
      exact absurd heq (hother x hx q hq)
    · exact h.distinct x hx y hy q hq q' hq' heq
  tracked := h.tracked

/-- The event is appended. -/
theorem Sound.append (h : Sound s) (hphase : s.writers.phase w = some (.audited r))
    {tracked : List Uuid} (htracked : ∀ e ∈ tracked, e = r.eventId ∨ e ∈ s.tracked) :
    Sound { s.put w (.appended r) with logs := s.logs.appendEvent r, tracked } where
  keyed := h.keyed.put
  ids_nodup := by
    rw [ids, ids_appendEvent, List.nodup_append]
    refine ⟨h.ids_nodup, List.nodup_singleton _, ?_⟩
    rintro e he e' he' rfl
    rw [List.mem_singleton] at he'
    exact h.draft _ (Calls.mem_of_phase hphase) r rfl (he' ▸ he)
  ids_allocated := by
    intro e he
    rw [ids, ids_appendEvent, List.mem_append, List.mem_singleton] at he
    rcases he with he | rfl
    · exact h.ids_allocated e he
    · exact (h.event _ (Calls.mem_of_phase hphase) r rfl).2
  row_log := by
    intro q hq
    rcases List.mem_append.mp hq with hq | hq
    · exact h.row_log q hq
    · rw [List.mem_singleton.mp hq]
      exact (h.event _ (Calls.mem_of_phase hphase) r rfl).1
  event := by
    intro x hx q hq
    rcases Calls.mem_put.mp hx with rfl | ⟨hx, -⟩
    · exact h.event _ (Calls.mem_of_phase hphase) q hq
    · exact h.event x hx q hq
  draft := by
    intro x hx q hq
    rcases Calls.mem_put.mp hx with rfl | ⟨hx, hne⟩
    · cases hq
    · rw [ids, ids_appendEvent, List.mem_append, List.mem_singleton]
      rintro (hmem | heq)
      · exact h.draft x hx q hq hmem
      · exact hne (h.eq_of_event hphase rfl hx (WritePhase.event_of_draft hq) heq)
  unpublished := by
    intro x hx q hq
    rw [ids, ids_appendEvent, List.mem_append, List.mem_singleton]
    rcases Calls.mem_put.mp hx with rfl | ⟨hx, -⟩
    · cases hq
      exact .inr rfl
    · exact .inl (h.unpublished x hx q hq)
  distinct := h.distinct_put hphase fun _ hq => hq
  tracked := by
    intro e he
    rw [ids, ids_appendEvent, List.mem_append, List.mem_singleton]
    exact (htracked e he).symm.imp (h.tracked e) id

/-- The steps of the client leave the writers alone. -/
theorem Sound.client (h : Sound s) {connections : ℕ} {conn : Option StreamConnection}
    {lastEventId : Option Uuid} {received : List (ℕ × Uuid)} :
    Sound { s with connections, conn, lastEventId, received } :=
  ⟨h.keyed, h.ids_nodup, h.ids_allocated, h.row_log, h.event, h.draft, h.unpublished, h.distinct,
    h.tracked⟩

/-- **Step lemma.** Every write keeps an id of its own. -/
theorem Sound.step {a : StreamStep} (h : Sound s) (hstep : step limit hwm s a = some s') :
    Sound s' := by
  cases a with
  | allocate w r =>
    simp only [StreamState.step] at hstep
    split at hstep
    · next hguard =>
      cases hstep
      exact h.allocate hguard.2.1 hguard.2.2
    · cases hstep
  | audit w ok =>
    simp only [StreamState.step] at hstep
    split at hstep
    · next r hphase =>
      cases hstep
      cases ok with
      | true => exact h.put hphase (fun _ hq => hq) (fun _ hq => hq) (fun _ hq => hq)
      | false => exact h.finish hphase
    · cases hstep
  | append w ok =>
    simp only [StreamState.step] at hstep
    split at hstep
    · next r hphase =>
      split at hstep <;> cases hstep
      · refine h.append hphase fun e he => ?_
        split at he
        · exact .inr he
        · exact List.mem_cons.mp he
      · exact h.finish hphase
    · cases hstep
  | publish w ok =>
    simp only [StreamState.step] at hstep
    split at hstep
    · next r hphase =>
      cases hstep
      exact (h.finish hphase).client
    · cases hstep
  | connect =>
    simp only [StreamState.step] at hstep
    split at hstep <;> cases hstep
    exact h.client
  | fetch =>
    simp only [StreamState.step] at hstep
    split at hstep <;> cases hstep
    exact h.client
  | send =>
    simp only [StreamState.step] at hstep
    split at hstep <;> cases hstep
    exact h.client
  | tail =>
    simp only [StreamState.step] at hstep
    split at hstep
    · cases hstep
      exact h.client
    · split at hstep <;> cases hstep <;> exact h.client
    · cases hstep
  | disconnect =>
    simp only [StreamState.step] at hstep
    split at hstep <;> cases hstep
    exact h.client

/-! ## Once per connection -/

theorem received_init : Received init := by
  constructor <;> simp [init]

/-- A connection stays sound while the log grows; what becomes unpublished was not in the log. -/
theorem Connected.mono (h : Connected s conn) (hids : ∀ e ∈ s.ids, e ∈ s'.ids)
    (hun : ∀ e, s'.Unpublished e → s.Unpublished e ∨ e ∉ s.ids)
    (hconn : s.connections ≤ s'.connections) (hreceived : s'.received = s.received)
    (hmem : ∀ x ∈ s.received, x.2 ∈ s.ids) : Connected s' conn where
  number := h.number.trans hconn
  seen := by rw [hreceived]; exact h.seen
  queue_nodup := h.queue_nodup
  queued := by
    intro e he
    obtain ⟨hid, hnot, hseen⟩ := h.queued e he
    rw [hreceived]
    exact ⟨hids e hid, fun h' => (hun e h').elim hnot fun hout => hout hid, hseen⟩
  unpublished := by
    intro e he hrec
    rw [hreceived] at hrec
    rcases hun e he with he | hout
    · exact h.unpublished e he hrec
    · exact absurd (hmem _ hrec) hout
  mode := by rw [hreceived]; exact h.mode
  page := fun page full hmode =>
    ⟨(h.page page full hmode).1, fun e he => hids e ((h.page page full hmode).2 e he)⟩

/-- What is unpublished after a write has moved on. -/
theorem unpublished_put {p : WritePhase} (he : (s.put w p).Unpublished e) :
    (∃ r ∈ p.unpublished, r.eventId = e) ∨ s.Unpublished e := by
  obtain ⟨x, hx, r, hr, rfl⟩ := he
  rcases Calls.mem_put.mp hx with rfl | ⟨hx, -⟩
  · exact .inl ⟨r, hr, rfl⟩
  · exact .inr ⟨x, hx, r, hr, rfl⟩

/-- After the publication an event is not unpublished any more. -/
theorem Sound.published (h : Sound s) (hphase : s.writers.phase w = some (.appended r)) :
    ¬ (s.put w .done).Unpublished r.eventId := by
  rintro ⟨x, hx, q, hq, heq⟩
  rcases Calls.mem_put.mp hx with rfl | ⟨hx, hne⟩
  · cases hq
  · exact hne (h.eq_of_event hphase rfl hx (WritePhase.event_of_unpublished hq) heq)

/-- A published event waits for the connection. -/
theorem Connected.onMsg (h : Connected s conn) (hid : e ∈ s.ids) (hun : ¬ s.Unpublished e)
    (hqueue : e ∉ conn.queue) (hseen : (conn.number, e) ∈ s.received → e ∈ conn.seen) :
    Connected s (conn.onMsg hwm e) := by
  simp only [StreamConnection.onMsg]
  split
  · exact ⟨h.number, h.seen, h.queue_nodup, h.queued, h.unpublished, h.mode, h.page⟩
  · refine ⟨h.number, h.seen, ?_, ?_, h.unpublished, h.mode, h.page⟩
    · rw [List.nodup_append]
      refine ⟨h.queue_nodup, List.nodup_singleton _, ?_⟩
      rintro e' he' _ hmem rfl
      exact hqueue (List.mem_singleton.mp hmem ▸ he')
    · intro e' he'
      rcases List.mem_append.mp he' with he' | he'
      · exact h.queued e' he'
      · rw [List.mem_singleton.mp he']
        exact ⟨hid, hun, hseen⟩

/-- The next page of the replay. -/
def nextPage (s : StreamState) (limit : ℕ) (cursor : Uuid) : List Uuid :=
  (s.logs.replay clientTopics (some cursor) limit).map EventLogRow.eventId

/-- The next page is the beginning of what lies after the cursor. -/
theorem Sound.nextPage_eq (h : Sound s) (hlim : 1 ≤ limit) (cursor : Uuid) :
    ∃ xs : List Uuid, s.nextPage limit cursor = xs.take limit ∧ xs.Pairwise (· < ·) ∧
      ∀ e, e ∈ xs ↔ e ∈ s.ids ∧ cursor < e := by
  refine ⟨((s.logs.merged clientTopics).filter (Paging.after EventLogRow.eventId
    (some cursor))).map EventLogRow.eventId, ?_, merged_after_ids h.ids_nodup, fun e => ?_⟩
  · rw [nextPage, replay_eq_take hlim (by decide), List.map_take]
  · have hmem : ∀ r, r ∈ (s.logs.merged clientTopics).filter (Paging.after EventLogRow.eventId
        (some cursor)) ↔ r ∈ s.logs.rows ∧ cursor < r.eventId := by
      intro r
      rw [List.mem_filter, (merged_perm _ _).mem_iff, List.mem_filter, Paging.after_some,
        and_assoc]
      refine and_congr_right fun hr => and_iff_right ?_
      have hlog := h.row_log r hr
      cases hr : r.log with
      | identity => exact absurd hr hlog
      | _ => simp [inTopics, hr, clientTopics]
    simp only [List.mem_map, hmem, mem_ids]
    refine ⟨?_, ?_⟩
    · rintro ⟨r, ⟨hr, hlt⟩, rfl⟩
      exact ⟨⟨r, hr, rfl⟩, hlt⟩
    · rintro ⟨⟨r, hr, rfl⟩, hlt⟩
      exact ⟨r, ⟨hr, hlt⟩, rfl⟩

/-- A writer's step leaves what is received alone. -/
theorem Received.mono (h : Received s) (hids : ∀ e ∈ s.ids, e ∈ s'.ids)
    (hun : ∀ e, s'.Unpublished e → s.Unpublished e ∨ e ∉ s.ids)
    (hconnections : s'.connections = s.connections) (hconn : s'.conn = s.conn)
    (hreceived : s'.received = s.received) : Received s' where
  nodup := hreceived ▸ h.nodup
  mem := by
    intro x hx
    rw [hreceived] at hx
    rw [hconnections]
    exact ⟨(h.mem x hx).1, hids _ (h.mem x hx).2⟩
  conn := by
    intro conn hc
    rw [hconn] at hc
    exact (h.conn conn hc).mono hids hun hconnections.ge hreceived fun x hx => (h.mem x hx).2

/-- Only the connection changes. -/
theorem Received.setConn {conn : Option StreamConnection} (h : Received s)
    (hconn : ∀ c ∈ conn, s.Connected c) : Received { s with conn } where
  nodup := h.nodup
  mem := h.mem
  conn := by
    intro c hc
    obtain ⟨h₁, h₂, h₃, h₄, h₅, h₆, h₇⟩ := hconn c hc
    exact ⟨h₁, h₂, h₃, h₄, h₅, h₆, h₇⟩

/-- An event of a page is received. -/
theorem Received.send {number : ℕ} {page queue seen : List Uuid} {full overflow : Bool}
    (h : Received s)
    (hconn : s.conn = some ⟨number, .sending (e :: page) full, queue, seen, overflow⟩) :
    Received (s.receive ⟨number, .afterSend e page full, queue, e :: seen, overflow⟩ e) := by
  have hc := h.conn _ hconn
  obtain ⟨hsorted, hids⟩ := hc.page _ _ rfl
  have hbefore : ∀ e', (number, e') ∈ s.received → e' < e :=
    fun e' hrec => hc.mode e' hrec e List.mem_cons_self
  have hseen : ∀ e', (number, e') ∈ (number, e) :: s.received →
      ((number, e') ∈ s.received → e' ∈ seen) → e' ∈ e :: seen := by
    intro e' hrec hold
    rcases List.mem_cons.mp hrec with heq | hrec
    · cases heq
      exact List.mem_cons_self
    · exact List.mem_cons_of_mem _ (hold hrec)
  refine ⟨List.nodup_cons.mpr ⟨fun hrec => (hbefore e hrec).ne rfl, h.nodup⟩, ?_, ?_⟩
  · intro x hx
    rcases List.mem_cons.mp hx with rfl | hx
    · exact ⟨hc.number, hids e List.mem_cons_self⟩
    · exact h.mem x hx
  · rintro c ⟨⟩
    refine ⟨hc.number, ?_, hc.queue_nodup, ?_, ?_, ?_, ?_⟩
    · intro e' he'
      rcases List.mem_cons.mp he' with rfl | he'
      · exact List.mem_cons_self
      · exact List.mem_cons_of_mem _ (hc.seen e' he')
    · intro e' he'
      obtain ⟨hid, hun, hold⟩ := hc.queued e' he'
      exact ⟨hid, hun, fun hrec => hseen e' hrec hold⟩
    · exact fun e' he' hrec => hseen e' hrec (hc.unpublished e' he')
    · intro e' hrec
      have hle : e' ≤ e := by
        rcases List.mem_cons.mp hrec with heq | hrec
        · cases heq
          exact le_refl _
        · exact (hbefore e' hrec).le
      simp only [ConnectionMode.afterSend]
      cases page with
      | nil => cases full <;> simp [hle]
      | cons e'' page =>
        have hlt := (List.pairwise_cons.mp hsorted).1
        exact fun x hx => hle.trans_lt (hlt x hx)
    · intro page' full' hmode
      simp only [ConnectionMode.afterSend] at hmode
      split at hmode
      · split at hmode <;> cases hmode
      · cases hmode
        exact ⟨(List.pairwise_cons.mp hsorted).2, fun x hx => hids x (List.mem_cons_of_mem _ hx)⟩

/-- An event from the bus is received. -/
theorem Received.tail {number : ℕ} {queue seen : List Uuid} (h : Received s)
    (hconn : s.conn = some ⟨number, .live, e :: queue, seen, false⟩) (hnew : e ∉ seen) :
    Received (s.receive ⟨number, .live, queue, seen, false⟩ e) := by
  have hc := h.conn _ hconn
  obtain ⟨hid, hpublished, hold⟩ := hc.queued e List.mem_cons_self
  obtain ⟨hqueue, hnodup⟩ := List.nodup_cons.mp hc.queue_nodup
  refine ⟨List.nodup_cons.mpr ⟨fun hrec => hnew (hold hrec), h.nodup⟩, ?_, ?_⟩
  · intro x hx
    rcases List.mem_cons.mp hx with rfl | hx
    · exact ⟨hc.number, hid⟩
    · exact h.mem x hx
  · rintro c ⟨⟩
    refine ⟨hc.number, fun e' he' => List.mem_cons_of_mem _ (hc.seen e' he'), hnodup, ?_, ?_,
      fun _ _ => trivial, nofun⟩
    · intro e' he'
      obtain ⟨hid', hun', hseen'⟩ := hc.queued e' (List.mem_cons_of_mem _ he')
      refine ⟨hid', hun', fun hrec => ?_⟩
      rcases List.mem_cons.mp hrec with heq | hrec
      · cases heq
        exact absurd he' hqueue
      · exact hseen' hrec
    · intro e' he' hrec
      rcases List.mem_cons.mp hrec with heq | hrec
      · cases heq
        exact absurd he' hpublished
      · exact hc.unpublished e' he' hrec

/-- An event from the bus is skipped. -/
theorem Connected.skip {number : ℕ} {queue seen : List Uuid}
    (h : s.Connected ⟨number, .live, e :: queue, seen, false⟩) :
    s.Connected ⟨number, .live, queue, seen, false⟩ :=
  ⟨h.number, h.seen, (List.nodup_cons.mp h.queue_nodup).2,
    fun e' he' => h.queued e' (List.mem_cons_of_mem _ he'), h.unpublished, h.mode, nofun⟩

/-- A page is fetched. -/
theorem Connected.fetch {number : ℕ} {cursor : Uuid} {queue seen : List Uuid} {overflow : Bool}
    (h : s.Connected ⟨number, .replaying cursor, queue, seen, overflow⟩) (hs : Sound s)
    (hlim : 1 ≤ limit) :
    s.Connected ⟨number, .afterFetch limit (s.nextPage limit cursor), queue, seen, overflow⟩ := by
  obtain ⟨xs, hpage, hsorted, hmem⟩ := hs.nextPage_eq hlim cursor
  rw [hpage]
  refine ⟨h.number, h.seen, h.queue_nodup, h.queued, h.unpublished, ?_, ?_⟩
  · intro e hrec
    have hle : e ≤ cursor := h.mode e hrec
    simp only [ConnectionMode.afterFetch]
    split
    · next hmode =>
      split at hmode <;> cases hmode
    · next hmode =>
      split at hmode <;> cases hmode
      exact fun x hx => hle.trans_lt ((hmem x).mp (List.mem_of_mem_take hx)).2
    · trivial
  · intro page full hmode
    simp only [ConnectionMode.afterFetch] at hmode
    split at hmode <;> cases hmode
    exact ⟨hsorted.sublist (List.take_sublist _ _),
      fun x hx => ((hmem x).mp (List.mem_of_mem_take hx)).1⟩

/-- **Step lemma.** Nothing is received twice over one connection. -/
theorem Received.step {a : StreamStep} (h : Received s) (hs : Sound s) (hlim : 1 ≤ limit)
    (hstep : step limit hwm s a = some s') : Received s' := by
  cases a with
  | allocate w r =>
    simp only [StreamState.step] at hstep
    split at hstep <;> cases hstep
    refine h.mono (fun e he => he) (fun e he => ?_) rfl rfl rfl
    exact .inl ((unpublished_put he).resolve_left (by simp [WritePhase.unpublished]))
  | audit w ok =>
    simp only [StreamState.step] at hstep
    split at hstep
    · cases hstep
      refine h.mono (fun e he => he) (fun e he => ?_) rfl rfl rfl
      refine .inl ((unpublished_put he).resolve_left ?_)
      cases ok <;> simp [WritePhase.unpublished]
    · cases hstep
  | append w ok =>
    simp only [StreamState.step] at hstep
    split at hstep
    · next r hphase =>
      split at hstep <;> cases hstep
      · refine h.mono (fun e he => ?_) (fun e he => ?_) rfl rfl rfl
        · rw [ids, ids_appendEvent]
          exact List.mem_append_left _ he
        · rcases unpublished_put he with ⟨q, hq, rfl⟩ | he
          · cases hq
            exact .inr (hs.draft _ (Calls.mem_of_phase hphase) r rfl)
          · exact .inl he
      · refine h.mono (fun e he => he) (fun e he => ?_) rfl rfl rfl
        exact .inl ((unpublished_put he).resolve_left (by simp [WritePhase.unpublished]))
    · cases hstep
  | publish w ok =>
    simp only [StreamState.step] at hstep
    split at hstep
    · next r hphase =>
      cases hstep
      have hput : Received (s.put w .done) := by
        refine h.mono (fun e he => he) (fun e he => ?_) rfl rfl rfl
        exact .inl ((unpublished_put he).resolve_left (by simp [WritePhase.unpublished]))
      have hun : s.Unpublished r.eventId := ⟨_, Calls.mem_of_phase hphase, r, rfl, rfl⟩
      refine hput.setConn fun c hc => ?_
      cases ok with
      | false => exact hput.conn c hc
      | true =>
        obtain ⟨conn, hconn, rfl⟩ := Option.map_eq_some_iff.mp hc
        have hold := h.conn conn hconn
        exact (hput.conn conn hconn).onMsg (hs.unpublished _ (Calls.mem_of_phase hphase) r rfl)
          (hs.published hphase) (fun hmem => (hold.queued _ hmem).2.1 hun)
          (hold.unpublished _ hun)
    · cases hstep
  | connect =>
    simp only [StreamState.step] at hstep
    split at hstep <;> cases hstep
    have hfresh : ∀ e, (s.connections + 1, e) ∉ s.received :=
      fun e hrec => absurd (h.mem _ hrec).1 (by simp)
    refine ⟨h.nodup, fun x hx => ⟨(h.mem x hx).1.trans (Nat.le_succ _), (h.mem x hx).2⟩, ?_⟩
    rintro c ⟨⟩
    refine ⟨le_refl _, by simp, List.nodup_nil, by simp, fun e _ hrec => absurd hrec (hfresh e),
      fun e hrec => absurd hrec (hfresh e), fun page full hmode => ?_⟩
    cases hlast : s.lastEventId <;> simp [hlast] at hmode
  | fetch =>
    simp only [StreamState.step] at hstep
    split at hstep
    · next hconn =>
      cases hstep
      refine h.setConn ?_
      rintro c ⟨⟩
      exact (h.conn _ hconn).fetch hs hlim
    · cases hstep
  | send =>
    simp only [StreamState.step] at hstep
    split at hstep
    · next hconn =>
      cases hstep
      exact h.send hconn
    · cases hstep
  | tail =>
    simp only [StreamState.step] at hstep
    split at hstep
    · cases hstep
      exact h.setConn nofun
    · next hconn =>
      split at hstep <;> cases hstep
      · refine h.setConn ?_
        rintro c ⟨⟩
        exact (h.conn _ hconn).skip
      · next hnew => exact h.tail hconn hnew
    · cases hstep
  | disconnect =>
    simp only [StreamState.step] at hstep
    split at hstep <;> cases hstep
    exact h.setConn nofun

/-! ## At least once -/

/-- Whatever the client misses is on its way or can still be asked for. -/
def Kept (s : StreamState) : Prop := ∀ e, s.Missing e → s.Recoverable false e

theorem kept_init : Kept init := by
  intro e he
  simp [Missing, init] at he

/-- A write that moves on from elsewhere publishes nothing. -/
theorem Sound.unpublished_of_put {p : WritePhase} (h : Sound s)
    (hphase : ∀ q, s.writers.phase w = some q → q.unpublished = none) (he : s.Unpublished e) :
    (s.put w p).Unpublished e := by
  obtain ⟨x, hx, r, hr, rfl⟩ := he
  refine ⟨x, Calls.mem_put.mpr (.inr ⟨hx, ?_⟩), r, hr, rfl⟩
  rintro rfl
  have hnone := hphase x.2 (h.keyed x hx)
  simp [hnone] at hr

/-- Only the publication of an event ends its being unpublished. -/
theorem Sound.unpublished_cases {p : WritePhase} (h : Sound s)
    (hphase : s.writers.phase w = some (.appended r)) (he : s.Unpublished e) :
    e = r.eventId ∨ (s.put w p).Unpublished e := by
  obtain ⟨x, hx, q, hq, rfl⟩ := he
  by_cases hxw : x.1 = w
  · have hx' := h.keyed x hx
    rw [hxw, hphase] at hx'
    rw [← Option.some.inj hx'] at hq
    cases hq
    exact .inl rfl
  · exact .inr ⟨x, Calls.mem_put.mpr (.inr ⟨hx, hxw⟩), q, hq, rfl⟩

/-- Nothing new is missing and the client has not moved. -/
theorem Kept.mono (h : Kept s) (hmissing : ∀ e, s'.Missing e → s.Missing e)
    (hconn : s'.conn = s.conn) (hlast : s'.lastEventId = s.lastEventId) : Kept s' := by
  intro e he
  have hold := h e (hmissing e he)
  simp only [Recoverable, Resumable, hconn, hlast] at hold ⊢
  exact hold

/-- Messages push nothing off the way. -/
theorem coming_onMsg (h : conn.overflow = true ∨ conn.Coming e) (e' : Uuid) :
    (conn.onMsg hwm e').overflow = true ∨ (conn.onMsg hwm e').Coming e := by
  simp only [StreamConnection.onMsg]
  split
  · exact .inl rfl
  · refine h.imp_right (Or.imp_left fun hmem => ?_)
    exact List.mem_append_left _ hmem

theorem onMsg_self : (conn.onMsg hwm e).overflow = true ∨ (conn.onMsg hwm e).Coming e := by
  simp only [StreamConnection.onMsg]
  split
  · exact .inl rfl
  · exact .inr (.inl (List.mem_append_right _ List.mem_cons_self))

/-- **Step lemma.** An unbroken step leaves nothing behind. -/
theorem Kept.step {a : StreamStep} (h : Kept s) (hr : Received s) (hs : Sound s) (hlim : 1 ≤ limit)
    (hun : Unbroken s a) (hstep : step limit hwm s a = some s') : Kept s' := by
  cases a with
  | allocate w r =>
    simp only [StreamState.step] at hstep
    split at hstep
    · next hguard =>
      cases hstep
      refine h.mono (fun e he => ⟨he.1, he.2.1, fun hunp => he.2.2 ?_⟩) rfl rfl
      exact hs.unpublished_of_put (by simp [hguard.1]) hunp
    · cases hstep
  | audit w ok =>
    simp only [StreamState.step] at hstep
    split at hstep
    · next r hphase =>
      cases hstep
      refine h.mono (fun e he => ⟨he.1, he.2.1, fun hunp => he.2.2 ?_⟩) rfl rfl
      exact hs.unpublished_of_put (by simp [hphase, WritePhase.unpublished]) hunp
    · cases hstep
  | append w ok =>
    simp only [StreamState.step] at hstep
    split at hstep
    · next r hphase =>
      have hkeep : ∀ {q : WritePhase} {e}, s.Unpublished e → (s.put w q).Unpublished e :=
        fun hunp => hs.unpublished_of_put (by simp [hphase, WritePhase.unpublished]) hunp
      split at hstep <;> cases hstep
      · refine h.mono (fun e he => ⟨?_, he.2.1, fun hunp => he.2.2 (hkeep hunp)⟩) rfl rfl
        have hmem := he.1
        dsimp only at hmem
        split at hmem
        · exact hmem
        · rcases List.mem_cons.mp hmem with rfl | hmem
          · exact absurd ⟨_, List.mem_cons_self, r, rfl, rfl⟩ he.2.2
          · exact hmem
      · exact h.mono (fun e he => ⟨he.1, he.2.1, fun hunp => he.2.2 (hkeep hunp)⟩) rfl rfl
    · cases hstep
  | publish w ok =>
    simp only [StreamState.step] at hstep
    split at hstep
    · next r hphase =>
      cases hstep
      intro e he
      -- either it was missing before, or this is its publication
      have hrec : s.Recoverable (decide (e = r.eventId) && ok) e := by
        by_cases hunp : s.Unpublished e
        · rcases hs.unpublished_cases hphase hunp with rfl | hunp
          · simpa using hun _ hphase r rfl he.1 he.2.1
          · exact absurd hunp he.2.2
        · have hold := h e ⟨he.1, he.2.1, hunp⟩
          simp only [Recoverable] at hold ⊢
          split at hold
          · exact hold
          · exact .inr (hold.resolve_left Bool.false_ne_true)
      simp only [Recoverable, Resumable] at hrec ⊢
      cases hconn : s.conn with
      | none =>
        rw [hconn] at hrec
        cases ok <;> exact hrec
      | some conn =>
        rw [hconn] at hrec
        cases ok with
        | false =>
          rw [Bool.and_false] at hrec
          exact hrec
        | true =>
          refine .inr ?_
          rcases hrec with heq | hrec
          · rw [Bool.and_true, decide_eq_true_eq] at heq
            exact heq ▸ onMsg_self
          · exact coming_onMsg hrec r.eventId
    · cases hstep
  | connect =>
    simp only [StreamState.step] at hstep
    split at hstep
    · cases hstep
    · next hconn =>
      cases hstep
      intro e he
      have hold := h e he
      simp only [Recoverable, hconn] at hold
      obtain ⟨l, hl, hlt⟩ := hold
      simp only [Recoverable, Option.mem_def.mp hl]
      exact .inr (.inr (.inr hlt))
  | fetch =>
    simp only [StreamState.step] at hstep
    split at hstep
    · next number cursor queue seen overflow hconn =>
      cases hstep
      intro e he
      have hold := h e he
      simp only [Recoverable, hconn] at hold
      refine hold.imp_right (Or.imp_right (Or.imp_right fun hlt => ?_))
      have hlt : cursor < e := hlt
      obtain ⟨xs, hpage, hsorted, hmem⟩ := hs.nextPage_eq hlim cursor
      have he' : e ∈ xs := (hmem e).mpr ⟨hs.tracked e he.1, hlt⟩
      change (ConnectionMode.afterFetch limit (s.nextPage limit cursor)).Coming e
      rw [hpage, ConnectionMode.afterFetch]
      by_cases hin : e ∈ xs.take limit
      · rw [if_neg (List.ne_nil_of_mem hin)]
        exact .inl hin
      · obtain ⟨hfull, last, hlast, hlt'⟩ := Paging.last_lt_of_not_mem_take hsorted hlim he' hin
        rw [if_neg (List.ne_nil_of_mem (List.mem_of_getLast? hlast))]
        exact .inr ⟨decide_eq_true hfull, last, hlast, hlt'⟩
    · cases hstep
  | send =>
    simp only [StreamState.step] at hstep
    split at hstep
    · next number x page full queue seen overflow hconn =>
      cases hstep
      intro e he
      have hne : e ≠ x := by
        rintro rfl
        exact he.2.1 ⟨_, List.mem_cons_self, rfl⟩
      have hold := h e ⟨he.1, fun ⟨y, hy, heq⟩ => he.2.1 ⟨y, List.mem_cons_of_mem _ hy, heq⟩,
        he.2.2⟩
      simp only [Recoverable, hconn] at hold
      refine hold.imp_right (Or.imp_right (Or.imp_right fun hcoming => ?_))
      change (ConnectionMode.afterSend x page full).Coming e
      rw [ConnectionMode.afterSend]
      rcases hcoming with hmem | ⟨hfull, last, hlast, hlt⟩
      · have hmem : e ∈ page := (List.mem_cons.mp hmem).resolve_left hne
        rw [if_neg (List.ne_nil_of_mem hmem)]
        exact .inl hmem
      · cases page with
        | nil =>
          cases hlast
          rw [if_pos rfl, if_pos hfull]
          exact hlt
        | cons y page =>
          rw [if_neg (List.cons_ne_nil _ _)]
          exact .inr ⟨hfull, last, by simpa using hlast, hlt⟩
    · cases hstep
  | tail =>
    simp only [StreamState.step] at hstep
    split at hstep
    · next hconn =>
      cases hstep
      intro e he
      exact hun _ hconn rfl e he.1 he
    · next number x queue seen hconn =>
      have hqueue : ∀ e, s.Missing e → e ≠ x → e ∈ queue := by
        intro e he hne
        have hold := h e he
        simp only [Recoverable, hconn, Bool.false_eq_true, false_or] at hold
        rcases hold with hmem | hlive
        · exact (List.mem_cons.mp hmem).resolve_left hne
        · exact hlive.elim
      split at hstep <;> cases hstep
      · next hseen =>
        intro e he
        refine .inr (.inr (.inl (hqueue e he ?_)))
        rintro rfl
        exact he.2.1 ⟨_, (hr.conn _ hconn).seen e hseen, rfl⟩
      · intro e he
        have hold : s.Missing e :=
          ⟨he.1, fun ⟨y, hy, heq⟩ => he.2.1 ⟨y, List.mem_cons_of_mem _ hy, heq⟩, he.2.2⟩
        refine .inr (.inr (.inl (hqueue e hold ?_)))
        rintro rfl
        exact he.2.1 ⟨_, List.mem_cons_self, rfl⟩
    · cases hstep
  | disconnect =>
    simp only [StreamState.step] at hstep
    split at hstep <;> cases hstep
    exact fun e he => hun e he.1 he

/-- A client that is up to date has everything. -/
theorem Kept.delivered (h : Kept s) (hup : s.UpToDate) (he : e ∈ s.tracked) : s.Delivered e := by
  by_contra hnot
  obtain ⟨⟨conn, hconn, hlive, hqueue, hover⟩, hpublished⟩ := hup
  have hold := h e ⟨he, hnot, fun ⟨x, hx, r, hr, _⟩ => by simp [hpublished x hx] at hr⟩
  simp only [Recoverable, Option.mem_def.mp hconn, StreamConnection.Coming, hlive, hqueue, hover,
    ConnectionMode.Coming] at hold
  simp at hold

end Invariant

/-! ## Runs -/

/-- A decision on a linkage with the given event id. -/
def linkageDecision (n : ℕ) : EventLogRow :=
  ⟨.linkage, 7, 0, "attribution.linkage.confirmed", n, 0, "", none, none, none⟩

/-- One event is tailed, the next one is replayed after a reconnection. -/
def reconnectRun : List StreamStep :=
  [.connect, .allocate 0 (linkageDecision 1), .audit 0 true, .append 0 true, .publish 0 true, .tail,
    .disconnect, .allocate 1 (linkageDecision 2), .audit 1 true, .append 1 true, .publish 1 true,
    .connect, .fetch, .send]

/-- Two decisions overlap: the one with the later id is appended, published and received first, and
the other one is appended while the client is away. -/
def overlappingDecisions : List StreamStep :=
  [.connect, .allocate 0 (linkageDecision 1), .allocate 1 (linkageDecision 2), .audit 1 true,
    .append 1 true, .publish 1 true, .tail, .disconnect, .audit 0 true, .append 0 true,
    .publish 0 true, .connect, .fetch]

end StreamState

end Eyenet
