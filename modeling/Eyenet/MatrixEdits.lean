import Eyenet.Datetime
import Eyenet.Json
import Eyenet.SourceDomain
import Eyenet.Table

/-!
# Edits of Matrix messages (`collectors/matrix/real.py`)

An edit of a Matrix message is an event of its own, related to the message by `m.replace`. The
collector overwrites the stored body with the body of the edit and appends the edit to the
`edits` of the row, whose first entry is the original. Live sync and backfill hand their events to
the same dispatch, one event at a time; a backfill pages backwards, newest events first.

* `backfillRoom_eq_deliver` — a backfill is a list of deliveries.
* `view_deliver` — what deliveries leave of one message, whatever the other traffic.
* `kept_iff_inOrder` — exactly when the row shows the latest edit and keeps every version once.
-/

namespace Eyenet.MatrixEdits

/-! ## Events -/

/-- What the collector reads of a `RoomMessageText`. -/
structure TextEvent where
  eventId : String
  sender : Option String
  /-- `server_timestamp`, in milliseconds -/
  serverTimestamp : ℤ
  body : String
  /-- the event as it came -/
  source : Json

/-- The items of a dict; anything else counts as an empty one. -/
def asDict : Json → List (String × Json)
  | .obj fields => fields
  | _ => []

/-- `d.get(key, {})`, read as a dict. -/
def getDict (d : List (String × Json)) (key : String) : List (String × Json) :=
  asDict ((d.lookup key).getD (.obj []))

/-- `_extract_relation` -/
def extractRelation (e : TextEvent) : List (String × Json) :=
  getDict (getDict (asDict e.source) "content") "m.relates_to"

/-- `_extract_reply_to` -/
def extractReplyTo (e : TextEvent) : Option String :=
  match (getDict (extractRelation e) "m.in_reply_to").lookup "event_id" with
  | some (.str eventId) => if eventId = "" then none else some eventId
  | _ => none

/-- `_is_edit`: the target and the new body of an `m.replace` event. -/
def isEdit (e : TextEvent) : Option (String × String) :=
  match (extractRelation e).lookup "rel_type" with
  | some (.str "m.replace") =>
    let newContent := getDict (getDict (asDict e.source) "content") "m.new_content"
    match (extractRelation e).lookup "event_id", newContent.lookup "body" with
    | some (.str target), some (.str newBody) => some (target, newBody)
    | _, _ => none
  | _ => none

/-! ## Storage -/

/-- An entry of `source_specific["edits"]`. -/
structure Version where
  eventId : String
  body : String
  editedAt : String
  deriving DecidableEq

/-- A row of `message`, of this source; its group goes by the room. -/
structure MatrixMessage where
  platformGroupid : String
  actor : Option String
  platformMsgid : String
  evidenceRef : String
  body : String
  lengthChars : ℕ
  lengthWords : ℕ
  sentAtSource : Datetime
  replyToMsg : Option String
  /-- `source_specific["pending_reply_to"]` -/
  pendingReplyTo : Option String
  /-- `source_specific["edits"]`, empty when there are none -/
  edits : List Version
  deriving DecidableEq

/-- The rooms that have a group, and the messages. -/
structure MatrixStore where
  groups : List String
  messages : Table MatrixMessage.evidenceRef

/-- The storage before the first event. -/
def MatrixStore.init : MatrixStore := ⟨[], .empty⟩

/-- `resolve_message_id`; a message goes by its evidence ref. -/
def resolveMessage (t : Table MatrixMessage.evidenceRef) (room msgid : String) :
    Option MatrixMessage :=
  t.rows.find? fun r => r.platformGroupid = room ∧ r.platformMsgid = msgid

/-- `put_message`, which leaves a row that is there as it is. -/
def putMessage (t : Table MatrixMessage.evidenceRef) (row : MatrixMessage) :
    Table MatrixMessage.evidenceRef :=
  (t.insert row).getD t

/-! ## The collector -/

/-- The configuration of a collector, and the clock of its host. -/
structure MatrixCollector where
  monitorRoomIds : List String
  /-- the account it is logged in as -/
  userId : Option String
  /-- `datetime.fromtimestamp(ms / 1000.0, tz=UTC)`; `none` where it raises -/
  fromTimestamp : ℤ → Option Datetime

variable (c : MatrixCollector)

/-- `_should_ingest` -/
def shouldIngest (room : String) (sender : Option String) : Bool :=
  if c.monitorRoomIds ≠ [] ∧ room ∉ c.monitorRoomIds then false
  else !(sender.isSome && sender == c.userId)

/-- The `evidence_ref` of an event. -/
def matrixRef (room eventId : String) : String := "matrix:" ++ room ++ ":" ++ eventId

/-- `len(body.split())` -/
def wordCount (body : String) : ℕ :=
  ((body.toList.splitBy fun a b => isPySpace a == isPySpace b).filter fun run =>
    run.all fun ch => !isPySpace ch).length

/-- The row that `_ingest_event_inner` builds. -/
def textRow (s : MatrixStore) (room : String) (e : TextEvent) (sentAt : Datetime) :
    MatrixMessage :=
  let replyTo := extractReplyTo e
  let parent := replyTo.bind fun msgid => resolveMessage s.messages room msgid
  { platformGroupid := room
    actor := e.sender
    platformMsgid := e.eventId
    evidenceRef := matrixRef room e.eventId
    body := e.body
    lengthChars := e.body.length
    lengthWords := wordCount e.body
    sentAtSource := sentAt
    replyToMsg := parent.map MatrixMessage.evidenceRef
    pendingReplyTo := if parent.isSome then none else replyTo
    edits := [] }

/-- `_ingest_event_inner`; `none` when it raises. -/
def ingestEvent (s : MatrixStore) (room : String) (e : TextEvent) : Option MatrixStore :=
  if !shouldIngest c room e.sender then some s
  else if e.body = "" then some s
  else
    match c.fromTimestamp e.serverTimestamp with
    | none => none
    | some sentAt =>
      let groups := if room ∈ s.groups then s.groups else s.groups ++ [room]
      some ⟨groups, putMessage s.messages (textRow s room e sentAt)⟩

/-- The target of an edit as `_ingest_edit` writes it. -/
def editedRow (row : MatrixMessage) (e : TextEvent) (newBody : String) (editedAt : Datetime) :
    MatrixMessage :=
  let edits :=
    if row.edits = [] then
      -- a stored timestamp is read back without its offset
      [⟨row.platformMsgid, row.body,
        ({ row.sentAtSource with utcoffset := none } : Datetime).isoformat⟩]
    else row.edits
  { row with
    body := newBody
    lengthChars := newBody.length
    lengthWords := wordCount newBody
    edits := edits ++ [⟨e.eventId, newBody, editedAt.isoformat⟩] }

/-- `_ingest_edit`; `none` when it raises. -/
def ingestEdit (s : MatrixStore) (room : String) (e : TextEvent) (target newBody : String) :
    Option MatrixStore :=
  if !shouldIngest c room e.sender then some s
  else
    match c.fromTimestamp e.serverTimestamp with
    | none => none
    | some editedAt =>
      if room ∉ s.groups then some s
      else
        match resolveMessage s.messages room target with
        | none => some s
        | some row =>
          some { s with messages := s.messages.put (editedRow row e newBody editedAt) }

/-- `_dispatch_text`; `none` when it raises. -/
def dispatchText (s : MatrixStore) (room : String) (e : TextEvent) : Option MatrixStore :=
  match isEdit e with
  | some (target, newBody) => ingestEdit c s room e target newBody
  | none => ingestEvent c s room e

/-- An event of a room. -/
abbrev Delivery := String × TextEvent

/-- `_on_message`, which logs what is raised. -/
def onMessage (s : MatrixStore) (d : Delivery) : MatrixStore := (dispatchText c s d.1 d.2).getD s

/-- Events, one at a time. -/
def deliver (s : MatrixStore) (ds : List Delivery) : MatrixStore := ds.foldl (onMessage c) s

/-! ## Backfill -/

/-- An answer to `room_messages`: a page, newest event first, or an error. -/
inductive RoomMessages where
  | page (chunk : List (Option TextEvent)) (end_ : Option String)
  | error

/-- The loop over a chunk, where `none` is an event of another type; `ingested` counts the events
whose dispatch did not raise. -/
def backfillChunk (room : String) :
    MatrixStore × ℕ → List (Option TextEvent) → MatrixStore × ℕ
  | st, [] => st
  | st, none :: chunk => backfillChunk room st chunk
  | (s, ingested), some e :: chunk =>
    match dispatchText c s room e with
    | some s' => backfillChunk room (s', ingested + 1) chunk
    | none => backfillChunk room (s, ingested) chunk

/-- `_backfill_room`, on the answers that the server gives one after the other. -/
def backfillRoom (room : String) (limit : ℕ) :
    MatrixStore × ℕ → Option String → List RoomMessages → MatrixStore × ℕ
  | st, none, _ => st
  | st, some _, [] => st
  | st, some _, .error :: _ => st
  | st, some token, .page chunk end_ :: pages =>
    if limit ≤ st.2 ∨ chunk = [] then st
    else
      let st := backfillChunk c room st chunk
      if end_ = none ∨ end_ = some token then st
      else backfillRoom room limit st end_ pages

/-! ### A backfill is a list of deliveries -/

/-- The text events of a page. -/
def textEvents (room : String) (chunk : List (Option TextEvent)) : List Delivery :=
  chunk.filterMap fun e => e.map fun e => (room, e)

/-- What a list of answers holds for a room. -/
def pageEvents (room : String) : List RoomMessages → List Delivery
  | [] => []
  | .error :: pages => pageEvents room pages
  | .page chunk _ :: pages => textEvents room chunk ++ pageEvents room pages

variable {c}

theorem deliver_append (s : MatrixStore) (ds es : List Delivery) :
    deliver c s (ds ++ es) = deliver c (deliver c s ds) es :=
  List.foldl_append

theorem backfillChunk_eq_deliver (room : String) (st : MatrixStore × ℕ)
    (chunk : List (Option TextEvent)) :
    (backfillChunk c room st chunk).1 = deliver c st.1 (textEvents room chunk) := by
  induction chunk generalizing st with
  | nil => rfl
  | cons e chunk ih =>
    cases e with
    | none => exact ih st
    | some e =>
      have hcons : deliver c st.1 (textEvents room (some e :: chunk)) =
          deliver c (onMessage c st.1 (room, e)) (textEvents room chunk) := rfl
      rw [hcons, onMessage]
      cases hdispatch : dispatchText c st.1 room e with
      | none =>
        rw [backfillChunk.eq_def]
        simp only [hdispatch, Option.getD_none]
        exact ih st
      | some s' =>
        rw [backfillChunk.eq_def]
        simp only [hdispatch, Option.getD_some]
        exact ih (s', st.2 + 1)

/-- The body of a message and its versions, by event id and body. -/
abbrev View := String × List (String × String)

def MatrixMessage.view (row : MatrixMessage) : View :=
  (row.body, row.edits.map fun v => (v.eventId, v.body))

/-- What is stored of a message of a room. -/
def MatrixStore.view (s : MatrixStore) (room msgid : String) : Option View :=
  (resolveMessage s.messages room msgid).map MatrixMessage.view

/-- The body that an edit brings. -/
def newBody (e : TextEvent) : String := ((isEdit e).map Prod.snd).getD ""

/-- An edit as it is to be kept. -/
def version (e : TextEvent) : String × String := (e.eventId, newBody e)

/-- The event is of another sender than the collector, in a room that is monitored, with a time
that a `datetime` can hold. -/
def accepted (c : MatrixCollector) (room : String) (e : TextEvent) : Bool :=
  shouldIngest c room e.sender && (c.fromTimestamp e.serverTimestamp).isSome

/-- The edit of a message that a delivery applies, if any. -/
def applied (c : MatrixCollector) (room msgid : String) (d : Delivery) : List TextEvent :=
  if d.1 = room ∧ accepted c room d.2 ∧ (isEdit d.2).map Prod.fst = some msgid then [d.2] else []

/-- The message itself. -/
def isOriginal (room msgid : String) (d : Delivery) : Bool :=
  (isEdit d.2).isNone && d.1 == room && d.2.eventId == msgid

/-- A message with the edits `es`, in the order of their application. -/
def history (orig : TextEvent) (es : List TextEvent) : View :=
  ((es.map newBody).getLast?.getD orig.body,
    if es = [] then [] else (orig.eventId, orig.body) :: es.map version)

/-- One delivery, as far as one message is concerned. -/
def advance (c : MatrixCollector) (room msgid : String) (v : Option View) (d : Delivery) :
    Option View :=
  if isOriginal room msgid d then
    if accepted c room d.2 ∧ d.2.body ≠ "" then some (v.getD (d.2.body, [])) else v
  else
    (applied c room msgid d).foldl (fun v e => v.map fun v =>
      (newBody e, (if v.2 = [] then [(msgid, v.1)] else v.2) ++ [version e])) v

/-- Rows are under their own refs and in known rooms, and the ref of the message is no other's. -/
structure Sound (room msgid : String) (s : MatrixStore) : Prop where
  ref : ∀ r ∈ s.messages, r.evidenceRef = matrixRef r.platformGroupid r.platformMsgid
  group : ∀ r ∈ s.messages, r.platformGroupid ∈ s.groups
  alone : ∀ r ∈ s.messages, r.evidenceRef = matrixRef room msgid →
    r.platformGroupid = room ∧ r.platformMsgid = msgid

section Store

variable {room msgid : String} {s s' : MatrixStore} {d : Delivery} {e : TextEvent}

theorem sound_init : Sound room msgid MatrixStore.init where
  ref r hr := absurd hr (Table.not_mem_empty r)
  group r hr := absurd hr (Table.not_mem_empty r)
  alone r hr := absurd hr (Table.not_mem_empty r)

theorem resolveMessage_eq_some (hs : Sound room msgid s) {room' msgid' : String}
    {r : MatrixMessage} : resolveMessage s.messages room' msgid' = some r ↔
      r ∈ s.messages ∧ r.platformGroupid = room' ∧ r.platformMsgid = msgid' := by
  refine ⟨?_, ?_⟩
  · intro h
    exact ⟨List.mem_of_find?_eq_some h, by simpa using List.find?_some h⟩
  · rintro ⟨hr, rfl, rfl⟩
    cases hfind : resolveMessage s.messages r.platformGroupid r.platformMsgid with
    | none =>
      have hnone := List.find?_eq_none.mp hfind r hr
      exact absurd (decide_eq_true ⟨rfl, rfl⟩) hnone
    | some r' =>
      have hr' := List.mem_of_find?_eq_some hfind
      have hids : r'.platformGroupid = r.platformGroupid ∧ r'.platformMsgid = r.platformMsgid := by
        simpa using List.find?_some hfind
      have href : r'.evidenceRef = r.evidenceRef := by
        rw [hs.ref r' hr', hs.ref r hr, hids.1, hids.2]
      rw [Table.eq_of_key hr' hr href]

/-- The message is resolved by its ref. -/
theorem resolveMessage_eq_get (hs : Sound room msgid s) :
    resolveMessage s.messages room msgid = s.messages.get (matrixRef room msgid) := by
  apply Option.ext
  intro r
  rw [resolveMessage_eq_some hs, Table.get_eq_some]
  refine ⟨?_, ?_⟩
  · rintro ⟨hr, rfl, rfl⟩
    exact ⟨hr, hs.ref r hr⟩
  · rintro ⟨hr, href⟩
    exact ⟨hr, hs.alone r hr href⟩

theorem view_textRow (s : MatrixStore) (room : String) (e : TextEvent) (sentAt : Datetime) :
    (textRow s room e sentAt).view = (e.body, []) := rfl

@[simp] theorem evidenceRef_textRow (s : MatrixStore) (room : String) (e : TextEvent)
    (sentAt : Datetime) : (textRow s room e sentAt).evidenceRef = matrixRef room e.eventId := rfl

theorem evidenceRef_editedRow (row : MatrixMessage) (e : TextEvent) (body : String)
    (editedAt : Datetime) : (editedRow row e body editedAt).evidenceRef = row.evidenceRef := rfl

theorem view_editedRow (row : MatrixMessage) (e : TextEvent) (body : String)
    (editedAt : Datetime) :
    (editedRow row e body editedAt).view =
      (body, (if row.view.2 = [] then [(row.platformMsgid, row.body)] else row.view.2) ++
        [(e.eventId, body)]) := by
  simp only [editedRow, MatrixMessage.view, List.map_append, List.map_cons, List.map_nil,
    List.map_eq_nil_iff]
  split <;> rfl

/-- What the ingestion of a message does. -/
theorem onMessage_original (h : isEdit d.2 = none) :
    if accepted c d.1 d.2 ∧ d.2.body ≠ "" then
      ∃ sentAt, onMessage c s d =
        ⟨if d.1 ∈ s.groups then s.groups else s.groups ++ [d.1],
          putMessage s.messages (textRow s d.1 d.2 sentAt)⟩
    else onMessage c s d = s := by
  rw [onMessage, dispatchText, h]
  simp only [ingestEvent, accepted, Bool.and_eq_true]
  cases hshould : shouldIngest c d.1 d.2.sender
  · simp
  · by_cases hbody : d.2.body = ""
    · simp [hbody]
    · cases htime : c.fromTimestamp d.2.serverTimestamp with
      | none => simp [hbody]
      | some sentAt => simpa [hbody] using ⟨sentAt, rfl⟩

/-- What the ingestion of an edit does. -/
theorem onMessage_edit {target body : String} (h : isEdit d.2 = some (target, body)) :
    if accepted c d.1 d.2 ∧ d.1 ∈ s.groups then
      match resolveMessage s.messages d.1 target with
      | none => onMessage c s d = s
      | some row => ∃ editedAt, onMessage c s d =
          { s with messages := s.messages.put (editedRow row d.2 body editedAt) }
    else onMessage c s d = s := by
  rw [onMessage, dispatchText, h]
  simp only [ingestEdit, accepted, Bool.and_eq_true]
  cases hshould : shouldIngest c d.1 d.2.sender
  · simp
  · cases htime : c.fromTimestamp d.2.serverTimestamp with
    | none => simp
    | some editedAt =>
      by_cases hgroup : d.1 ∈ s.groups
      · cases resolveMessage s.messages d.1 target with
        | none => simp [hgroup]
        | some row => simpa [hgroup] using ⟨editedAt, rfl⟩
      · simp [hgroup]

theorem onMessage_edit_of_some {target body : String} {row : MatrixMessage}
    (hs : Sound room msgid s) (h : isEdit d.2 = some (target, body))
    (hok : accepted c d.1 d.2) (hrow : resolveMessage s.messages d.1 target = some row) :
    ∃ editedAt, onMessage c s d =
      { s with messages := s.messages.put (editedRow row d.2 body editedAt) } := by
  obtain ⟨hmem, hgroup, -⟩ := (resolveMessage_eq_some hs).mp hrow
  have hcase := onMessage_edit (c := c) (s := s) h
  rwa [if_pos ⟨hok, hgroup ▸ hs.group row hmem⟩, hrow] at hcase

/-- An edit without an accepted sender and a stored target changes nothing. -/
theorem onMessage_edit_of_none {target body : String} (h : isEdit d.2 = some (target, body))
    (hnone : accepted c d.1 d.2 → resolveMessage s.messages d.1 target = none) :
    onMessage c s d = s := by
  have hcase := onMessage_edit (c := c) (s := s) h
  split at hcase
  · next hok =>
    rw [hnone hok.1] at hcase
    exact hcase
  · exact hcase

/-! ### Writes -/

theorem mem_putMessage {t : Table MatrixMessage.evidenceRef} {row r : MatrixMessage}
    (h : r ∈ putMessage t row) : r ∈ t ∨ r = row := by
  rw [putMessage] at h
  cases hinsert : t.insert row with
  | none =>
    rw [hinsert] at h
    exact .inl h
  | some t' =>
    rw [hinsert] at h
    exact (Table.mem_insert hinsert).mp h

theorem get_putMessage (t : Table MatrixMessage.evidenceRef) (row : MatrixMessage) (ref : String) :
    (putMessage t row).get ref =
      if row.evidenceRef = ref then some ((t.get ref).getD row) else t.get ref := by
  rw [putMessage]
  cases hinsert : t.insert row with
  | none =>
    obtain ⟨x, hx, hkey⟩ := Table.exists_of_insert_eq_none hinsert
    split_ifs with href
    · rw [Option.getD_none, Table.get_eq_some.mpr ⟨hx, hkey.trans href⟩, Option.getD_some]
    · rfl
  | some t' =>
    rw [Option.getD_some, Table.get_insert hinsert]
    split_ifs with href
    · rw [← href, (Table.insert_eq_some hinsert).1, Option.getD_none]
    · rfl

theorem Sound.putMessage (hs : Sound room msgid s) {row : MatrixMessage} {groups : List String}
    (href : row.evidenceRef = matrixRef row.platformGroupid row.platformMsgid)
    (hother : row.evidenceRef = matrixRef room msgid →
      row.platformGroupid = room ∧ row.platformMsgid = msgid)
    (hgroups : ∀ g ∈ s.groups, g ∈ groups) (hgroup : row.platformGroupid ∈ groups) :
    Sound room msgid ⟨groups, putMessage s.messages row⟩ where
  ref r hr := by
    rcases mem_putMessage hr with hr | rfl
    · exact hs.ref r hr
    · exact href
  group r hr := by
    rcases mem_putMessage hr with hr | rfl
    · exact hgroups _ (hs.group r hr)
    · exact hgroup
  alone r hr := by
    rcases mem_putMessage hr with hr | rfl
    · exact hs.alone r hr
    · exact hother

theorem Sound.put (hs : Sound room msgid s) {row : MatrixMessage} (hrow : row ∈ s.messages)
    (e : TextEvent) (body : String) (editedAt : Datetime) :
    Sound room msgid { s with messages := s.messages.put (editedRow row e body editedAt) } where
  ref r hr := by
    rcases (Table.mem_put hrow (evidenceRef_editedRow row e body editedAt)).mp hr with rfl | ⟨hr, -⟩
    · exact hs.ref row hrow
    · exact hs.ref r hr
  group r hr := by
    rcases (Table.mem_put hrow (evidenceRef_editedRow row e body editedAt)).mp hr with rfl | ⟨hr, -⟩
    · exact hs.group row hrow
    · exact hs.group r hr
  alone r hr := by
    rcases (Table.mem_put hrow (evidenceRef_editedRow row e body editedAt)).mp hr with rfl | ⟨hr, -⟩
    · exact hs.alone row hrow
    · exact hs.alone r hr

/-! ### The step -/

/-- **The delivery of a message**, when no other message has the ref of the one in view. -/
theorem step_original (hs : Sound room msgid s) (h : isEdit d.2 = none)
    (hother : matrixRef d.1 d.2.eventId = matrixRef room msgid → d.1 = room ∧ d.2.eventId = msgid) :
    Sound room msgid (onMessage c s d) ∧
      (onMessage c s d).view room msgid = advance c room msgid (s.view room msgid) d := by
  have hedits : applied c room msgid d = [] := by simp [applied, h]
  have hcase := onMessage_original (c := c) (s := s) h
  split at hcase
  · next hok =>
    obtain ⟨sentAt, heq⟩ := hcase
    have hsound : Sound room msgid (onMessage c s d) := by
      rw [heq]
      refine hs.putMessage rfl hother ?_ ?_
      · intro g hg
        split_ifs
        · exact hg
        · exact List.mem_append_left _ hg
      · show d.1 ∈ _
        split_ifs with hgroup
        · exact hgroup
        · exact List.mem_append_right _ (List.mem_singleton_self _)
    refine ⟨hsound, ?_⟩
    rw [MatrixStore.view, resolveMessage_eq_get hsound, MatrixStore.view,
      resolveMessage_eq_get hs, heq, get_putMessage, advance, hedits, List.foldl_nil]
    by_cases horig : d.1 = room ∧ d.2.eventId = msgid
    · have htrue : isOriginal room msgid d = true := by simp [isOriginal, h, horig.1, horig.2]
      obtain ⟨rfl, rfl⟩ := horig
      rw [evidenceRef_textRow, if_pos rfl, if_pos htrue, if_pos hok]
      cases s.messages.get (matrixRef d.1 d.2.eventId) <;> rfl
    · have hfalse : isOriginal room msgid d = false := by simpa [isOriginal, h] using horig
      rw [evidenceRef_textRow, if_neg (fun href => horig (hother href)), hfalse]
      rfl
  · next hok =>
    rw [hcase, advance, hedits, List.foldl_nil]
    refine ⟨hs, ?_⟩
    split_ifs with horig hours
    · simp only [isOriginal, Bool.and_eq_true, beq_iff_eq] at horig
      exact absurd (horig.1.2 ▸ hours) hok
    · rfl
    · rfl

/-- **The delivery of an edit.** -/
theorem step_edit {target body : String} (hs : Sound room msgid s)
    (h : isEdit d.2 = some (target, body)) :
    Sound room msgid (onMessage c s d) ∧
      (onMessage c s d).view room msgid = advance c room msgid (s.view room msgid) d := by
  have hnot : isOriginal room msgid d = false := by simp [isOriginal, h]
  have hversion : version d.2 = (d.2.eventId, body) := by simp [version, newBody, h]
  have hbody : newBody d.2 = body := by simp [newBody, h]
  rw [advance, hnot, if_neg Bool.false_ne_true, applied, h, Option.map_some]
  by_cases hok : accepted c d.1 d.2 = true
  · cases hrow : resolveMessage s.messages d.1 target with
    | none =>
      rw [onMessage_edit_of_none h fun _ => hrow]
      refine ⟨hs, ?_⟩
      split_ifs with hours
      · obtain ⟨rfl, -, htarget⟩ := hours
        obtain rfl := Option.some.inj htarget
        simp [MatrixStore.view, hrow]
      · rfl
    | some row =>
      obtain ⟨editedAt, heq⟩ := onMessage_edit_of_some hs h hok hrow
      obtain ⟨hmem, hgroup, hmsgid⟩ := (resolveMessage_eq_some hs).mp hrow
      have hsound := hs.put hmem d.2 body editedAt
      rw [heq]
      refine ⟨hsound, ?_⟩
      rw [MatrixStore.view, resolveMessage_eq_get hsound,
        Table.get_put hmem (evidenceRef_editedRow row d.2 body editedAt), hs.ref row hmem, hgroup,
        hmsgid]
      by_cases hours : d.1 = room ∧ target = msgid
      · obtain ⟨rfl, rfl⟩ := hours
        rw [if_pos rfl, if_pos ⟨rfl, hok, rfl⟩, Option.map_some, view_editedRow, hmsgid]
        simp [MatrixStore.view, hrow, hbody, hversion]
        rfl
      · have hother : matrixRef d.1 target ≠ matrixRef room msgid := by
          intro href
          obtain ⟨hroom, hid⟩ := hs.alone row hmem (by rw [hs.ref row hmem, hgroup, hmsgid, href])
          exact hours ⟨hgroup ▸ hroom, hmsgid ▸ hid⟩
        rw [if_neg hother, if_neg fun h => hours ⟨h.1, Option.some.inj h.2.2⟩, List.foldl_nil,
          MatrixStore.view, resolveMessage_eq_get hs]
  · have hours : ¬(d.1 = room ∧ accepted c room d.2 = true ∧ some target = some msgid) := by
      rintro ⟨rfl, hours, -⟩
      exact hok hours
    rw [if_neg hours, onMessage_edit_of_none h fun hok' => absurd hok' hok]
    exact ⟨hs, rfl⟩

/-- **One delivery**, as far as one message is concerned. -/
theorem step (hs : Sound room msgid s)
    (hother : isEdit d.2 = none → matrixRef d.1 d.2.eventId = matrixRef room msgid →
      d.1 = room ∧ d.2.eventId = msgid) :
    Sound room msgid (onMessage c s d) ∧
      (onMessage c s d).view room msgid = advance c room msgid (s.view room msgid) d := by
  cases hedit : isEdit d.2 with
  | none => exact step_original hs hedit (hother hedit)
  | some edit => exact step_edit hs hedit

/-- **Any deliveries**, as far as one message is concerned. -/
theorem view_deliver {ds : List Delivery} (hs : Sound room msgid s)
    (hother : ∀ d ∈ ds, isEdit d.2 = none → matrixRef d.1 d.2.eventId = matrixRef room msgid →
      d.1 = room ∧ d.2.eventId = msgid) :
    Sound room msgid (deliver c s ds) ∧
      (deliver c s ds).view room msgid = ds.foldl (advance c room msgid) (s.view room msgid) := by
  induction ds generalizing s with
  | nil => exact ⟨hs, rfl⟩
  | cons d ds ih =>
    obtain ⟨hnext, hview⟩ := step (c := c) hs (hother d List.mem_cons_self)
    have hrest := ih hnext fun d' hd' => hother d' (List.mem_cons_of_mem d hd')
    rw [hview] at hrest
    exact hrest

end Store

/-! ## One message and its edits -/

section Message

variable {room : String} {orig : TextEvent} {es : List TextEvent} {ds : List Delivery}
variable {d : Delivery}

/-- The deliveries after the first one of the message itself. -/
def afterOriginal (room msgid : String) (ds : List Delivery) : List Delivery :=
  (ds.dropWhile fun d => !isOriginal room msgid d).tail

/-- The deliveries of edits of the message. -/
def editsIn (room msgid : String) (ds : List Delivery) : List TextEvent :=
  (ds.filter fun d => d.1 = room ∧ (isEdit d.2).map Prod.fst = some msgid).map Prod.snd

theorem advance_none (h : isOriginal room orig.eventId d = false) :
    advance c room orig.eventId none d = none := by
  rw [advance, h, if_neg Bool.false_ne_true, applied]
  split_ifs <;> rfl

/-- Every further delivery adds the edits it applies. -/
theorem advance_history :
    advance c room orig.eventId (some (history orig es)) d =
      some (history orig (es ++ applied c room orig.eventId d)) := by
  rw [advance]
  split_ifs with horig hok
  · have hnone : applied c room orig.eventId d = [] := by
      simp only [isOriginal, Bool.and_eq_true, Option.isNone_iff_eq_none] at horig
      simp [applied, horig.1.1]
    rw [hnone, List.append_nil, Option.getD_some]
  · have hnone : applied c room orig.eventId d = [] := by
      simp only [isOriginal, Bool.and_eq_true, Option.isNone_iff_eq_none] at horig
      simp [applied, horig.1.1]
    rw [hnone, List.append_nil]
  · rw [applied]
    split_ifs
    · simp only [history, List.map_append, List.map_cons, List.map_nil, List.getLast?_concat]
      cases es <;> rfl
    · rw [List.append_nil, List.foldl_nil]

theorem foldl_advance_history :
    ds.foldl (advance c room orig.eventId) (some (history orig es)) =
      some (history orig (es ++ ds.flatMap (applied c room orig.eventId))) := by
  induction ds generalizing es with
  | nil => rw [List.flatMap_nil, List.append_nil, List.foldl_nil]
  | cons d ds ih =>
    rw [List.foldl_cons, advance_history, ih, List.flatMap_cons, List.append_assoc]

theorem advance_original (h : isOriginal room orig.eventId d = true) (horig : d.2 = orig) :
    advance c room orig.eventId none d =
      if accepted c room orig ∧ orig.body ≠ "" then some (history orig []) else none := by
  rw [advance, if_pos h, horig]
  rfl

/-- A message that is refused leaves nothing. -/
theorem foldl_advance_refused (hrefused : ¬(accepted c room orig ∧ orig.body ≠ ""))
    (horig : ∀ d ∈ ds, isOriginal room orig.eventId d = true → d.2 = orig) :
    ds.foldl (advance c room orig.eventId) none = none := by
  induction ds with
  | nil => rfl
  | cons d ds ih =>
    have hnone : advance c room orig.eventId none d = none := by
      cases hd : isOriginal room orig.eventId d with
      | true => rw [advance_original hd (horig d List.mem_cons_self hd), if_neg hrefused]
      | false => exact advance_none hd
    rw [List.foldl_cons, hnone]
    exact ih fun d' hd' => horig d' (List.mem_cons_of_mem d hd')

/-- A message that is taken has the edits applied after its first delivery. -/
theorem foldl_advance_taken (htaken : accepted c room orig ∧ orig.body ≠ "")
    (horig : ∀ d ∈ ds, isOriginal room orig.eventId d = true → d.2 = orig)
    (hsome : ∃ d ∈ ds, isOriginal room orig.eventId d = true) :
    ds.foldl (advance c room orig.eventId) none =
      some (history orig ((afterOriginal room orig.eventId ds).flatMap
        (applied c room orig.eventId))) := by
  induction ds with
  | nil =>
    obtain ⟨d, hd, -⟩ := hsome
    cases hd
  | cons d ds ih =>
    cases hd : isOriginal room orig.eventId d with
    | true =>
      have hafter : afterOriginal room orig.eventId (d :: ds) = ds := by
        rw [afterOriginal, List.dropWhile_cons_of_neg (by simp [hd]), List.tail_cons]
      rw [List.foldl_cons, advance_original hd (horig d List.mem_cons_self hd), if_pos htaken,
        foldl_advance_history, hafter, List.nil_append]
    | false =>
      have hafter : afterOriginal room orig.eventId (d :: ds) =
          afterOriginal room orig.eventId ds := by
        rw [afterOriginal, List.dropWhile_cons_of_pos (by simp [hd]), afterOriginal]
      rw [List.foldl_cons, advance_none hd, hafter]
      refine ih (fun d' hd' => horig d' (List.mem_cons_of_mem d hd')) ?_
      obtain ⟨d', hd', hone⟩ := hsome
      rcases List.mem_cons.mp hd' with rfl | hd'
      · rw [hd] at hone
        cases hone
      · exact ⟨d', hd', hone⟩

/-- Deliveries in which the message and every one of its edits come, each at least once and in any
order, among any other traffic; an event id and a ref each name one event. -/
structure Delivered (room : String) (orig : TextEvent) (edits : List TextEvent)
    (ds : List Delivery) : Prop where
  original : isEdit orig = none
  edit : ∀ e ∈ edits, (isEdit e).map Prod.fst = some orig.eventId
  ids : (edits.map TextEvent.eventId).Nodup
  times : (edits.map TextEvent.serverTimestamp).Nodup
  all : ∀ e ∈ orig :: edits, (room, e) ∈ ds
  onlyOriginal : ∀ d ∈ ds, isEdit d.2 = none →
    matrixRef d.1 d.2.eventId = matrixRef room orig.eventId → d = (room, orig)
  onlyEdits : ∀ e, (room, e) ∈ ds → (isEdit e).map Prod.fst = some orig.eventId → e ∈ edits

/-- It is the body of the latest edit by timestamp, or of the message where there is no edit. -/
def IsLatestBody (orig : TextEvent) (edits : List TextEvent) (body : String) : Prop :=
  (edits = [] → body = orig.body) ∧
    ∀ e ∈ edits, (∀ f ∈ edits, f.serverTimestamp ≤ e.serverTimestamp) → body = newBody e

/-- The stored row shows the latest edit, and holds the original and every edit once. -/
def Kept (s : MatrixStore) (room : String) (orig : TextEvent) (edits : List TextEvent) : Prop :=
  ∃ row ∈ s.messages, row.platformGroupid = room ∧ row.platformMsgid = orig.eventId ∧
    IsLatestBody orig edits row.body ∧
    (row.edits.map fun v => (v.eventId, v.body)).Perm
      ((orig.eventId, orig.body) :: edits.map version)

/-- The message and its edits are taken, there is an edit, each is delivered exactly once after the
first delivery of the message, and the last of them has the body of the latest. -/
structure InOrder (c : MatrixCollector) (room : String) (orig : TextEvent)
    (edits : List TextEvent) (ds : List Delivery) : Prop where
  edited : edits ≠ []
  accepted : ∀ e ∈ orig :: edits, accepted c room e
  body : orig.body ≠ ""
  once : ∀ e ∈ edits, ((editsIn room orig.eventId (afterOriginal room orig.eventId ds)).map
    TextEvent.eventId).count e.eventId = 1
  last : ∀ e ∈ (editsIn room orig.eventId (afterOriginal room orig.eventId ds)).getLast?,
    IsLatestBody orig edits (newBody e)

variable {edits : List TextEvent}

theorem Delivered.eq_original (h : Delivered room orig edits ds) (hd : d ∈ ds)
    (horig : isOriginal room orig.eventId d = true) : d.2 = orig := by
  simp only [isOriginal, Bool.and_eq_true, Option.isNone_iff_eq_none, beq_iff_eq] at horig
  obtain ⟨⟨hkind, hroom⟩, hid⟩ := horig
  rw [h.onlyOriginal d hd hkind (by rw [hroom, hid])]

/-- The edits that the deliveries after the message apply. -/
def appliedAfter (c : MatrixCollector) (room : String) (orig : TextEvent) (ds : List Delivery) :
    List TextEvent :=
  (afterOriginal room orig.eventId ds).flatMap (applied c room orig.eventId)

theorem Delivered.ref_alone (h : Delivered room orig edits ds) : ∀ d ∈ ds, isEdit d.2 = none →
    matrixRef d.1 d.2.eventId = matrixRef room orig.eventId →
    d.1 = room ∧ d.2.eventId = orig.eventId := by
  intro d hd hkind href
  rw [h.onlyOriginal d hd hkind href]
  exact ⟨rfl, rfl⟩

/-- **What is stored of a message after any deliveries.** -/
theorem Delivered.view_eq (h : Delivered room orig edits ds) :
    (deliver c MatrixStore.init ds).view room orig.eventId =
      if accepted c room orig ∧ orig.body ≠ "" then
        some (history orig (appliedAfter c room orig ds))
      else none := by
  have horig : ∀ d ∈ ds, isOriginal room orig.eventId d = true → d.2 = orig :=
    fun d hd => h.eq_original hd
  rw [(view_deliver sound_init h.ref_alone).2]
  split_ifs with htaken
  · refine foldl_advance_taken htaken horig ⟨(room, orig), h.all orig List.mem_cons_self, ?_⟩
    simp [isOriginal, h.original]
  · exact foldl_advance_refused htaken horig

theorem flatMap_applied (room msgid : String) (ds : List Delivery) :
    ds.flatMap (applied c room msgid) = (editsIn room msgid ds).filter (accepted c room) := by
  induction ds with
  | nil => rfl
  | cons d ds ih =>
    rw [List.flatMap_cons, ih, editsIn, editsIn, List.filter_cons, applied]
    by_cases hedit : d.1 = room ∧ (isEdit d.2).map Prod.fst = some msgid
    · by_cases hok : accepted c room d.2 = true <;> simp [hedit, hok]
    · have hnone : ¬(d.1 = room ∧ accepted c room d.2 = true ∧
          (isEdit d.2).map Prod.fst = some msgid) := fun h => hedit ⟨h.1, h.2.2⟩
      rw [if_neg hnone, List.nil_append, decide_eq_false hedit, if_neg Bool.false_ne_true]

theorem Delivered.editsIn_subset (h : Delivered room orig edits ds) :
    editsIn room orig.eventId (afterOriginal room orig.eventId ds) ⊆ edits := by
  intro e he
  obtain ⟨d, hd, rfl⟩ := List.mem_map.mp he
  rw [List.mem_filter, decide_eq_true_eq] at hd
  obtain ⟨hmem, rfl, htarget⟩ := hd
  exact h.onlyEdits d.2 ((List.dropWhile_subset _) (List.mem_of_mem_tail hmem)) htarget

theorem history_body {e : TextEvent} (h : es.getLast? = some e) :
    (history orig es).1 = newBody e := by
  simp only [history, List.getLast?_map, h, Option.map_some, Option.getD_some]

/-- Under distinct ids, a list of edits holds each once exactly when it is a permutation. -/
theorem perm_iff_once (hsub : es ⊆ edits) (hids : (edits.map TextEvent.eventId).Nodup) :
    es.Perm edits ↔ ∀ e ∈ edits, (es.map TextEvent.eventId).count e.eventId = 1 := by
  refine ⟨?_, ?_⟩
  · intro hperm e he
    rw [(hperm.map _).count_eq]
    exact List.count_eq_one_of_mem hids (List.mem_map_of_mem he)
  · intro honce
    have hinj := List.inj_on_of_nodup_map hids
    have hnodup : (es.map TextEvent.eventId).Nodup := by
      refine List.nodup_iff_count_le_one.mpr fun id => ?_
      by_cases hid : id ∈ es.map TextEvent.eventId
      · obtain ⟨e, he, rfl⟩ := List.mem_map.mp hid
        exact (honce e (hsub he)).le
      · rw [List.count_eq_zero_of_not_mem hid]
        exact zero_le_one
    apply (List.perm_ext_iff_of_nodup hnodup.of_map hids.of_map).mpr
    refine fun e => ⟨fun he => hsub he, fun he => ?_⟩
    have hmem : e.eventId ∈ es.map TextEvent.eventId :=
      List.count_pos_iff.mp (by rw [honce e he]; exact one_pos)
    obtain ⟨f, hf, hid⟩ := List.mem_map.mp hmem
    exact hinj (hsub hf) he hid ▸ hf

/-- The versions kept are those that are to be kept. -/
theorem versions_perm_iff (hsub : es ⊆ edits) (hids : (edits.map TextEvent.eventId).Nodup) :
    (history orig es).2.Perm ((orig.eventId, orig.body) :: edits.map version) ↔
      es ≠ [] ∧ es.Perm edits := by
  rw [history]
  split_ifs with hnil
  · simp [hnil]
  · rw [List.perm_cons, and_iff_right hnil]
    refine ⟨fun hperm => ?_, fun hperm => hperm.map version⟩
    have hmap : ∀ l : List TextEvent, (l.map version).map Prod.fst = l.map TextEvent.eventId :=
      fun l => by rw [List.map_map]; rfl
    have hperm_ids := hperm.map Prod.fst
    rw [hmap, hmap] at hperm_ids
    refine (perm_iff_once hsub hids).mpr fun e he => ?_
    rw [hperm_ids.count_eq]
    exact List.count_eq_one_of_mem hids (List.mem_map_of_mem he)

theorem kept_iff_view {s : MatrixStore} (hs : Sound room orig.eventId s) :
    Kept s room orig edits ↔ ∃ v, s.view room orig.eventId = some v ∧
      IsLatestBody orig edits v.1 ∧
      v.2.Perm ((orig.eventId, orig.body) :: edits.map version) := by
  refine ⟨?_, ?_⟩
  · rintro ⟨row, hrow, hroom, hid, hbody, hperm⟩
    refine ⟨row.view, ?_, hbody, hperm⟩
    rw [MatrixStore.view, (resolveMessage_eq_some hs).mpr ⟨hrow, hroom, hid⟩, Option.map_some]
  · rintro ⟨v, hview, hbody, hperm⟩
    obtain ⟨row, hrow, rfl⟩ := Option.map_eq_some_iff.mp hview
    obtain ⟨hmem, hroom, hid⟩ := (resolveMessage_eq_some hs).mp hrow
    exact ⟨row, hmem, hroom, hid, hbody, hperm⟩

/-- **The row shows the latest edit and keeps every version once exactly when the edits come in
order.** -/
theorem kept_iff_inOrder (h : Delivered room orig edits ds) :
    Kept (deliver c MatrixStore.init ds) room orig edits ↔ InOrder c room orig edits ds := by
  rw [kept_iff_view (view_deliver sound_init h.ref_alone).1, h.view_eq, appliedAfter,
    flatMap_applied]
  have hsub := h.editsIn_subset
  set arrived := editsIn room orig.eventId (afterOriginal room orig.eventId ds) with harrived
  have hsub' : arrived.filter (accepted c room) ⊆ edits :=
    fun e he => hsub (List.mem_of_mem_filter he)
  refine ⟨?_, ?_⟩
  · rintro ⟨v, hview, hbody, hperm⟩
    split_ifs at hview with htaken
    cases hview
    obtain ⟨hne, hperm⟩ := (versions_perm_iff hsub' h.ids).mp hperm
    have hall : ∀ e ∈ edits, accepted c room e = true :=
      fun e he => (List.mem_filter.mp (hperm.mem_iff.mpr he)).2
    have hkept : arrived.filter (accepted c room) = arrived :=
      List.filter_eq_self.mpr fun e he => hall e (hsub he)
    rw [hkept] at hne hperm hbody
    refine ⟨?_, ?_, htaken.2, (perm_iff_once hsub h.ids).mp hperm, ?_⟩
    · rintro rfl
      exact hne hperm.eq_nil
    · intro e he
      rcases List.mem_cons.mp he with rfl | he
      · exact htaken.1
      · exact hall e he
    · intro e he
      rwa [history_body he] at hbody
  · rintro ⟨hedited, haccepted, hbody, honce, hlast⟩
    have hkept : arrived.filter (accepted c room) = arrived :=
      List.filter_eq_self.mpr fun e he => haccepted e (List.mem_cons_of_mem orig (hsub he))
    have hperm := (perm_iff_once hsub h.ids).mpr honce
    have hne : arrived ≠ [] := by
      intro hnil
      rw [hnil] at hperm
      exact hedited hperm.symm.eq_nil
    rw [if_pos ⟨haccepted orig List.mem_cons_self, hbody⟩, hkept]
    refine ⟨_, rfl, ?_, (versions_perm_iff hsub h.ids).mpr ⟨hne, hperm⟩⟩
    have hlast' := List.getLast?_eq_getLast_of_ne_nil hne
    rw [history_body hlast']
    exact hlast _ hlast'

/-! ### One message with one edit -/

theorem delivered_pair {e : TextEvent} (hkind : isEdit orig = none)
    (hedit : (isEdit e).map Prod.fst = some orig.eventId)
    (hall : (room, orig) ∈ ds ∧ (room, e) ∈ ds)
    (honly : ∀ d ∈ ds, d = (room, orig) ∨ d = (room, e)) : Delivered room orig [e] ds where
  original := hkind
  edit := by simpa using hedit
  ids := List.nodup_singleton _
  times := List.nodup_singleton _
  all := by simpa using hall
  onlyOriginal d hd hnone _ := by
    rcases honly d hd with rfl | rfl
    · rfl
    · rw [hnone] at hedit
      cases hedit
  onlyEdits f hf htarget := by
    rcases honly _ hf with heq | heq
    · rw [(Prod.mk.inj heq).2, hkind] at htarget
      cases htarget
    · exact List.mem_singleton.mpr (Prod.mk.inj heq).2

end Message

/-- `datetime.fromtimestamp` in the two instants of the sample. -/
def sampleClock (ms : ℤ) : Option Datetime :=
  let utc := UtcOffset.ofMicros false 0
  if ms = 1716000000000 then Datetime.ofFields 2024 5 18 2 40 0 0 utc
  else if ms = 1716000500000 then Datetime.ofFields 2024 5 18 2 48 20 0 utc
  else none

/-- A collector that monitors every room. -/
def everywhere : MatrixCollector := ⟨[], some "@alpha_mx:example.org", sampleClock⟩

def draft : TextEvent where
  eventId := "$orig"
  sender := some "@bob:example.org"
  serverTimestamp := 1716000000000
  body := "first draft"
  source := .obj [("content", .obj [("msgtype", .str "m.text"), ("body", .str "first draft")])]

def redraft : TextEvent where
  eventId := "$edit1"
  sender := some "@bob:example.org"
  serverTimestamp := 1716000500000
  body := "* second draft"
  source := .obj [("content", .obj [("msgtype", .str "m.text"), ("body", .str "* second draft"),
    ("m.new_content", .obj [("msgtype", .str "m.text"), ("body", .str "second draft")]),
    ("m.relates_to", .obj [("rel_type", .str "m.replace"), ("event_id", .str "$orig")])])]

theorem kept_iff_inOrder_draft :
    Kept (deliver everywhere .init [("!room", draft), ("!room", redraft)]) "!room" draft
      [redraft] :=
  (kept_iff_inOrder (delivered_pair (by decide) (by decide)
    (by simp) (by simp))).mpr
    { edited := List.cons_ne_nil _ _
      accepted := by decide
      body := by decide
      once := by decide
      last := by
        unfold IsLatestBody
        decide }

/-- A page of a backfill has the edit before the message: the edit is lost. -/
theorem not_kept_backward :
    Delivered "!room" draft [redraft] [("!room", redraft), ("!room", draft)] ∧
      ¬Kept (deliver everywhere .init [("!room", redraft), ("!room", draft)]) "!room" draft
        [redraft] := by
  refine ⟨delivered_pair (by decide) (by decide) (by simp) (by simp), ?_⟩
  unfold Kept IsLatestBody
  decide

end Eyenet.MatrixEdits
