import Eyenet.CorpusCursor
import Mathlib.Data.Rat.Defs
import Mathlib.Algebra.Order.Ring.Rat

/-!
# What a writing profile is made from

The Telegram collector attributes a message to its author, stores it, and publishes it when it is
an individual's own (`collectors/telegram/real.py`). For a published message the sensor skips
templated spam (`linker/copypasta.py`), and hands the primitives what is stored of the actor
(`sensor/stylometric.py`, `sqlmodel_repo/corpus.py`). A dispatch is one step here, and so is an
ingest; `CorpusCursor` takes a dispatch apart. Ghost fields record what was relayed, what was
skipped and what the primitives were given.

* `Profiling.clean_step_iff` — what one step does to the windows.
* `Profiling.clean_iff` — exactly when no window has the body of a relayed or skipped message.
-/

namespace Eyenet

open Machine

/-! ## Authorship -/

/-- `fwd_from`, with the marked id that its origin resolves to. -/
structure FwdHeader where
  fromId : Option ℤ
  fromName : Option String

/-- `TLMessage`; the date is a Unix time. -/
structure TlMessage where
  id : ℤ
  fwdFrom : Option FwdHeader
  senderId : Option ℤ
  message : String
  date : ℕ

/-- `User` -/
structure TlUser where
  username : Option String
  firstName : Option String
  lastName : Option String
  bot : Bool

/-- `_Authorship` -/
structure Authorship where
  actorKey : String
  platformUserid : String
  handle : Option String
  displayName : Option String
  isForward : Bool
  isChannelAuthor : Bool
  relayedByPlatformUserid : Option String
  isBot : Bool

/-- A string that is not empty. -/
def nonempty (s : Option String) : Option String := s.filter fun x => x ≠ ""

/-- `_actor_key` -/
def actorKeyOf (sha256 : String → String) (token : String) : String :=
  "actor:" ++ sha256 ("telegram||" ++ token)

/-- `_authorship`; the sender is there when it is a `User`. -/
def authorship (sha256 : String → String) (msg : TlMessage) (sender : Option TlUser) :
    Authorship :=
  match msg.fwdFrom with
  | some fwd =>
    let relay := toString (msg.senderId.getD 0)
    match fwd.fromId with
    | some origin =>
      { actorKey := actorKeyOf sha256 (toString origin), platformUserid := toString origin
        handle := none, displayName := fwd.fromName, isForward := true
        isChannelAuthor := decide (origin < 0), relayedByPlatformUserid := some relay
        isBot := false }
    | none =>
      let name := (nonempty fwd.fromName).getD "unknown"
      { actorKey := actorKeyOf sha256 ("fwdname:" ++ name), platformUserid := "fwd:" ++ name
        handle := none, displayName := fwd.fromName, isForward := true, isChannelAuthor := true
        relayedByPlatformUserid := some relay, isBot := false }
  | none =>
    let senderId := msg.senderId.getD 0
    { actorKey := actorKeyOf sha256 (toString senderId), platformUserid := toString senderId
      handle := (sender.bind fun u => nonempty u.username).map fun name => "@" ++ name
      displayName := sender.bind fun u =>
        nonempty (" ".intercalate [nonempty u.firstName, nonempty u.lastName].reduceOption)
      isForward := false, isChannelAuthor := sender.isNone || decide (senderId < 0)
      relayedByPlatformUserid := none, isBot := sender.elim false TlUser.bot }

/-- The message is not an individual's own. -/
def Authorship.relayed (author : Authorship) : Bool := author.isForward || author.isChannelAuthor

/-- `_strip_100` -/
def strip100 (n : ℤ) : ℕ :=
  let digits := Nat.toDigits 10 n.natAbs
  if digits.take 3 = ['1', '0', '0'] ∧ 3 < digits.length then
    (digits.drop 3).foldl (fun k c => 10 * k + (c.toNat - '0'.toNat)) 0
  else n.natAbs

/-- `_group_platform_id` -/
def groupPlatformId (username : Option String) (rawPositiveId : ℕ) : String :=
  match nonempty username with
  | some name => "@" ++ name
  | none => toString rawPositiveId

/-! ## Storage -/

/-- A row of the actor table. -/
structure TelegramActor where
  actorKey : String
  id : Uuid
  platformUserid : String
  currentHandle : Option String
  currentDisplayName : Option String
  isBotSelfDeclared : Bool
  deriving DecidableEq

/-- `upsert_actor`; `none` when the new row has the id of another. -/
def upsertActor (actors : Table TelegramActor.actorKey) (newId : Uuid) (author : Authorship) :
    Option (Table TelegramActor.actorKey × Uuid) :=
  match actors.get author.actorKey with
  | some row =>
    let row := { row with
      currentHandle := (nonempty author.handle).or row.currentHandle
      currentDisplayName := (nonempty author.displayName).or row.currentDisplayName
      isBotSelfDeclared := author.isBot || row.isBotSelfDeclared }
    some (actors.put row, row.id)
  | none =>
    if ∃ row ∈ actors, row.id = newId then none
    else
      let row : TelegramActor := ⟨author.actorKey, newId, author.platformUserid, author.handle,
        author.displayName, author.isBot⟩
      some (actors.save row, newId)

/-- A row of the message table, with its body. -/
structure StoredPost extends CorpusMessage where
  body : String
  deriving DecidableEq

/-- `put_message`; a row with a known id or evidence is a duplicate. -/
def putMessage (posts : List StoredPost) (post : StoredPost) : List StoredPost :=
  if ∃ p ∈ posts, p.id = post.id ∨ p.evidenceRef = post.evidenceRef then posts
  else posts ++ [post]

/-- `get_message_body` -/
def getMessageBody (posts : List StoredPost) (evidenceRef : String) : Option String :=
  (posts.find? fun p => p.evidenceRef = evidenceRef).map StoredPost.body

/-- `get_message_id_by_evidence_ref` -/
def getMessageId (posts : List StoredPost) (evidenceRef : String) : Option Uuid :=
  (posts.find? fun p => p.evidenceRef = evidenceRef).map fun p => p.id

/-- `_batch_fetch_bodies`, by evidence. -/
def batchFetchBodies (posts : List StoredPost) (corpus : List CorpusMessage) :
    List (String × String) :=
  corpus.filterMap fun m => (getMessageBody posts m.evidenceRef).map fun body =>
    (m.evidenceRef, body)

/-! ## Copypasta -/

/-- `TEMPLATE_MIN_CHARS` -/
def templateMinChars : ℕ := 200

/-- `TEMPLATE_MIN_ACTORS` -/
def templateMinActors : ℕ := 3

/-- `is_copypasta` -/
def isCopypasta (charLen distinctActors : ℕ) : Bool :=
  decide (templateMinChars ≤ charLen) && decide (templateMinActors ≤ distinctActors)

/-- A row of the template table. -/
structure ContentTemplate where
  fingerprint : String
  charLen : ℕ
  occurrenceCount : ℕ
  distinctActorCount : ℕ
  isCopypasta : Bool
  deriving DecidableEq

/-- `template_fingerprint` -/
def templateFingerprint (sha256 normalizeForTemplate : String → String) (body : String) :
    String :=
  sha256 (normalizeForTemplate body)

/-- `detect_copypasta_templates`; an upsert keeps the length that a template has. -/
def detectCopypastaTemplates (sha256 normalizeForTemplate : String → String)
    (posts : List StoredPost) (templates : Table ContentTemplate.fingerprint) :
    Table ContentTemplate.fingerprint :=
  let fp (p : StoredPost) := templateFingerprint sha256 normalizeForTemplate p.body
  let texts := posts.filter fun p => p.body ≠ ""
  (texts.map fp).dedup.foldl (fun templates fingerprint =>
    let group := texts.filter fun p => fp p = fingerprint
    let charLen := group.head?.elim 0 fun p => (normalizeForTemplate p.body).length
    let actors := (group.map fun p => p.actorId).dedup.length
    let kept := (templates.get fingerprint).elim charLen ContentTemplate.charLen
    templates.save ⟨fingerprint, kept, group.length, actors, isCopypasta charLen actors⟩) templates

/-- `flagged_copypasta_fingerprints` -/
def flaggedCopypastaFingerprints (templates : Table ContentTemplate.fingerprint) : List String :=
  (templates.rows.filter ContentTemplate.isCopypasta).map ContentTemplate.fingerprint

/-- `_COPYPASTA_TTL_S` -/
def copypastaTtl : ℚ := 300

/-! ## The sensor -/

/-- The primitives with `requires_bodies=False`. -/
def bodilessPrimitives : List String :=
  ["meta.total_messages", "meta.corpus_span_days", "meta.msg_per_day", "meta.active_days",
    "meta.activity_density", "meta.first_seen_ts", "meta.last_seen_ts",
    "meta.fingerprint_confidence"]

/-- `requires_bodies` -/
def PrimitiveSpec.requiresBodies (spec : PrimitiveSpec) : Bool :=
  decide (spec.name ∉ bodilessPrimitives)

/-- A raw message event, as far as the sensor reads it. -/
structure RawMessageEnvelope where
  evidenceRef : String
  actorKey : String
  sentAt : ℤ
  deriving DecidableEq

/-- What a primitive is given: the window, and the bodies by evidence. -/
structure HandedWindow where
  actorId : Uuid
  name : String
  rows : List CorpusMessage
  bodies : List (String × String)
  deriving DecidableEq

/-- The tables, the bus and the sensor's cache of fingerprints. The last three fields record the
evidence of what was ingested as a forward or a channel's post, the evidence of what was skipped,
and the windows. -/
structure Profiling where
  actors : Table TelegramActor.actorKey
  posts : List StoredPost
  cursors : Table CorpusCursorRow.key
  templates : Table ContentTemplate.fingerprint
  published : List RawMessageEnvelope
  fingerprints : List String
  loadedAt : ℚ
  relayed : List String
  skipped : List String
  handed : List HandedWindow

/-- The arguments of `_ingest_msg`, and the ids that it draws. -/
structure Ingest where
  msg : TlMessage
  chatId : ℤ
  username : Option String
  sender : Option TlUser
  newActorId : Uuid
  newId : Uuid
  newId_ne : newId ≠ 0

/-- The evidence of the message. -/
def Ingest.evidenceRef (i : Ingest) : String :=
  "telegram:" ++ groupPlatformId i.username (strip100 i.chatId) ++ ":" ++ toString i.msg.id

/-- A delivery of an event, with the time, an id that is drawn, and which primitives give an
observation that is published. -/
structure Delivery where
  env : RawMessageEnvelope
  now : ℚ
  newId : Uuid
  observed : String → Bool

/-- What the sensor does with a delivery. -/
inductive DeliveryFate where
  | ignored
  | skipped
  | profiled (actorId : Uuid)
  deriving DecidableEq

namespace Profiling

/-- One step of the collector, of the detection or of the sensor. -/
inductive Step where
  | ingest (i : Ingest)
  | detect
  | deliver (d : Delivery)

/-- Before any message. -/
def init : Profiling := ⟨.empty, [], .empty, .empty, [], [], 0, [], [], []⟩

section Model

variable (sha256 normalizeForTemplate : String → String)

/-- `_ingest_msg_inner` -/
def ingest (s : Profiling) (i : Ingest) : Profiling :=
  let author := authorship sha256 i.msg i.sender
  match upsertActor s.actors i.newActorId author with
  | none => s
  | some (actors, actorId) =>
    let post : StoredPost := ⟨⟨i.newId, actorId, i.evidenceRef, i.msg.date⟩, i.msg.message⟩
    let stored := { s with actors := actors, posts := putMessage s.posts post }
    if author.relayed then { stored with relayed := i.evidenceRef :: s.relayed }
    else { stored with
      published := s.published ++ [⟨i.evidenceRef, author.actorKey, i.msg.date⟩] }

/-- `resolve_actor_id` -/
def resolveActorId (s : Profiling) (actorKey : String) : Option Uuid :=
  (s.actors.get actorKey).map TelegramActor.id

/-- The fingerprints after a refresh of the cache, and when it was. -/
def refreshed (s : Profiling) (now : ℚ) : List String × ℚ :=
  if copypastaTtl ≤ now - s.loadedAt then (flaggedCopypastaFingerprints s.templates, now)
  else (s.fingerprints, s.loadedAt)

/-- `_process`, up to the primitives. -/
def fate (s : Profiling) (d : Delivery) : DeliveryFate :=
  if d.env ∉ s.published then .ignored
  else
    match s.resolveActorId d.env.actorKey, getMessageBody s.posts d.env.evidenceRef with
    | some actorId, some body =>
      if templateFingerprint sha256 normalizeForTemplate body ∈ (s.refreshed d.now).1 then .skipped
      else .profiled actorId
    | _, _ => .ignored

/-- The messages that are stored. -/
def messages (s : Profiling) : List CorpusMessage := s.posts.map StoredPost.toCorpusMessage

/-- The cursor that a primitive reads from. -/
def sinceOf (s : Profiling) (actorId : Uuid) (spec : PrimitiveSpec) : Cursor :=
  if spec.requiresFullCorpus then Cursor.epoch else getCursor s.cursors actorId spec.name

/-- `_compute_primitive`: what the primitive is given of the actor. -/
def windowOf (s : Profiling) (actorId : Uuid) (spec : PrimitiveSpec) : HandedWindow :=
  let rows := iterCorpusSince s.messages actorId (s.sinceOf actorId spec)
  let bodies :=
    if spec.requiresReplyCorpus && spec.hasComputeWithReply then []
    else if spec.requiresBodies then batchFetchBodies s.posts rows
    else []
  ⟨actorId, spec.name, rows, bodies⟩

/-- The windows that are handed over: those with a row. -/
def windowsOf (s : Profiling) (actorId : Uuid) : List HandedWindow :=
  (primitives.map (s.windowOf actorId)).filter fun w => !w.rows.isEmpty

/-- `_run_primitives` -/
def runPrimitives (s : Profiling) (actorId : Uuid) (d : Delivery) : Profiling :=
  let currentMsgId := (getMessageId s.posts d.env.evidenceRef).getD d.newId
  let windows := s.windowsOf actorId
  let updates := (windows.filter fun w => d.observed w.name).map fun w =>
    (w.name, (d.env.sentAt, currentMsgId))
  { s with
    cursors := setCursorsBulk s.cursors actorId updates
    handed := s.handed ++ windows }

/-- `_process` -/
def deliver (s : Profiling) (d : Delivery) : Profiling :=
  let cached := { s with
    fingerprints := (s.refreshed d.now).1, loadedAt := (s.refreshed d.now).2 }
  match s.fate sha256 normalizeForTemplate d with
  | .ignored => s
  | .skipped => { cached with skipped := d.env.evidenceRef :: s.skipped }
  | .profiled actorId => cached.runPrimitives actorId d

/-- One step. -/
def step (s : Profiling) : Step → Option Profiling
  | .ingest i => some (s.ingest sha256 i)
  | .detect => some { s with
      templates := detectCopypastaTemplates sha256 normalizeForTemplate s.posts s.templates }
  | .deliver d => some (s.deliver sha256 normalizeForTemplate d)

/-- The primitives were given the body of the message. -/
def Handed (s : Profiling) (evidenceRef : String) : Prop :=
  ∃ w ∈ s.handed, ∃ x ∈ w.bodies, x.1 = evidenceRef

/-- The message was ingested as a forward or a channel's post, or it was skipped. -/
def Tainted (s : Profiling) (evidenceRef : String) : Prop :=
  evidenceRef ∈ s.relayed ∨ evidenceRef ∈ s.skipped

/-- No primitive was given the body of a tainted message. -/
def Clean (s : Profiling) : Prop := ∀ evidenceRef, s.Handed evidenceRef → ¬ s.Tainted evidenceRef

/-- When the primitives are run for an actor, nothing that is stored of the actor is tainted; and
nothing is relayed or skipped that the primitives were given before. -/
def Untainted (s : Profiling) : Step → Prop
  | .ingest i =>
    let author := authorship sha256 i.msg i.sender
    (upsertActor s.actors i.newActorId author).isSome → author.relayed = true →
      ¬ s.Handed i.evidenceRef
  | .detect => True
  | .deliver d =>
    match s.fate sha256 normalizeForTemplate d with
    | .ignored => True
    | .skipped => ¬ s.Handed d.env.evidenceRef
    | .profiled actorId => ∀ p ∈ s.posts, p.actorId = actorId → ¬ s.Tainted p.evidenceRef

end Model

variable {sha256 normalizeForTemplate : String → String} {s s' : Profiling} {a : Step}
  {actorId : Uuid} {evidenceRef : String}

/-! ## Windows -/

/-- A stored row is one that the full corpus has. -/
structure Inv (s : Profiling) : Prop where
  id_ne : ∀ p ∈ s.posts, p.id ≠ 0
  sentAt : ∀ p ∈ s.posts, 0 ≤ p.sentAt

theorem inv_init : init.Inv where
  id_ne _ h := absurd h List.not_mem_nil
  sentAt _ h := absurd h List.not_mem_nil

/-- The bodies of a corpus are those of its messages. -/
theorem exists_batchFetchBodies_iff {posts : List StoredPost} {corpus : List CorpusMessage}
    (hstored : ∀ m ∈ corpus, ∃ p ∈ posts, p.toCorpusMessage = m) :
    (∃ x ∈ batchFetchBodies posts corpus, x.1 = evidenceRef) ↔
      ∃ m ∈ corpus, m.evidenceRef = evidenceRef := by
  refine ⟨?_, ?_⟩
  · rintro ⟨x, hx, rfl⟩
    obtain ⟨m, hm, hbody⟩ := List.mem_filterMap.mp hx
    obtain ⟨body, -, rfl⟩ := Option.map_eq_some_iff.mp hbody
    exact ⟨m, hm, rfl⟩
  · rintro ⟨m, hm, rfl⟩
    obtain ⟨p, hp, rfl⟩ := hstored m hm
    have hfound : (posts.find? fun q => q.evidenceRef = p.evidenceRef).isSome :=
      List.find?_isSome.mpr ⟨p, hp, decide_eq_true rfl⟩
    obtain ⟨q, hq⟩ := Option.isSome_iff_exists.mp hfound
    refine ⟨(p.evidenceRef, q.body), List.mem_filterMap.mpr ⟨_, hm, ?_⟩, rfl⟩
    rw [getMessageBody, hq]
    rfl

theorem mem_messages {m : CorpusMessage} :
    m ∈ s.messages ↔ ∃ p ∈ s.posts, p.toCorpusMessage = m := List.mem_map

/-- A primitive that is given bodies is given those of messages of the actor. -/
theorem of_mem_windowOf {spec : PrimitiveSpec} {x : String × String}
    (hx : x ∈ (s.windowOf actorId spec).bodies) :
    ∃ p ∈ s.posts, p.actorId = actorId ∧ p.evidenceRef = x.1 := by
  simp only [windowOf] at hx
  split_ifs at hx
  · cases hx
  · obtain ⟨m, hm, href⟩ := (exists_batchFetchBodies_iff fun m hm =>
      mem_messages.mp (mem_iterCorpusSince.mp hm).1).mp ⟨x, hx, rfl⟩
    obtain ⟨hstored, hactor, -⟩ := mem_iterCorpusSince.mp hm
    obtain ⟨p, hp, rfl⟩ := mem_messages.mp hstored
    exact ⟨p, hp, hactor, href⟩
  · cases hx

/-- **A run of the primitives** gives them the body of every stored message of the actor, and no
other: one of them is given the bodies of the full corpus. -/
theorem exists_windowsOf_iff (hinv : s.Inv) :
    (∃ w ∈ s.windowsOf actorId, ∃ x ∈ w.bodies, x.1 = evidenceRef) ↔
      ∃ p ∈ s.posts, p.actorId = actorId ∧ p.evidenceRef = evidenceRef := by
  refine ⟨?_, ?_⟩
  · rintro ⟨w, hw, x, hx, rfl⟩
    obtain ⟨spec, -, rfl⟩ := List.mem_map.mp (List.mem_of_mem_filter hw)
    exact of_mem_windowOf hx
  · rintro ⟨p, hp, hactor, rfl⟩
    have hrow : p.toCorpusMessage ∈ iterCorpusSince s.messages actorId Cursor.epoch :=
      mem_iterCorpusSince.mpr ⟨mem_messages.mpr ⟨p, hp, rfl⟩, hactor, hinv.sentAt p hp,
        hinv.id_ne p hp⟩
    have hspec : PrimitiveSpec.fullCorpus "lexical.dialect_region" ∈ primitives := by
      simp [primitives]
    refine ⟨s.windowOf actorId _, List.mem_filter.mpr ⟨List.mem_map_of_mem hspec, ?_⟩, ?_⟩
    · rw [Bool.not_eq_true', List.isEmpty_eq_false_iff]
      exact List.ne_nil_of_mem hrow
    · exact (exists_batchFetchBodies_iff fun m hm =>
        mem_messages.mp (mem_iterCorpusSince.mp hm).1).mpr ⟨_, hrow, rfl⟩

/-- A dispatch that `CorpusCursor` takes apart reads the same rows, when nothing comes between its
steps. -/
theorem rows_windowOf {sensor : CorpusSensor} {d : SensorDispatch} {names : List String}
    (hmessages : sensor.messages.rows = s.messages) (hcursors : sensor.cursors = s.cursors)
    (hcached : d.cursors = getCursorsBulk s.cursors d.event.actorId names)
    (spec : PrimitiveSpec) :
    (s.windowOf d.event.actorId spec).rows = (sensor.corpusOf d spec none).rows := by
  have hlookup : ∀ cursor, d.cursors.lookup spec.name = some cursor →
      cursor = getCursor s.cursors d.event.actorId spec.name := by
    intro cursor hcursor
    obtain ⟨before, after, hsplit, -⟩ := List.lookup_eq_some_iff.mp hcursor
    have hmem : (spec.name, cursor) ∈ d.cursors := by
      rw [hsplit]
      exact List.mem_append_right _ List.mem_cons_self
    rw [hcached] at hmem
    obtain ⟨name, -, heq⟩ := List.mem_map.mp hmem
    obtain ⟨rfl, rfl⟩ := Prod.mk.inj heq
    rfl
  have hsince : sensor.sinceOf d spec = s.sinceOf d.event.actorId spec := by
    rw [CorpusSensor.sinceOf, sinceOf, hcursors]
    split_ifs
    · rfl
    · cases hcursor : d.cursors.lookup spec.name with
      | none => rfl
      | some cursor => exact hlookup cursor hcursor
  simp only [CorpusSensor.corpusOf, Option.getD_none, ite_self, CorpusSensor.readCorpus, hsince,
    hmessages]
  rfl

/-! ## Steps -/

/-- A message that is marked keeps the windows clean exactly when it was not handed over. -/
theorem Clean.mark_iff (h : s.Clean) (hhanded : s'.handed = s.handed)
    (htainted : ∀ r, s'.Tainted r ↔ r = evidenceRef ∨ s.Tainted r) :
    s'.Clean ↔ ¬ s.Handed evidenceRef := by
  simp only [Clean, Handed, hhanded, htainted, not_or]
  refine ⟨?_, ?_⟩
  · exact fun hclean hgiven => (hclean evidenceRef hgiven).1 rfl
  · intro hgiven r hr
    refine ⟨?_, h r hr⟩
    rintro rfl
    exact hgiven hr

/-- More windows are clean exactly when they have no body of a tainted message. -/
theorem Clean.hand_iff (h : s.Clean) {windows : List HandedWindow}
    (hhanded : s'.handed = s.handed ++ windows) (htainted : ∀ r, s'.Tainted r ↔ s.Tainted r) :
    s'.Clean ↔ ∀ r, (∃ w ∈ windows, ∃ x ∈ w.bodies, x.1 = r) → ¬ s.Tainted r := by
  have hgiven : ∀ r, s'.Handed r ↔ s.Handed r ∨ ∃ w ∈ windows, ∃ x ∈ w.bodies, x.1 = r := by
    intro r
    simp only [Handed, hhanded, List.mem_append, or_and_right, exists_or]
  refine ⟨?_, ?_⟩
  · exact fun hclean r hr => mt (htainted r).mpr (hclean r ((hgiven r).mpr (Or.inr hr)))
  · intro hclean r hr
    refine mt (htainted r).mp ?_
    rcases (hgiven r).mp hr with hold | hnew
    · exact h r hold
    · exact hclean r hnew

theorem Clean.of_eq (h : s.Clean) (hhanded : s'.handed = s.handed)
    (htainted : ∀ r, s'.Tainted r ↔ s.Tainted r) : s'.Clean := by
  intro r hr
  rw [Handed, hhanded] at hr
  exact mt (htainted r).mp (h r hr)

theorem mem_putMessage {posts : List StoredPost} {p post : StoredPost}
    (h : p ∈ putMessage posts post) : p ∈ posts ∨ p = post := by
  rw [putMessage] at h
  split_ifs at h
  · exact Or.inl h
  · exact (List.mem_append.mp h).imp id List.mem_singleton.mp

theorem inv_step (hinv : s.Inv) (hstep : step sha256 normalizeForTemplate s a = some s') :
    s'.Inv := by
  cases a with
  | ingest i =>
    obtain rfl := Option.some.inj hstep
    rw [ingest]
    dsimp only
    split
    · exact hinv
    · next actors actorId _ =>
      have hrows : ∀ p ∈ putMessage s.posts
          ⟨⟨i.newId, actorId, i.evidenceRef, i.msg.date⟩, i.msg.message⟩,
          p.id ≠ 0 ∧ 0 ≤ p.sentAt := by
        intro p hp
        rcases mem_putMessage hp with hold | rfl
        · exact ⟨hinv.id_ne p hold, hinv.sentAt p hold⟩
        · exact ⟨i.newId_ne, Int.natCast_nonneg _⟩
      split <;> exact ⟨fun p hp => (hrows p hp).1, fun p hp => (hrows p hp).2⟩
  | detect =>
    obtain rfl := Option.some.inj hstep
    exact ⟨hinv.id_ne, hinv.sentAt⟩
  | deliver d =>
    obtain rfl := Option.some.inj hstep
    rw [deliver]
    dsimp only
    split <;> exact ⟨hinv.id_ne, hinv.sentAt⟩

/-- **One step** keeps the windows clean exactly when it meets the condition. -/
theorem clean_step_iff (hinv : s.Inv) (hclean : s.Clean)
    (hstep : step sha256 normalizeForTemplate s a = some s') :
    s'.Clean ↔ s.Untainted sha256 normalizeForTemplate a := by
  cases a with
  | ingest i =>
    obtain rfl := Option.some.inj hstep
    simp only [ingest, Untainted]
    cases hactor : upsertActor s.actors i.newActorId (authorship sha256 i.msg i.sender) with
    | none => exact iff_of_true hclean fun h => absurd h Bool.false_ne_true
    | some stored =>
      simp only [Option.isSome_some, forall_const]
      split_ifs with hrelayed
      · simp only [hrelayed, forall_true_left]
        refine hclean.mark_iff rfl fun r => ?_
        simp only [Tainted, List.mem_cons, or_assoc]
      · exact iff_of_true (hclean.of_eq rfl fun _ => Iff.rfl) fun h => absurd h hrelayed
  | detect =>
    obtain rfl := Option.some.inj hstep
    exact iff_of_true (hclean.of_eq rfl fun _ => Iff.rfl) trivial
  | deliver d =>
    obtain rfl := Option.some.inj hstep
    simp only [deliver, Untainted]
    cases s.fate sha256 normalizeForTemplate d with
    | ignored => exact iff_of_true hclean trivial
    | skipped =>
      refine hclean.mark_iff rfl fun r => ?_
      simp only [Tainted, List.mem_cons]
      exact or_left_comm
    | profiled actorId =>
      refine Iff.trans (hclean.hand_iff (?_ : _ = s.handed ++ s.windowsOf actorId) ?_) ?_
      · rfl
      · exact fun _ => Iff.rfl
      refine Iff.trans (forall_congr' fun r => imp_congr_left (exists_windowsOf_iff hinv)) ?_
      refine ⟨?_, ?_⟩
      · exact fun h p hp hactor => h p.evidenceRef ⟨p, hp, hactor, rfl⟩
      · rintro h r ⟨p, hp, hactor, rfl⟩
        exact h p hp hactor

/-! ## Runs -/

theorem clean_init : init.Clean := by
  rintro r ⟨w, hw, -⟩
  exact absurd hw List.not_mem_nil

theorem exists_step (sha256 normalizeForTemplate : String → String) (s : Profiling) (a : Step) :
    ∃ s', step sha256 normalizeForTemplate s a = some s' := by
  cases a <;> exact ⟨_, rfl⟩

/-- **Writing profiles.** No window has the body of a message that was relayed or skipped, in every
state of a run, exactly when the primitives are run only for actors of whom nothing relayed or
skipped is stored, and nothing is relayed or skipped after it was given to them. -/
theorem clean_iff (sha256 normalizeForTemplate : String → String) (as : List Step) :
    Throughout (step sha256 normalizeForTemplate) Clean init as ↔
      Along (step sha256 normalizeForTemplate)
        (fun s a => s.Untainted sha256 normalizeForTemplate a) init as := by
  obtain ⟨s', hrun⟩ := exists_run (exists_step sha256 normalizeForTemplate) init as
  refine throughout_iff_along (I := fun s => s.Inv ∧ s.Clean) And.right ?_ ?_
    ⟨inv_init, clean_init⟩ hrun
  · rintro s a t ⟨hinv, hclean⟩ huntainted hstep
    exact ⟨inv_step hinv hstep, (clean_step_iff hinv hclean hstep).mpr huntainted⟩
  · rintro s a t ⟨hinv, hclean⟩ hstep hclean'
    exact (clean_step_iff hinv hclean hstep).mp hclean'

/-! ## A forward and a template -/

instance (s : Profiling) (evidenceRef : String) : Decidable (s.Handed evidenceRef) :=
  inferInstanceAs (Decidable (∃ w ∈ s.handed, ∃ x ∈ w.bodies, x.1 = evidenceRef))

/-- A message in a public group. -/
def sampleIngest (id : ℕ) (fwdFrom : Option FwdHeader) (senderId : ℤ) (message : String) :
    Ingest where
  msg := ⟨id, fwdFrom, some senderId, message, 1700000000 + id⟩
  chatId := -1004964840750
  username := some "group"
  sender := some ⟨none, some "x", none, false⟩
  newActorId := BitVec.ofInt 128 senderId
  newId := BitVec.ofNat 127 id ++ 1#1
  newId_ne := by
    intro h
    have hlast := congrArg (fun u : Uuid => u.getLsbD 0) h
    rw [BitVec.getLsbD_append] at hlast
    cases hlast

/-- The delivery of a message of a sender. -/
def sampleDelivery (id : ℕ) (senderId : ℤ) (now : ℚ) : Delivery where
  env := ⟨"telegram:@group:" ++ toString id, "actor:telegram||" ++ toString senderId,
    1700000000 + id⟩
  now := now
  newId := 0
  observed := fun _ => true

/-- A user writes, and another one forwards a text with that origin; then the first is
delivered. -/
def forwardRun : List Step :=
  [.ingest (sampleIngest 1 none 7 "own words"),
    .ingest (sampleIngest 2 (some ⟨some 7, none⟩) 9 "forwarded text"),
    .deliver (sampleDelivery 1 7 1000)]

/-- An advertisement of two hundred characters. -/
def advertisement : String := String.ofList (List.replicate 200 'a')

/-- Three users post an advertisement, which is detected. The first post is skipped, and then
another message of its user is delivered. -/
def templateRun : List Step :=
  [.ingest (sampleIngest 1 none 7 advertisement), .ingest (sampleIngest 2 none 8 advertisement),
    .ingest (sampleIngest 3 none 9 advertisement), .detect,
    .deliver (sampleDelivery 1 7 1000), .ingest (sampleIngest 4 none 7 "own words"),
    .deliver (sampleDelivery 4 7 1001)]

/-- The forward and the skipped advertisement are given to the primitives. -/
theorem forward_and_template_handed :
    ¬ Throughout (step id id) Clean init forwardRun ∧
      ¬ Throughout (step id id) Clean init templateRun := by
  have hforward : ∃ s, run (step id id) init forwardRun = some s ∧
      s.Handed "telegram:@group:2" ∧ "telegram:@group:2" ∈ s.relayed := by
    decide +kernel
  have htemplate : ∃ s, run (step id id) init templateRun = some s ∧
      s.Handed "telegram:@group:1" ∧ "telegram:@group:1" ∈ s.skipped := by
    decide +kernel
  refine ⟨?_, ?_⟩
  · obtain ⟨s, hrun, hhanded, hrelayed⟩ := hforward
    exact fun h => h forwardRun (List.prefix_refl _) s hrun _ hhanded (Or.inl hrelayed)
  · obtain ⟨s, hrun, hhanded, hskipped⟩ := htemplate
    exact fun h => h templateRun (List.prefix_refl _) s hrun _ hhanded (Or.inr hskipped)

end Profiling

end Eyenet
