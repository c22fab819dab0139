import Eyenet.Calls
import Eyenet.EventLog
import Eyenet.Machine
import Eyenet.Table
import Mathlib.Data.List.Sort
import Mathlib.Data.Prod.Lex

/-!
# Corpus cursors

For each message the stylometric sensor runs every primitive over the actor's messages since the
cursor of that primitive, and moves the cursors of those that gave an observation to the message
(`sensor/stylometric.py`, `sqlmodel_repo/corpus.py`, `sqlmodel_repo/cursors.py`). The cursors are
read at the start of a dispatch and written at its end, and any number of dispatches run at the
same time. What a primitive computes is not modelled, only whether it gives an observation.

A dispatch that a failing storage call ends is one that goes no further.

* `CorpusSensor.windows_sound_iff` — when the windows of a primitive partition the messages.
* `CorpusSensor.never_back_iff` — when its cursor never moves backward.
-/

namespace Eyenet

open Machine

/-! ## Primitives -/

/-- `PrimitiveSpec` -/
structure PrimitiveSpec where
  name : String
  requiresReplyCorpus : Bool
  /-- `compute_with_reply is not None` -/
  hasComputeWithReply : Bool
  requiresFullCorpus : Bool

/-- A primitive over the messages since its cursor. -/
def PrimitiveSpec.sinceCursor (name : String) : PrimitiveSpec := ⟨name, false, false, false⟩

/-- A primitive over all messages of the actor. -/
def PrimitiveSpec.fullCorpus (name : String) : PrimitiveSpec := ⟨name, false, false, true⟩

/-- `PRIMITIVES` -/
def primitives : List PrimitiveSpec :=
  [.sinceCursor "stylometric.function_word_distribution_top50",
    .sinceCursor "stylometric.character_ngram_simhash",
    .sinceCursor "stylometric.distinctive_vocabulary_signature",
    .sinceCursor "lexical.vocabulary_richness",
    .sinceCursor "stylometric.message_length_class",
    .sinceCursor "stylometric.message_length_variance_class",
    .sinceCursor "stylometric.punctuation_style",
    .sinceCursor "stylometric.typo_signature",
    ⟨"interaction.conversation_initiation_rate", true, true, false⟩,
    .fullCorpus "lexical.dialect_region",
    .fullCorpus "meta.total_messages",
    .fullCorpus "meta.corpus_span_days",
    .fullCorpus "meta.msg_per_day",
    .fullCorpus "meta.active_days",
    .fullCorpus "meta.activity_density",
    .fullCorpus "meta.first_seen_ts",
    .fullCorpus "meta.last_seen_ts",
    .fullCorpus "meta.fingerprint_confidence",
    .fullCorpus "stylometric.pos_ngram_signature",
    .fullCorpus "lexical.evaluative_morphology_density",
    .fullCorpus "lexical.optional_grammar_signature"]

/-! ## Messages and cursors -/

/-- A row of the message table. -/
structure CorpusMessage where
  id : Uuid
  actorId : Uuid
  evidenceRef : String
  /-- `sent_at_source` -/
  sentAt : ℤ
  deriving DecidableEq

/-- A time, and the message that was sent then. -/
abbrev Cursor := ℤ × Uuid

/-- `_EPOCH` and `_NULL_UUID` -/
def Cursor.epoch : Cursor := (0, 0)

/-- The cursor of a message. -/
def CorpusMessage.cursor (m : CorpusMessage) : Cursor := (m.sentAt, m.id)

/-- The message counts as new at the cursor. -/
def CorpusMessage.Since (m : CorpusMessage) (since : Cursor) : Prop :=
  since.1 ≤ m.sentAt ∧ m.id ≠ since.2

instance (m : CorpusMessage) (since : Cursor) : Decidable (m.Since since) :=
  inferInstanceAs (Decidable (_ ∧ _))

/-- `iter_corpus_since`; `iter_corpus_since_with_reply` selects one more column. -/
def iterCorpusSince (messages : List CorpusMessage) (actorId : Uuid) (since : Cursor) :
    List CorpusMessage :=
  (messages.filter fun m => m.actorId = actorId ∧ m.Since since).insertionSort
    fun m n => toLex m.cursor ≤ toLex n.cursor

theorem mem_iterCorpusSince {messages : List CorpusMessage} {actorId : Uuid} {since : Cursor}
    {m : CorpusMessage} :
    m ∈ iterCorpusSince messages actorId since ↔
      m ∈ messages ∧ m.actorId = actorId ∧ m.Since since := by
  simp [iterCorpusSince]

/-- A row of the cursor table. -/
structure CorpusCursorRow where
  actorId : Uuid
  primitiveName : String
  /-- `last_processed_msg_ts` and `last_processed_msg_id` -/
  cursor : Cursor
  deriving DecidableEq

/-- The primary key. -/
def CorpusCursorRow.key (r : CorpusCursorRow) : Uuid × String := (r.actorId, r.primitiveName)

/-- `get_cursor` -/
def getCursor (rows : Table CorpusCursorRow.key) (actorId : Uuid) (name : String) : Cursor :=
  match rows.get (actorId, name) with
  | none => Cursor.epoch
  | some r => r.cursor

/-- `get_cursors_bulk` -/
def getCursorsBulk (rows : Table CorpusCursorRow.key) (actorId : Uuid) (names : List String) :
    List (String × Cursor) :=
  names.map fun name => (name, getCursor rows actorId name)

/-- `set_cursors_bulk` -/
def setCursorsBulk (rows : Table CorpusCursorRow.key) (actorId : Uuid)
    (updates : List (String × Cursor)) : Table CorpusCursorRow.key :=
  updates.foldl (fun rows u => rows.save ⟨actorId, u.1, u.2⟩) rows

/-- The names that are written get the cursor, the other rows stay. -/
theorem get_setCursorsBulk (rows : Table CorpusCursorRow.key) (actorId : Uuid)
    (names : List String) (cursor : Cursor) (key : Uuid × String) :
    (setCursorsBulk rows actorId (names.map fun name => (name, cursor))).get key =
      if key.1 = actorId ∧ key.2 ∈ names then some ⟨actorId, key.2, cursor⟩ else rows.get key := by
  induction names generalizing rows with
  | nil => simp [setCursorsBulk]
  | cons name names ih =>
    rw [List.map_cons, setCursorsBulk, List.foldl_cons]
    refine (ih _).trans ?_
    rw [Table.get_save]
    by_cases hkey : key = (actorId, name)
    · simp [hkey, CorpusCursorRow.key]
    · have hhead : ¬ (actorId, name) = key := fun h => hkey h.symm
      have hsame : key.1 = actorId ∧ (key.2 = name ∨ key.2 ∈ names) ↔
          key.1 = actorId ∧ key.2 ∈ names := by
        refine and_congr_right fun hactor => or_iff_right fun hname => ?_
        exact hkey (Prod.ext hactor hname)
      simp [CorpusCursorRow.key, hhead, hsame]

/-! ## Dispatches -/

/-- A raw message event, as far as the cursors are concerned. -/
structure CorpusEvent where
  actorId : Uuid
  evidenceRef : String
  sentAt : ℤ

/-- What a dispatch holds while it runs the primitives. -/
structure SensorDispatch where
  event : CorpusEvent
  /-- `_cursor_cache` -/
  cursors : List (String × Cursor)
  currentMsgId : Uuid
  /-- the names in `_cursor_updates` -/
  updates : List String

/-- Where the cursors of a dispatch move to. -/
def SensorDispatch.target (d : SensorDispatch) : Cursor := (d.event.sentAt, d.currentMsgId)

/-- A read of the corpus: since which cursor, how many messages were stored by then, and what it
gave. -/
structure CorpusRead where
  since : Cursor
  stored : ℕ
  rows : List CorpusMessage

/-- Where a dispatch stands. The primitives that are to be run are listed, and the full corpus is
there once it has been read. -/
inductive CorpusPhase where
  | loading (event : CorpusEvent)
  | resolving (event : CorpusEvent) (cursors : List (String × Cursor))
  | running (d : SensorDispatch) (todo : List PrimitiveSpec) (full : Option CorpusRead)
  | computing (d : SensorDispatch) (spec : PrimitiveSpec) (todo : List PrimitiveSpec)
      (full : Option CorpusRead) (read : CorpusRead)
  | publishing (d : SensorDispatch) (spec : PrimitiveSpec) (todo : List PrimitiveSpec)
      (full : Option CorpusRead) (read : CorpusRead)
  | advancing (d : SensorDispatch)
  | finished

/-- The window of an observation that was published. -/
structure CorpusWindow where
  actorId : Uuid
  name : String
  read : CorpusRead

/-- The message and cursor tables, and the dispatches. The last field records the windows, the
latest first. -/
structure CorpusSensor where
  messages : Table CorpusMessage.id
  cursors : Table CorpusCursorRow.key
  dispatches : Calls CorpusPhase
  windows : List CorpusWindow

namespace CorpusSensor

/-- One step of the collector or of a dispatch. -/
inductive Step where
  | store (m : CorpusMessage)
  | dispatch (n : ℕ) (event : CorpusEvent)
  | load (n : ℕ)
  | resolve (n : ℕ) (newId : Uuid)
  | read (n : ℕ)
  | readFails (n : ℕ)
  /-- the next primitive has an observation, or none, or raises -/
  | compute (n : ℕ) (observed : Bool)
  | publish (n : ℕ) (ok : Bool)
  /-- all primitives have been run, and the observations are stored -/
  | putObservations (n : ℕ)
  | setCursors (n : ℕ)

/-- Before any message. -/
def init : CorpusSensor := ⟨.empty, .empty, [], []⟩

/-- The message with an evidence. -/
def messageByEvidenceRef (s : CorpusSensor) (evidenceRef : String) : Option CorpusMessage :=
  s.messages.rows.find? fun m => m.evidenceRef = evidenceRef

/-- `iter_corpus_since`, now. -/
def readCorpus (s : CorpusSensor) (actorId : Uuid) (since : Cursor) : CorpusRead where
  since := since
  stored := s.messages.rows.length
  rows := iterCorpusSince s.messages.rows actorId since

/-- The cursor that a primitive reads from. -/
def sinceOf (s : CorpusSensor) (d : SensorDispatch) (spec : PrimitiveSpec) : Cursor :=
  if spec.requiresFullCorpus then Cursor.epoch
  else
    match d.cursors.lookup spec.name with
    | some cursor => cursor
    | none => getCursor s.cursors d.event.actorId spec.name

/-- The corpus of a primitive: read with replies, the full corpus, or read since the cursor. -/
def corpusOf (s : CorpusSensor) (d : SensorDispatch) (spec : PrimitiveSpec)
    (full : Option CorpusRead) : CorpusRead :=
  let fresh := s.readCorpus d.event.actorId (s.sinceOf d spec)
  if spec.requiresReplyCorpus && spec.hasComputeWithReply then fresh
  else if spec.requiresFullCorpus then full.getD fresh
  else fresh

variable (specs : List PrimitiveSpec)

/-- One step; a label that does not fit changes nothing. -/
def step (s : CorpusSensor) : Step → Option CorpusSensor
  | .store m =>
    -- evidence is unique
    match s.messageByEvidenceRef m.evidenceRef, s.messages.insert m with
    | none, some messages => some { s with messages := messages }
    | _, _ => some s
  | .dispatch n event =>
    match s.dispatches.phase n, s.messageByEvidenceRef event.evidenceRef with
    | none, some _ => some { s with dispatches := s.dispatches.put n (.loading event) }
    -- there is no body
    | _, _ => some s
  | .load n =>
    match s.dispatches.phase n with
    | some (.loading event) =>
      let names := (specs.filter fun spec => !spec.requiresFullCorpus).map PrimitiveSpec.name
      let cursors := getCursorsBulk s.cursors event.actorId names
      some { s with dispatches := s.dispatches.put n (.resolving event cursors) }
    | _ => some s
  | .resolve n newId =>
    match s.dispatches.phase n with
    | some (.resolving event cursors) =>
      let id := (s.messageByEvidenceRef event.evidenceRef).elim newId CorpusMessage.id
      let d : SensorDispatch := ⟨event, cursors, id, []⟩
      some { s with dispatches := s.dispatches.put n (.running d specs none) }
    | _ => some s
  | .read n =>
    match s.dispatches.phase n with
    | some (.running d (spec :: todo) full) =>
      if spec.requiresFullCorpus ∧ full.isNone then
        let full := s.readCorpus d.event.actorId Cursor.epoch
        some { s with dispatches := s.dispatches.put n (.running d (spec :: todo) (some full)) }
      else
        let read := s.corpusOf d spec full
        some { s with dispatches := s.dispatches.put n (.computing d spec todo full read) }
    | _ => some s
  | .readFails n =>
    match s.dispatches.phase n with
    | some (.running d (_ :: todo) full) =>
      some { s with dispatches := s.dispatches.put n (.running d todo full) }
    | _ => some s
  | .compute n observed =>
    match s.dispatches.phase n with
    | some (.computing d spec todo full read) =>
      if observed && !read.rows.isEmpty then
        some { s with dispatches := s.dispatches.put n (.publishing d spec todo full read) }
      else some { s with dispatches := s.dispatches.put n (.running d todo full) }
    | _ => some s
  | .publish n ok =>
    match s.dispatches.phase n with
    | some (.publishing d spec todo full read) =>
      if ok then
        let updated := { d with updates := d.updates ++ [spec.name] }
        some { s with
          dispatches := s.dispatches.put n (.running updated todo full)
          windows := ⟨d.event.actorId, spec.name, read⟩ :: s.windows }
      else some { s with dispatches := s.dispatches.put n (.running d todo full) }
    | _ => some s
  | .putObservations n =>
    match s.dispatches.phase n with
    | some (.running d [] _) =>
      let p := if d.updates.isEmpty then .finished else .advancing d
      some { s with dispatches := s.dispatches.put n p }
    | _ => some s
  | .setCursors n =>
    match s.dispatches.phase n with
    | some (.advancing d) =>
      let updates := d.updates.map fun name => (name, d.target)
      some { s with
        cursors := setCursorsBulk s.cursors d.event.actorId updates
        dispatches := s.dispatches.put n .finished }
    | _ => some s

variable {specs} {s s' : CorpusSensor} {a : Step} {as : List Step} {actorId : Uuid} {name : String}

/-! ## Windows -/

/-- The windows of a primitive of an actor, the latest first. -/
def windowsOf (s : CorpusSensor) (actorId : Uuid) (name : String) : List CorpusWindow :=
  s.windows.filter fun w => w.actorId = actorId ∧ w.name = name

/-- How many messages were stored at the last read behind one of the windows. -/
def lastRead (s : CorpusSensor) (actorId : Uuid) (name : String) : ℕ :=
  ((s.windowsOf actorId name).map fun w => w.read.stored).foldr max 0

/-- No message is in two windows of the primitive, and each message that was stored before the
read behind a window is in that window or an earlier one. -/
structure WindowsSound (actorId : Uuid) (name : String) (s : CorpusSensor) : Prop where
  disjoint : (s.windowsOf actorId name).Pairwise fun w w' => ∀ m ∈ w.read.rows, m ∉ w'.read.rows
  covered : ∀ newer w older, s.windowsOf actorId name = newer ++ w :: older →
    ∀ m ∈ s.messages.rows.take w.read.stored, m.actorId = actorId →
      m ∈ w.read.rows ∨ ∃ w' ∈ older, m ∈ w'.read.rows

/-- The stored cursor of the primitive does not move backward between the two states. -/
def NeverBack (actorId : Uuid) (name : String) (s s' : CorpusSensor) : Prop :=
  ∀ r, s.cursors.get (actorId, name) = some r →
    ∃ r', s'.cursors.get (actorId, name) = some r' ∧ toLex r.cursor ≤ toLex r'.cursor

/-- When an observation of the primitive is published, the cursor that its corpus was read from
leaves out just the messages that were stored at the last read behind an earlier window. -/
def FreshWindow (actorId : Uuid) (name : String) (s : CorpusSensor) : Step → Prop
  | .publish n true => ∀ d spec todo full read,
      s.dispatches.phase n = some (.publishing d spec todo full read) →
      d.event.actorId = actorId → spec.name = name →
      ∀ m ∈ s.messages.rows.take read.stored, m.actorId = actorId →
        (m.Since read.since ↔ m ∉ s.messages.rows.take (s.lastRead actorId name))
  | _ => True

/-- When the cursor of the primitive is written, the message of the dispatch is not before it. -/
def ForwardCursor (actorId : Uuid) (name : String) (s : CorpusSensor) : Step → Prop
  | .setCursors n => ∀ d, s.dispatches.phase n = some (.advancing d) →
      d.event.actorId = actorId → name ∈ d.updates →
      ∀ r, s.cursors.get (actorId, name) = some r → toLex r.cursor ≤ toLex d.target
  | _ => True

/-! ## Reads -/

/-- The read gave the actor's messages since its cursor, of those that were stored by then. -/
structure CameFrom (messages : List CorpusMessage) (actorId : Uuid) (read : CorpusRead) : Prop where
  stored : read.stored ≤ messages.length
  mem : ∀ m, m ∈ read.rows ↔
    m ∈ messages.take read.stored ∧ m.actorId = actorId ∧ m.Since read.since

theorem CameFrom.append {messages : List CorpusMessage} {read : CorpusRead}
    (h : CameFrom messages actorId read) (new : List CorpusMessage) :
    CameFrom (messages ++ new) actorId read where
  stored := by
    rw [List.length_append]
    exact h.stored.trans (Nat.le_add_right _ _)
  mem m := by rw [List.take_append_of_le_length h.stored, h.mem]

theorem cameFrom_readCorpus (s : CorpusSensor) (actorId : Uuid) (since : Cursor) :
    CameFrom s.messages.rows actorId (s.readCorpus actorId since) where
  stored := le_rfl
  mem m := by simp [readCorpus, mem_iterCorpusSince]

/-- The corpus of a primitive is read now, or it is the full one. -/
theorem cameFrom_corpusOf {d : SensorDispatch} {spec : PrimitiveSpec} {full : Option CorpusRead}
    (hfull : ∀ read, full = some read → CameFrom s.messages.rows d.event.actorId read) :
    CameFrom s.messages.rows d.event.actorId (s.corpusOf d spec full) := by
  rw [corpusOf]
  have hfresh := cameFrom_readCorpus s d.event.actorId (s.sinceOf d spec)
  split_ifs
  · exact hfresh
  · cases full with
    | none => exact hfresh
    | some read => exact hfull read rfl
  · exact hfresh

/-- The reads that a dispatch holds, with its actor. -/
def readsOf : CorpusPhase → List (Uuid × CorpusRead)
  | .running d _ full => full.toList.map fun read => (d.event.actorId, read)
  | .computing d _ _ full read | .publishing d _ _ full read =>
    (d.event.actorId, read) :: full.toList.map fun read => (d.event.actorId, read)
  | _ => []

/-- What holds however the dispatches interleave. -/
structure Inv (s : CorpusSensor) : Prop where
  windows : ∀ w ∈ s.windows, CameFrom s.messages.rows w.actorId w.read
  reads : ∀ n p, s.dispatches.phase n = some p →
    ∀ x ∈ readsOf p, CameFrom s.messages.rows x.1 x.2

theorem inv_init : init.Inv where
  windows _ h := absurd h List.not_mem_nil
  reads _ _ h := by cases h

/-- A dispatch goes on. -/
theorem Inv.put (h : s.Inv) {n : ℕ} {p : CorpusPhase} {cursors : Table CorpusCursorRow.key}
    {windows : List CorpusWindow}
    (hwindows : ∀ w ∈ windows, CameFrom s.messages.rows w.actorId w.read)
    (hp : ∀ x ∈ readsOf p, CameFrom s.messages.rows x.1 x.2) :
    Inv ⟨s.messages, cursors, s.dispatches.put n p, windows⟩ := by
  refine ⟨hwindows, fun n' q hq => ?_⟩
  change (s.dispatches.put n p).phase n' = some q at hq
  rw [Calls.phase_put] at hq
  split_ifs at hq
  · exact Option.some.inj hq ▸ hp
  · exact h.reads n' q hq

theorem Inv.step (h : s.Inv) (hstep : step specs s a = some s') : s'.Inv := by
  cases a with
  | store m =>
    simp only [CorpusSensor.step] at hstep
    split at hstep <;> obtain rfl := Option.some.inj hstep
    · next messages _ hinsert =>
      have hrows := (Table.insert_eq_some hinsert).2
      refine ⟨fun w hw => ?_, fun n p hp x hx => ?_⟩
      · exact hrows ▸ (h.windows w hw).append [m]
      · exact hrows ▸ (h.reads n p hp x hx).append [m]
    · exact h
  | dispatch n event =>
    simp only [CorpusSensor.step] at hstep
    split at hstep <;> obtain rfl := Option.some.inj hstep
    · exact h.put h.windows (by rintro _ ⟨⟩)
    · exact h
  | load n =>
    simp only [CorpusSensor.step] at hstep
    split at hstep <;> obtain rfl := Option.some.inj hstep
    · exact h.put h.windows (by rintro _ ⟨⟩)
    · exact h
  | resolve n newId =>
    simp only [CorpusSensor.step] at hstep
    split at hstep <;> obtain rfl := Option.some.inj hstep
    · exact h.put h.windows (by rintro _ ⟨⟩)
    · exact h
  | read n =>
    simp only [CorpusSensor.step] at hstep
    split at hstep
    · next d spec todo full hphase =>
      have hfull := h.reads n _ hphase
      split at hstep <;> obtain rfl := Option.some.inj hstep
      · refine h.put h.windows fun x hx => ?_
        obtain rfl := List.mem_singleton.mp hx
        exact cameFrom_readCorpus s d.event.actorId Cursor.epoch
      · refine h.put h.windows fun x hx => ?_
        rcases List.mem_cons.mp hx with rfl | hx
        · refine cameFrom_corpusOf ?_
          rintro read rfl
          exact hfull (d.event.actorId, read) List.mem_cons_self
        · exact hfull x hx
    · obtain rfl := Option.some.inj hstep
      exact h
  | readFails n =>
    simp only [CorpusSensor.step] at hstep
    split at hstep <;> obtain rfl := Option.some.inj hstep
    · next d spec todo full hphase =>
      have hreads := h.reads n _ hphase
      exact h.put h.windows hreads
    · exact h
  | compute n observed =>
    simp only [CorpusSensor.step] at hstep
    split at hstep
    · next d spec todo full read hphase =>
      have hreads := h.reads n _ hphase
      split at hstep <;> obtain rfl := Option.some.inj hstep
      · exact h.put h.windows hreads
      · exact h.put h.windows (List.forall_mem_cons.mp hreads).2
    · obtain rfl := Option.some.inj hstep
      exact h
  | publish n ok =>
    simp only [CorpusSensor.step] at hstep
    split at hstep
    · next d spec todo full read hphase =>
      obtain ⟨hread, hfull⟩ := List.forall_mem_cons.mp (h.reads n _ hphase)
      split at hstep <;> obtain rfl := Option.some.inj hstep
      · exact h.put (List.forall_mem_cons.mpr ⟨hread, h.windows⟩) hfull
      · exact h.put h.windows hfull
    · obtain rfl := Option.some.inj hstep
      exact h
  | putObservations n =>
    simp only [CorpusSensor.step] at hstep
    split at hstep <;> obtain rfl := Option.some.inj hstep
    · next d full hphase =>
      refine h.put h.windows ?_
      split
      · rintro _ ⟨⟩
      · rintro _ ⟨⟩
    · exact h
  | setCursors n =>
    simp only [CorpusSensor.step] at hstep
    split at hstep <;> obtain rfl := Option.some.inj hstep
    · exact h.put h.windows (by rintro _ ⟨⟩)
    · exact h

/-! ## What a step changes outside of its dispatch -/

/-- The messages grow, a window is recorded, the cursors are written, or nothing else. -/
inductive Effect (s : CorpusSensor) (a : Step) : CorpusSensor → Prop where
  | stored {m : CorpusMessage} {messages : Table CorpusMessage.id} (label : a = .store m)
      (rows : messages.rows = s.messages.rows ++ [m]) :
      Effect s a { s with messages := messages }
  | published {n : ℕ} {d : SensorDispatch} {spec : PrimitiveSpec} {todo : List PrimitiveSpec}
      {full : Option CorpusRead} {read : CorpusRead} {calls : Calls CorpusPhase}
      (label : a = .publish n true)
      (phase : s.dispatches.phase n = some (.publishing d spec todo full read)) :
      Effect s a { s with
        dispatches := calls
        windows := ⟨d.event.actorId, spec.name, read⟩ :: s.windows }
  | advanced {n : ℕ} {d : SensorDispatch} {calls : Calls CorpusPhase} (label : a = .setCursors n)
      (phase : s.dispatches.phase n = some (.advancing d)) :
      Effect s a { s with
        cursors := setCursorsBulk s.cursors d.event.actorId
          (d.updates.map fun name => (name, d.target))
        dispatches := calls }
  | quiet {calls : Calls CorpusPhase} (fresh : ∀ actorId name, FreshWindow actorId name s a)
      (forward : ∀ actorId name, ForwardCursor actorId name s a) :
      Effect s a { s with dispatches := calls }

theorem step_effect (hstep : step specs s a = some s') : Effect s a s' := by
  cases a with
  | store m =>
    simp only [CorpusSensor.step] at hstep
    split at hstep <;> obtain rfl := Option.some.inj hstep
    · next messages _ hinsert => exact .stored rfl (Table.insert_eq_some hinsert).2
    · exact .quiet (fun _ _ => trivial) fun _ _ => trivial
  | publish n ok =>
    simp only [CorpusSensor.step] at hstep
    split at hstep
    · next d spec todo full read hphase =>
      cases ok with
      | true =>
        obtain rfl := Option.some.inj hstep
        exact .published rfl hphase
      | false =>
        obtain rfl := Option.some.inj hstep
        exact .quiet (fun _ _ => trivial) fun _ _ => trivial
    · next hphase =>
      obtain rfl := Option.some.inj hstep
      refine .quiet (fun actorId name => ?_) fun _ _ => trivial
      cases ok with
      | true => exact fun d spec todo full read h => absurd h (hphase d spec todo full read)
      | false => trivial
  | setCursors n =>
    simp only [CorpusSensor.step] at hstep
    split at hstep <;> obtain rfl := Option.some.inj hstep
    · next d hphase => exact .advanced rfl hphase
    · next hphase =>
      exact .quiet (fun _ _ => trivial) fun _ _ d h => absurd h (hphase d)
  | dispatch n event =>
    simp only [CorpusSensor.step] at hstep
    split at hstep <;> obtain rfl := Option.some.inj hstep <;>
      exact .quiet (fun _ _ => trivial) fun _ _ => trivial
  | load n =>
    simp only [CorpusSensor.step] at hstep
    split at hstep <;> obtain rfl := Option.some.inj hstep <;>
      exact .quiet (fun _ _ => trivial) fun _ _ => trivial
  | resolve n newId =>
    simp only [CorpusSensor.step] at hstep
    split at hstep <;> obtain rfl := Option.some.inj hstep <;>
      exact .quiet (fun _ _ => trivial) fun _ _ => trivial
  | read n =>
    simp only [CorpusSensor.step] at hstep
    split at hstep
    · split at hstep <;> obtain rfl := Option.some.inj hstep <;>
        exact .quiet (fun _ _ => trivial) fun _ _ => trivial
    · obtain rfl := Option.some.inj hstep
      exact .quiet (fun _ _ => trivial) fun _ _ => trivial
  | readFails n =>
    simp only [CorpusSensor.step] at hstep
    split at hstep <;> obtain rfl := Option.some.inj hstep <;>
      exact .quiet (fun _ _ => trivial) fun _ _ => trivial
  | compute n observed =>
    simp only [CorpusSensor.step] at hstep
    split at hstep
    · split at hstep <;> obtain rfl := Option.some.inj hstep <;>
        exact .quiet (fun _ _ => trivial) fun _ _ => trivial
    · obtain rfl := Option.some.inj hstep
      exact .quiet (fun _ _ => trivial) fun _ _ => trivial
  | putObservations n =>
    simp only [CorpusSensor.step] at hstep
    split at hstep <;> obtain rfl := Option.some.inj hstep <;>
      exact .quiet (fun _ _ => trivial) fun _ _ => trivial

/-! ## The windows -/

theorem mem_take_lastRead {ws : List CorpusWindow} {messages : List CorpusMessage}
    {m : CorpusMessage} :
    m ∈ messages.take ((ws.map fun w => w.read.stored).foldr max 0) ↔
      ∃ w ∈ ws, m ∈ messages.take w.read.stored := by
  induction ws with
  | nil => simp
  | cons w ws ih =>
    rw [List.map_cons, List.foldr_cons, List.exists_mem_cons_iff, ← ih]
    rcases le_total w.read.stored ((ws.map fun w => w.read.stored).foldr max 0) with hle | hle
    · rw [max_eq_right hle]
      exact (or_iff_right_of_imp fun h => (List.take_subset_take_left _ hle) h).symm
    · rw [max_eq_left hle]
      exact (or_iff_left_of_imp fun h => (List.take_subset_take_left _ hle) h).symm

/-- Of the messages that were stored at the last read behind a window, each is in a window, and
no others are. -/
theorem WindowsSound.mem_iff (h : WindowsSound actorId name s) (hinv : s.Inv) {m : CorpusMessage}
    (hactor : m.actorId = actorId) :
    m ∈ s.messages.rows.take (s.lastRead actorId name) ↔
      ∃ w ∈ s.windowsOf actorId name, m ∈ w.read.rows := by
  rw [lastRead, mem_take_lastRead]
  refine ⟨?_, ?_⟩
  · rintro ⟨w, hw, hm⟩
    obtain ⟨newer, older, hsplit⟩ := List.append_of_mem hw
    rcases h.covered newer w older hsplit m hm hactor with hin | ⟨w', hw', hin⟩
    · exact ⟨w, hw, hin⟩
    · refine ⟨w', ?_, hin⟩
      rw [hsplit]
      exact List.mem_append_right newer (List.mem_cons_of_mem w hw')
  · rintro ⟨w, hw, hm⟩
    have hcame := hinv.windows w (List.mem_of_mem_filter hw)
    exact ⟨w, hw, ((hcame.mem m).mp hm).1⟩

/-- A step that records no window of the primitive keeps its windows sound. -/
theorem WindowsSound.mono (h : WindowsSound actorId name s) (hinv : s.Inv)
    (hwindows : s'.windowsOf actorId name = s.windowsOf actorId name)
    {new : List CorpusMessage} (hrows : s'.messages.rows = s.messages.rows ++ new) :
    WindowsSound actorId name s' := by
  refine ⟨?_, ?_⟩
  · exact hwindows ▸ h.disjoint
  · intro newer w older hsplit m hm
    rw [hwindows] at hsplit
    have hw : w ∈ s.windows := by
      refine List.mem_of_mem_filter (show w ∈ s.windowsOf actorId name from ?_)
      rw [hsplit]
      exact List.mem_append_right newer List.mem_cons_self
    rw [hrows, List.take_append_of_le_length (hinv.windows w hw).stored] at hm
    exact h.covered newer w older hsplit m hm

/-- A window of the primitive keeps the windows sound exactly when it starts where the last read
behind them ended. -/
theorem WindowsSound.cons_iff (h : WindowsSound actorId name s) (hinv : s.Inv) {w : CorpusWindow}
    (hw : CameFrom s.messages.rows actorId w.read)
    (hwindows : s'.windowsOf actorId name = w :: s.windowsOf actorId name)
    (hmessages : s'.messages = s.messages) :
    WindowsSound actorId name s' ↔ ∀ m ∈ s.messages.rows.take w.read.stored, m.actorId = actorId →
      (m.Since w.read.since ↔ m ∉ s.messages.rows.take (s.lastRead actorId name)) := by
  refine ⟨?_, ?_⟩
  · intro hsound m hm hactor
    rw [h.mem_iff hinv hactor]
    refine ⟨?_, ?_⟩
    · rintro hsince ⟨w', hw', hin⟩
      have hdisjoint := hsound.disjoint
      rw [hwindows, List.pairwise_cons] at hdisjoint
      exact hdisjoint.1 w' hw' m ((hw.mem m).mpr ⟨hm, hactor, hsince⟩) hin
    · intro hnew
      have hcovered := hsound.covered [] w (s.windowsOf actorId name) hwindows m
      rcases hcovered (hmessages ▸ hm) hactor with hin | hin
      · exact ((hw.mem m).mp hin).2.2
      · exact absurd hin hnew
  · intro hfresh
    refine ⟨?_, ?_⟩
    · rw [hwindows, List.pairwise_cons]
      refine ⟨fun w' hw' m hm hin => ?_, h.disjoint⟩
      obtain ⟨htake, hactor, hsince⟩ := (hw.mem m).mp hm
      exact (hfresh m htake hactor).mp hsince ((h.mem_iff hinv hactor).mpr ⟨w', hw', hin⟩)
    · intro newer v older hsplit m hm hactor
      rw [hwindows] at hsplit
      rw [hmessages] at hm
      cases newer with
      | nil =>
        obtain ⟨rfl, rfl⟩ := List.cons.inj hsplit
        by_cases hsince : m.Since w.read.since
        · exact Or.inl ((hw.mem m).mpr ⟨hm, hactor, hsince⟩)
        · have hseen := not_not.mp (mt (hfresh m hm hactor).mpr hsince)
          exact Or.inr ((h.mem_iff hinv hactor).mp hseen)
      | cons x newer =>
        obtain ⟨-, htail⟩ := List.cons.inj hsplit
        exact h.covered newer v older htail m hm hactor

/-- A step keeps the windows sound exactly when it meets `FreshWindow`. -/
theorem WindowsSound.step_iff (h : WindowsSound actorId name s) (hinv : s.Inv)
    (hstep : step specs s a = some s') :
    WindowsSound actorId name s' ↔ FreshWindow actorId name s a := by
  cases step_effect hstep with
  | stored hlabel hrows =>
    subst hlabel
    exact iff_of_true (h.mono hinv rfl hrows) trivial
  | @published n d spec todo full read calls hlabel hphase =>
    subst hlabel
    have hread : CameFrom s.messages.rows d.event.actorId read :=
      hinv.reads n _ hphase (d.event.actorId, read) List.mem_cons_self
    by_cases hkey : d.event.actorId = actorId ∧ spec.name = name
    · obtain ⟨rfl, rfl⟩ := hkey
      let w : CorpusWindow := ⟨d.event.actorId, spec.name, read⟩
      have hwindows : windowsOf { s with dispatches := calls, windows := w :: s.windows }
          d.event.actorId spec.name = w :: s.windowsOf d.event.actorId spec.name := by
        simp [windowsOf, w]
      refine (h.cons_iff hinv hread hwindows rfl).trans ?_
      refine ⟨?_, ?_⟩
      · intro hfresh d' spec' todo' full' read' hphase' _ _
        obtain ⟨rfl, rfl, rfl, rfl, rfl⟩ := CorpusPhase.publishing.inj
          (Option.some.inj (hphase.symm.trans hphase'))
        exact hfresh
      · exact fun hfresh => hfresh d spec todo full read hphase rfl rfl
    · refine iff_of_true (h.mono hinv ?_ (List.append_nil _).symm) ?_
      · simp only [windowsOf, List.filter_cons, decide_eq_true_eq, if_neg hkey]
      · intro d' spec' todo' full' read' hphase' hactor hname
        obtain ⟨rfl, rfl, -⟩ := CorpusPhase.publishing.inj
          (Option.some.inj (hphase.symm.trans hphase'))
        exact absurd ⟨hactor, hname⟩ hkey
  | advanced hlabel hphase =>
    subst hlabel
    exact iff_of_true (h.mono hinv rfl (List.append_nil _).symm) trivial
  | quiet hfresh _ =>
    exact iff_of_true (h.mono hinv rfl (List.append_nil _).symm) (hfresh actorId name)

/-! ## The cursors -/

theorem neverBack_refl (s : CorpusSensor) : NeverBack actorId name s s :=
  fun r hr => ⟨r, hr, le_rfl⟩

theorem NeverBack.trans {t : CorpusSensor} (h : NeverBack actorId name s s')
    (h' : NeverBack actorId name s' t) : NeverBack actorId name s t := by
  intro r hr
  obtain ⟨r', hr', hle⟩ := h r hr
  obtain ⟨r'', hr'', hle'⟩ := h' r' hr'
  exact ⟨r'', hr'', hle.trans hle'⟩

theorem neverBack_of_cursors (h : s'.cursors = s.cursors) : NeverBack actorId name s s' := by
  rw [NeverBack, h]
  exact neverBack_refl s

/-- A step moves the cursor not backward exactly when it meets `ForwardCursor`. -/
theorem neverBack_step_iff (hstep : step specs s a = some s') :
    NeverBack actorId name s s' ↔ ForwardCursor actorId name s a := by
  cases step_effect hstep with
  | stored hlabel hrows =>
    subst hlabel
    exact iff_of_true (neverBack_of_cursors rfl) trivial
  | published hlabel hphase =>
    subst hlabel
    exact iff_of_true (neverBack_of_cursors rfl) trivial
  | @advanced n d calls hlabel hphase =>
    subst hlabel
    have hget := get_setCursorsBulk s.cursors d.event.actorId d.updates d.target (actorId, name)
    refine ⟨?_, ?_⟩
    · intro hback d' hphase' hactor hname r hr
      obtain rfl := CorpusPhase.advancing.inj (Option.some.inj (hphase.symm.trans hphase'))
      obtain ⟨r', hr', hle⟩ := hback r hr
      rw [if_pos ⟨hactor.symm, hname⟩] at hget
      obtain rfl := Option.some.inj (hget.symm.trans hr')
      exact hle
    · intro hforward r hr
      dsimp only
      rw [hget]
      split_ifs with hwrites
      · exact ⟨_, rfl, hforward d hphase hwrites.1.symm hwrites.2 r hr⟩
      · exact ⟨r, hr, le_rfl⟩
  | quiet _ hforward => exact iff_of_true (neverBack_of_cursors rfl) (hforward actorId name)

/-! ## Runs -/

theorem windowsSound_init : WindowsSound actorId name init where
  disjoint := List.Pairwise.nil
  covered newer w older h := by simp [init, windowsOf] at h

/-- No label is impossible. -/
theorem exists_step (specs : List PrimitiveSpec) (s : CorpusSensor) (a : Step) :
    ∃ s', step specs s a = some s' := by
  cases a <;> simp only [step] <;> repeat' split
  all_goals exact ⟨_, rfl⟩

/-- **Windows.** The windows of a primitive are disjoint and leave no stored message out, in
every state of a run, exactly when each of them is read from a cursor that leaves out just the
messages stored at the last read behind the windows before it. -/
theorem windows_sound_iff (specs : List PrimitiveSpec) (actorId : Uuid) (name : String)
    (as : List Step) :
    Throughout (step specs) (WindowsSound actorId name) init as ↔
      Along (step specs) (FreshWindow actorId name) init as := by
  obtain ⟨s', hrun⟩ := exists_run (exists_step specs) init as
  refine throughout_iff_along (I := fun s => s.Inv ∧ WindowsSound actorId name s) And.right ?_ ?_
    ⟨inv_init, windowsSound_init⟩ hrun
  · rintro s a t ⟨hinv, hsound⟩ hfresh hstep
    exact ⟨hinv.step hstep, (hsound.step_iff hinv hstep).mpr hfresh⟩
  · rintro s a t ⟨hinv, hsound⟩ hstep hsound'
    exact (hsound.step_iff hinv hstep).mp hsound'

/-- **Cursors.** The stored cursor of a primitive never moves backward in a run exactly when no
dispatch whose message is before it writes it. -/
theorem never_back_iff (specs : List PrimitiveSpec) (actorId : Uuid) (name : String)
    (as : List Step) :
    Between (step specs) (NeverBack actorId name) init as ↔
      Along (step specs) (ForwardCursor actorId name) init as := by
  obtain ⟨s', hrun⟩ := exists_run (exists_step specs) init as
  exact between_iff_along (I := fun _ => True) neverBack_refl NeverBack.trans
    (fun _ hstep => ⟨trivial, neverBack_step_iff hstep⟩) trivial hrun

/-- What is expected of the windows and the cursor of a primitive over a run. -/
def CursorSound (specs : List PrimitiveSpec) (actorId : Uuid) (name : String)
    (as : List Step) : Prop :=
  Throughout (step specs) (WindowsSound actorId name) init as ∧
    Between (step specs) (NeverBack actorId name) init as

/-- A message of the actor, sent at a time. -/
def sampleMessage (id : Uuid) (evidenceRef : String) (sentAt : ℤ) : CorpusMessage :=
  ⟨id, 7, evidenceRef, sentAt⟩

/-- The dispatch of a message in which only the first primitive has an observation. -/
def wholeDispatch (n : ℕ) (m : CorpusMessage) : List Step :=
  let skips (k : ℕ) : List Step := (List.replicate k [.read n, .compute n false]).flatten
  [.dispatch n ⟨m.actorId, m.evidenceRef, m.sentAt⟩, .load n, .resolve n 0,
    .read n, .compute n true, .publish n true] ++ skips 8 ++
    -- the full corpus is read before the first primitive that needs it
    [.read n] ++ skips 12 ++ [.putObservations n, .setCursors n]

/-- The first primitive of the registry. -/
def sampleName : String := "stylometric.function_word_distribution_top50"

/-- Three messages are stored, and the second is dispatched. -/
def secondRun : List Step :=
  [.store (sampleMessage 1 "a" 1), .store (sampleMessage 2 "b" 2),
    .store (sampleMessage 3 "c" 3)] ++
    wholeDispatch 0 (sampleMessage 2 "b" 2)

/-- Then the first. -/
def firstRun : List Step := secondRun ++ wholeDispatch 1 (sampleMessage 1 "a" 1)

/-- An older message is stored, and the third one is dispatched. -/
def thirdRun : List Step :=
  firstRun ++ .store (sampleMessage 4 "d" 0) :: wholeDispatch 2 (sampleMessage 3 "c" 3)

end CorpusSensor

end Eyenet
