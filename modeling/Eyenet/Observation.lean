import Eyenet.Enums
import Eyenet.SourceDomain

/-!
# Observations

A primitive of the stylometric sensor computes an observation, which is published as it is and
stored as a row (`sensor/stylometric.py`, `contracts/observation.py`). The engine maps a row to a
slot of the actor's profile (`engine/slot_mapper.py`).

* `ObservationEnvelope.slotValue_toRow` — the slot has the observed value unless that is falsy.
* `ObservationEnvelope.slot_equals_iff` — the same from the wire to the slot.
-/

namespace Eyenet

/-! ## Rows -/

/-- What a primitive has observed. -/
inductive ObservationValue where
  | text (value : String)
  | number (value : ℚ)
  | texts (value : List String)
  | numbers (value : List ℚ)
  /-- anything else, by its `str` -/
  | other (value : String)
  deriving DecidableEq

/-- The fields of a wire `Observation` that are read. -/
structure ObservationEnvelope where
  primitive : String
  value : ObservationValue
  evidenceRef : Option String
  source : String
  deriving DecidableEq

/-- `ValueKind` -/
inductive ValueKind where
  | hash
  | numeric
  | enumStr
  | arrayStr
  | arrayNumeric
  deriving DecidableEq, Repr

/-- `ObservationRow` -/
structure ObservationRow where
  id : Uuid
  actorId : Uuid
  evidenceRef : Option String
  primitiveNamespace : String
  primitiveName : String
  primitiveVersion : String
  valueKind : ValueKind
  valueHash : Option String
  valueNumeric : Option ℚ
  valueEnum : Option String
  valueArray : Option (List String)
  valueArrayNumeric : Option (List ℚ)
  observedAt : ℤ
  sensorInstance : String
  deriving DecidableEq

/-- What a row is given besides its observation. -/
structure RowContext where
  id : Uuid
  actorId : Uuid
  primitiveVersion : String
  observedAt : ℤ
  sensorInstance : String
  deriving DecidableEq

/-- The row but for its value. -/
def ObservationEnvelope.blankRow (obs : ObservationEnvelope) (ctx : RowContext)
    (kind : ValueKind) : ObservationRow where
  id := ctx.id
  actorId := ctx.actorId
  evidenceRef := obs.evidenceRef
  primitiveNamespace := String.ofList (obs.primitive.toList.takeWhile (· ≠ '.'))
  primitiveName := obs.primitive
  primitiveVersion := ctx.primitiveVersion
  valueKind := kind
  valueHash := none
  valueNumeric := none
  valueEnum := none
  valueArray := none
  valueArrayNumeric := none
  observedAt := ctx.observedAt
  sensorInstance := ctx.sensorInstance

/-- `_observation_to_row` -/
def ObservationEnvelope.toRow (obs : ObservationEnvelope) (ctx : RowContext) : ObservationRow :=
  match obs.value with
  | .text value => { obs.blankRow ctx .hash with valueHash := some value }
  | .number value => { obs.blankRow ctx .numeric with valueNumeric := some value }
  -- an empty list has no first element to tell its kind
  | .texts [] => { obs.blankRow ctx .arrayNumeric with valueArrayNumeric := some [] }
  | .texts value => { obs.blankRow ctx .arrayStr with valueArray := some value }
  | .numbers value => { obs.blankRow ctx .arrayNumeric with valueArrayNumeric := some value }
  | .other value => { obs.blankRow ctx .enumStr with valueEnum := some value }

/-- A row keeps the key of its observation. -/
theorem ObservationEnvelope.toRow_key (obs : ObservationEnvelope) (ctx : RowContext) :
    (obs.toRow ctx).evidenceRef = obs.evidenceRef ∧
      (obs.toRow ctx).primitiveName = obs.primitive := by
  rw [toRow]
  split <;> exact ⟨rfl, rfl⟩

namespace ObservationRow

variable (row : ObservationRow)

/-- The value, by its kind. -/
def value : Option ObservationValue :=
  match row.valueKind with
  | .hash => row.valueHash.map .text
  | .numeric => row.valueNumeric.map .number
  | .enumStr => row.valueEnum.map .text
  | .arrayStr => row.valueArray.map .texts
  | .arrayNumeric => row.valueArrayNumeric.map .numbers

/-! ## Slots -/

/-- The value that a slot gets: the first one of the columns that is not falsy, or the last. -/
def slotValue : Option ObservationValue :=
  ((row.valueHash.filter (· ≠ "")).map .text).or <|
    ((row.valueNumeric.filter (· ≠ 0)).map .number).or <|
      ((row.valueEnum.filter (· ≠ "")).map .text).or <|
        ((row.valueArray.filter (· ≠ [])).map .texts).or (row.valueArrayNumeric.map .numbers)

end ObservationRow

/-- The summaries of a profile. -/
inductive SummaryBlock where
  | stylometric
  | lexical
  | temporal
  | interaction
  | network
  | content
  deriving DecidableEq, Repr

/-- `_SLOT_MAP` -/
def slotMap : List (String × SummaryBlock × String) :=
  [("stylometric.function_word_distribution_top50", .stylometric, "function_word_simhash"),
    ("stylometric.character_ngram_simhash", .stylometric, "char_ngram_simhash"),
    ("stylometric.distinctive_vocabulary_signature", .lexical, "distinctive_vocab"),
    ("lexical.vocabulary_richness", .lexical, "mattr"),
    ("stylometric.message_length_class", .stylometric, "message_length_class"),
    ("stylometric.message_length_variance_class", .stylometric, "message_length_variance_class"),
    ("stylometric.punctuation_style", .stylometric, "punctuation_style"),
    ("stylometric.typo_signature", .stylometric, "typo_signature"),
    ("interaction.conversation_initiation_rate", .interaction, "conversation_initiation_rate"),
    ("lexical.dialect_region", .lexical, "dialect_region"),
    ("stylometric.pos_ngram_signature", .stylometric, "pos_ngram_signature"),
    ("lexical.evaluative_morphology_density", .lexical, "evaluative_morphology_density"),
    ("lexical.optional_grammar_signature", .lexical, "optional_grammar_signature"),
    ("meta.total_messages", .temporal, "message_count"),
    ("meta.corpus_span_days", .temporal, "corpus_span_days"),
    ("meta.msg_per_day", .temporal, "msg_per_day"),
    ("meta.active_days", .temporal, "active_days"),
    ("meta.activity_density", .temporal, "activity_density"),
    ("meta.first_seen_ts", .temporal, "first_seen_ts"),
    ("meta.last_seen_ts", .temporal, "last_seen_ts"),
    ("meta.fingerprint_confidence", .temporal, "fingerprint_confidence")]

/-- `_LANGUAGE_SUFFIX_PRIMITIVES` -/
def languageSuffixPrimitives : List String :=
  ["stylometric.function_word_distribution_top50", "stylometric.pos_ngram_signature",
    "lexical.optional_grammar_signature"]

/-- `_VALID_LANGUAGE_CODES` -/
def validLanguageCodes : List String := ["en", "es"]

/-- `_parse_language_suffix` -/
def parseLanguageSuffix (source : String) : Option String :=
  if '#' ∉ source.toList then none
  else
    let tail := (source.toList.reverse.takeWhile (· ≠ '#')).reverse
    let code := String.ofList ((pyStrip tail).map Char.toLower)
    if code ∈ validLanguageCodes then some code else none

/-- A slot of a summary. -/
structure ProfileSlot where
  value : Option ObservationValue
  lastObservationId : Uuid
  derivedFromObservationCount : ℕ
  language : Option String
  deriving DecidableEq

/-- `SlotMapping` -/
structure SlotMapping where
  blockName : SummaryBlock
  slotKey : String
  slotDict : ProfileSlot
  deriving DecidableEq

/-- `observation_to_slot` -/
def observationToSlot (row : ObservationRow) (envelopeSource : Option String) :
    Option SlotMapping :=
  match slotMap.lookup row.primitiveName with
  | none => none
  | some (blockName, slotKey) =>
    let language :=
      match envelopeSource with
      | none => none
      | some source =>
        if source ≠ "" ∧ row.primitiveName ∈ languageSuffixPrimitives then
          parseLanguageSuffix source
        else none
    some ⟨blockName, slotKey, ⟨row.slotValue, row.id, 0, language⟩⟩

theorem slotDict_id {row : ObservationRow} {envelopeSource : Option String} {m : SlotMapping}
    (h : observationToSlot row envelopeSource = some m) :
    m.slotDict.lastObservationId = row.id := by
  unfold observationToSlot at h
  split at h
  · cases h
  · obtain rfl := Option.some.inj h
    rfl

theorem slotDict_value {row : ObservationRow} {envelopeSource : Option String} {m : SlotMapping}
    (h : observationToSlot row envelopeSource = some m) : m.slotDict.value = row.slotValue := by
  unfold observationToSlot at h
  split at h
  · cases h
  · obtain rfl := Option.some.inj h
    rfl

/-- A falsy value is not observed for a slot. -/
def ObservationValue.falsy : ObservationValue → Bool
  | text value => value = ""
  | number value => value = 0
  | texts _ => false
  | numbers _ => false
  | other value => value = ""

/-- **Observed values.** The slot of a row has the value that was observed exactly when that is
not falsy: a zero or an empty text becomes no value at all. -/
theorem ObservationEnvelope.slotValue_toRow (obs : ObservationEnvelope) (ctx : RowContext) :
    (obs.toRow ctx).slotValue = (obs.toRow ctx).value ↔ obs.value.falsy = false := by
  rw [toRow]
  cases obs.value with
  | texts value =>
    cases value <;> simp [ObservationRow.slotValue, ObservationRow.value, blankRow,
      ObservationValue.falsy]
  | _ =>
    simp [ObservationRow.slotValue, ObservationRow.value, blankRow, ObservationValue.falsy,
      Option.filter_some]

/-- The values that the wire type has: texts, numbers, and lists of either. -/
def ObservationValue.wire : ObservationValue → Bool
  | other _ => false
  | _ => true

/-- Two values are equal in Python, where an empty list is a list of anything. -/
def ObservationValue.Equals : ObservationValue → ObservationValue → Prop
  | texts v, numbers w => v = [] ∧ w = []
  | numbers v, texts w => v = [] ∧ w = []
  | v, w => v = w

theorem ObservationValue.Equals.refl (v : ObservationValue) : v.Equals v := by cases v <;> rfl

/-- The value of the row equals that of the observation. -/
theorem ObservationEnvelope.value_toRow (obs : ObservationEnvelope) (ctx : RowContext)
    (hwire : obs.value.wire) : ∃ v, (obs.toRow ctx).value = some v ∧ v.Equals obs.value := by
  rw [toRow]
  cases hvalue : obs.value with
  | texts value =>
    cases value with
    | nil => exact ⟨.numbers [], rfl, rfl, rfl⟩
    | cons first rest => exact ⟨.texts (first :: rest), rfl, rfl⟩
  | other value =>
    rw [hvalue] at hwire
    cases hwire
  | text value => exact ⟨.text value, rfl, rfl⟩
  | number value => exact ⟨.number value, rfl, rfl⟩
  | numbers value => exact ⟨.numbers value, rfl, rfl⟩

/-- **From the wire to the slot.** The slot of a mapped primitive has a value equal to the observed
one exactly when that is neither zero nor the empty text. -/
theorem ObservationEnvelope.slot_equals_iff (obs : ObservationEnvelope) (ctx : RowContext)
    (envelopeSource : Option String) (hmapped : (slotMap.lookup obs.primitive).isSome)
    (hwire : obs.value.wire) :
    (∃ m, observationToSlot (obs.toRow ctx) envelopeSource = some m ∧
        ∃ v, m.slotDict.value = some v ∧ v.Equals obs.value) ↔ obs.value.falsy = false := by
  obtain ⟨m, hm⟩ : ∃ m, observationToSlot (obs.toRow ctx) envelopeSource = some m := by
    obtain ⟨⟨block, key⟩, hlookup⟩ := Option.isSome_iff_exists.mp hmapped
    unfold observationToSlot
    rw [(obs.toRow_key ctx).2, hlookup]
    exact ⟨_, rfl⟩
  obtain ⟨v, hv, hequals⟩ := obs.value_toRow ctx hwire
  refine ⟨?_, ?_⟩
  · rintro ⟨m', hm', w, hw, -⟩
    rw [slotDict_value hm'] at hw
    cases hvalue : obs.value with
    | text value =>
      -- an empty text is passed over, and no other column has a value
      by_contra hfalsy
      simp only [ObservationValue.falsy, decide_eq_false_iff_not, not_not] at hfalsy
      rw [toRow, hvalue, hfalsy] at hw
      simp [ObservationRow.slotValue, blankRow] at hw
    | number value =>
      by_contra hfalsy
      simp only [ObservationValue.falsy, decide_eq_false_iff_not, not_not] at hfalsy
      rw [toRow, hvalue, hfalsy] at hw
      simp [ObservationRow.slotValue, blankRow] at hw
    | texts value => rfl
    | numbers value => rfl
    | other value =>
      rw [hvalue] at hwire
      cases hwire
  · intro htruthy
    refine ⟨m, hm, v, ?_, hequals⟩
    rw [slotDict_value hm, (obs.slotValue_toRow ctx).mpr htruthy, hv]

/-- A primitive of the meta family, as it is observed. -/
def metaObservation (value : ObservationValue) : ObservationEnvelope :=
  ⟨"meta.activity_density", value, none, "sensor"⟩

/-- An empty list comes through. -/
theorem ObservationEnvelope.slot_equals_empty :
    ∃ m,
      observationToSlot ((metaObservation (.texts [])).toRow ⟨7, 1, "1", 10, "s"⟩) none = some m ∧
      ∃ v, m.slotDict.value = some v ∧ v.Equals (.texts []) :=
  (slot_equals_iff (metaObservation (.texts [])) ⟨7, 1, "1", 10, "s"⟩ none rfl rfl).mpr rfl

/-- A zero does not. -/
theorem ObservationEnvelope.slot_zero :
    ¬ ∃ m, observationToSlot ((metaObservation (.number 0)).toRow ⟨7, 1, "1", 10, "s"⟩) none =
        some m ∧
      ∃ v, m.slotDict.value = some v ∧ v.Equals (.number 0) := by
  rintro ⟨m, hm, v, hv, -⟩
  rw [slotDict_value hm] at hv
  have hnone : ((metaObservation (.number 0)).toRow ⟨7, 1, "1", 10, "s"⟩).slotValue = none := by
    decide
  rw [hnone] at hv
  cases hv

end Eyenet
