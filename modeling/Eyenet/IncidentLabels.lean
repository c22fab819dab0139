import Eyenet.IncidentClassifier
import Eyenet.Linker

/-!
# The labels of an incident

Three detectors decide whether a message is an incident (`incidents/classifier.py`,
`incidents/rules.py`): the heads of the model, the prefilter's signals, and the rules of the
operator. Each has a vocabulary of its own, and the stored row keeps of what fired only the labels
that the model has a head for.

* `stored_exact_iff` — exactly when the stored rows of a flush carry the labels that fired.
* `covered_of_taxonomy` — a model with a head for each label of the taxonomy is enough.
-/

namespace Eyenet

/-! ## The vocabularies -/

/-- `SIG2LABEL` -/
def sig2Label : List (String × String) :=
  [("deface_banner", "defacement"), ("ddos_command", "ddos_attack"),
    ("check_host", "ddos_attack"), ("compromise_confirmed", "intrusion"),
    ("multi_target", "ddos_attack"), ("leak_host", "breach_dump"), ("leak_label", "breach_dump"),
    ("target_dump_file", "breach_dump"), ("pii_schema", "breach_dump"),
    ("hash_list", "credentials"), ("cred_combo", "credentials"), ("cred_label", "credentials"),
    ("onion_url", "breach_dump"), ("stealer_logs", "stealer_logs"),
    ("cloud_pass", "stealer_logs"), ("access_material", "iab_corporate"),
    ("tool_sale", "crimeware_tooling"), ("telecom_abuse", "telecom_abuse")]

/-- `TAXONOMY_LABELS` -/
def taxonomyLabels : List String :=
  ["defacement", "ddos_attack", "intrusion", "breach_dump", "credentials", "stealer_logs",
    "iab_corporate", "crimeware_tooling", "crime_aas", "telecom_abuse", "phishing_delivery",
    "fraud_ops", "infra_resale", "recruiting", "alliance", "crew_ops"]

theorem sig2Label_taxonomy : ∀ p ∈ sig2Label, p.2 ∈ taxonomyLabels := by decide

/-! ## The detectors -/

/-- A head's entry in `calibration.json`. -/
structure HeadCalibration where
  a : ℚ
  b : ℚ
  thr : ℚ
  deriving DecidableEq

/-- The entry of a head that the file does not name. -/
def defaultCalibration : HeadCalibration := ⟨1, 0, 1 / 2⟩

/-- `apply_calibration`, for as many logits as labels. -/
def applyCalibration (sigmoid : ℚ → ℚ) (logits : List ℚ) (labels : List String)
    (calib : List (String × HeadCalibration)) : List HeadScore :=
  (labels.zip logits).map fun (k, logit) =>
    let c := (calib.lookup k).getD defaultCalibration
    let p := sigmoid (c.a * logit + c.b)
    ⟨k, round4 p, decide (c.thr ≤ p)⟩

/-- A model directory, with the encoder that it holds. -/
structure IncidentModel where
  version : String
  labels : List String
  calib : List (String × HeadCalibration)
  sigmoid : ℚ → ℚ
  logits : String → List ℚ
  /-- one logit for each head -/
  length_logits : ∀ text, (logits text).length = labels.length

/-- The pattern matcher, and the patterns that come with the program. -/
structure PatternEngine where
  /-- NFC and the confusables -/
  normalize : String → String
  /-- `re2.compile`, with the `search` of the pattern; `none` when it raises -/
  compile : String → Option (String → Bool)
  /-- the names of `SIGNALS`, each with the `search` of its pattern -/
  signals : List (String × (String → Bool))

/-- The columns of a rule that the compilation reads. -/
structure IncidentRuleRow where
  name : String
  pattern : String
  label : String
  enabled : Bool
  deriving DecidableEq

/-- `CompiledRule` -/
structure CompiledIncidentRule where
  name : String
  search : String → Bool
  label : String

namespace PatternEngine

variable (engine : PatternEngine)

/-- The signals of `scan`. -/
def scan (text : String) : List String :=
  (engine.signals.filter fun signal => signal.2 (engine.normalize text)).map Prod.fst

/-- `prefilter_labels` -/
def prefilterLabels (text : String) : List String :=
  (engine.scan text).filterMap fun signal => sig2Label.lookup signal

/-- `compile_rules` -/
def compileRules (rows : List IncidentRuleRow) : List CompiledIncidentRule :=
  (rows.filter IncidentRuleRow.enabled).filterMap fun r =>
    (engine.compile r.pattern).map fun search => ⟨r.name, search, r.label⟩

/-- `match_labels` -/
def matchLabels (text : String) (compiled : List CompiledIncidentRule) : List String :=
  (compiled.filter fun rule => rule.search (engine.normalize text)).map CompiledIncidentRule.label

/-- The detectors of the service. -/
def detector (model : IncidentModel) : Detector CompiledIncidentRule where
  modelVersion := model.version
  classifyBatch texts := texts.map fun text =>
    applyCalibration model.sigmoid (model.logits text) model.labels model.calib
  length_classifyBatch _ := List.length_map _
  prefilterLabels := engine.prefilterLabels
  matchLabels := engine.matchLabels

end PatternEngine

/-! ## What is stored -/

section Stored

variable {Rule : Type} (d : Detector Rule) (rules : List Rule) (now : ℤ)

/-- The messages of a flush with their scores, from the texts that the model gets of them. -/
def scoredBatch (texts : List (StoredMessage × String)) : List (StoredMessage × List HeadScore) :=
  (texts.map Prod.fst).zip (d.classifyBatch (texts.map Prod.snd))

/-- Each row carries the labels that fired for its message, of which there is one at least. -/
def StoredExactly (scored : List (StoredMessage × List HeadScore)) : Prop :=
  ∀ p ∈ scored, ∀ row, d.incident rules now p.1 p.2 = some row →
    (∀ label, label ∈ row.labels ↔ label ∈ d.fired rules p.1.body p.2) ∧ row.labels ≠ []

/-- What the prefilter and the rules say of a body. -/
def Detector.structural (body : String) : List String :=
  d.prefilterLabels body ++ d.matchLabels body rules

variable {d rules now} {message : StoredMessage} {scores : List HeadScore} {row : IncidentRow}

theorem incident_eq_none : d.incident rules now message scores = none ↔
    d.fired rules message.body scores = [] := by
  rw [Detector.incident]
  split
  · next hfired => exact iff_of_true rfl hfired
  · next hfired => exact iff_of_false (by simp) hfired

theorem incident_labels (h : d.incident rules now message scores = some row) :
    row.labels = (scores.map HeadScore.label).filter (· ∈ d.fired rules message.body scores) := by
  rw [Detector.incident] at h
  split at h
  · cases h
  · obtain rfl := Option.some.inj h
    rfl

theorem mem_labels_iff (h : d.incident rules now message scores = some row) (label : String) :
    label ∈ row.labels ↔
      label ∈ scores.map HeadScore.label ∧ label ∈ d.fired rules message.body scores := by
  rw [incident_labels h, List.mem_filter, decide_eq_true_eq]

theorem mem_fired_iff (label : String) : label ∈ d.fired rules message.body scores ↔
    label ∈ (scores.filter HeadScore.fired).map HeadScore.label ∨
      label ∈ d.structural rules message.body := by
  rw [Detector.fired, Detector.structural, List.append_assoc, List.mem_append]

/-- The labels of the prefilter and the rules are heads exactly when the row of the message, if it
has one, carries all that fired. -/
theorem exact_iff_heads :
    (∀ row, d.incident rules now message scores = some row →
      (∀ label, label ∈ row.labels ↔ label ∈ d.fired rules message.body scores) ∧
        row.labels ≠ []) ↔
      ∀ label ∈ d.structural rules message.body, label ∈ scores.map HeadScore.label := by
  refine ⟨?_, ?_⟩
  · intro hexact label hlabel
    have hfired : label ∈ d.fired rules message.body scores :=
      (mem_fired_iff label).mpr (.inr hlabel)
    cases hrow : d.incident rules now message scores with
    | none => exact absurd hfired (incident_eq_none.mp hrow ▸ List.not_mem_nil)
    | some row =>
      have hmem := ((hexact row hrow).1 label).mpr hfired
      exact ((mem_labels_iff hrow label).mp hmem).1
  · intro hheads row hrow
    have hsame : ∀ label, label ∈ row.labels ↔ label ∈ d.fired rules message.body scores := by
      intro label
      rw [mem_labels_iff hrow, and_iff_right_iff_imp, mem_fired_iff]
      rintro (hmodel | hstructural)
      · exact List.map_subset _ (List.filter_subset_self _) hmodel
      · exact hheads label hstructural
    refine ⟨hsame, fun hnil => ?_⟩
    have hnone : d.fired rules message.body scores = [] :=
      List.eq_nil_iff_forall_not_mem.mpr fun label hlabel =>
        absurd ((hsame label).mpr hlabel) (hnil ▸ List.not_mem_nil)
    rw [incident_eq_none.mpr hnone] at hrow
    cases hrow

end Stored

section Engine

variable (engine : PatternEngine) (model : IncidentModel) (rows : List IncidentRuleRow)

/-- The heads are scored in their order. -/
theorem map_label_applyCalibration (text : String) :
    (applyCalibration model.sigmoid (model.logits text) model.labels model.calib).map
      HeadScore.label = model.labels := by
  rw [applyCalibration, List.map_map]
  exact List.map_fst_zip (model.length_logits text).ge

theorem mem_scoredBatch (texts : List (StoredMessage × String))
    (p : StoredMessage × List HeadScore) : p ∈ scoredBatch (engine.detector model) texts ↔
      ∃ t ∈ texts, (t.1, applyCalibration model.sigmoid (model.logits t.2) model.labels
        model.calib) = p := by
  have hzip : scoredBatch (engine.detector model) texts = texts.map fun t =>
      (t.1, applyCalibration model.sigmoid (model.logits t.2) model.labels model.calib) := by
    have hscores : (engine.detector model).classifyBatch (texts.map Prod.snd) = texts.map fun t =>
        applyCalibration model.sigmoid (model.logits t.2) model.labels model.calib :=
      List.map_map
    rw [scoredBatch, hscores, List.zip_map']
  rw [hzip, List.mem_map]

/-- **What is stored.** The rows of a flush carry exactly the labels that fired if and only if the
model has a head for every label that the prefilter or a matching rule gives to a message of the
flush. -/
theorem stored_exact_iff (now : ℤ) (texts : List (StoredMessage × String)) :
    StoredExactly (engine.detector model) (engine.compileRules rows) now
        (scoredBatch (engine.detector model) texts) ↔
      ∀ t ∈ texts, ∀ label ∈ engine.prefilterLabels t.1.body ++
        engine.matchLabels t.1.body (engine.compileRules rows), label ∈ model.labels := by
  refine ⟨?_, ?_⟩
  · intro hstored t ht
    have hexact := hstored _ ((mem_scoredBatch engine model texts _).mpr ⟨t, ht, rfl⟩)
    have hheads := exact_iff_heads.mp hexact
    rwa [map_label_applyCalibration] at hheads
  · intro hheads p hp
    obtain ⟨t, ht, rfl⟩ := (mem_scoredBatch engine model texts p).mp hp
    refine exact_iff_heads.mpr ?_
    rw [map_label_applyCalibration]
    exact hheads t ht

theorem prefilterLabels_subset (text : String) : engine.prefilterLabels text ⊆ taxonomyLabels := by
  intro label hlabel
  obtain ⟨signal, -, hlookup⟩ := List.mem_filterMap.mp hlabel
  obtain ⟨before, after, hsplit, -⟩ := List.lookup_eq_some_iff.mp hlookup
  exact sig2Label_taxonomy (signal, label) (hsplit ▸ List.mem_append_right _ List.mem_cons_self)

theorem matchLabels_subset (text : String) :
    engine.matchLabels text (engine.compileRules rows) ⊆ rows.map IncidentRuleRow.label := by
  intro label hlabel
  obtain ⟨rule, hrule, rfl⟩ := List.mem_map.mp hlabel
  obtain ⟨r, hr, hcompiled⟩ := List.mem_filterMap.mp (List.mem_of_mem_filter hrule)
  obtain ⟨search, -, rfl⟩ := Option.map_eq_some_iff.mp hcompiled
  exact List.mem_map_of_mem (List.mem_of_mem_filter hr)

/-- A model with a head for each label of the taxonomy stores all, whatever the rules over the
taxonomy. -/
theorem covered_of_taxonomy (hrules : rows.map IncidentRuleRow.label ⊆ taxonomyLabels)
    (hheads : taxonomyLabels ⊆ model.labels) (now : ℤ) (texts : List (StoredMessage × String)) :
    StoredExactly (engine.detector model) (engine.compileRules rows) now
      (scoredBatch (engine.detector model) texts) := by
  refine (stored_exact_iff engine model rows now texts).mpr fun t _ label hlabel => hheads ?_
  rcases List.mem_append.mp hlabel with hprefilter | hmatch
  · exact prefilterLabels_subset engine t.1.body hprefilter
  · exact hrules (matchLabels_subset engine rows t.1.body hmatch)

/-- A matcher that finds every pattern. -/
def anyMatch : PatternEngine := ⟨id, fun _ => some fun _ => true, []⟩

/-- A model with one head, which does not fire. -/
def oneHead : IncidentModel := ⟨"v1", ["breach_dump"], [], fun _ => 0, fun _ => [0], fun _ => rfl⟩

/-- A rule whose label the model has no head for stores a row without labels. -/
theorem rule_stores_no_label :
    let rules := anyMatch.compileRules [⟨"crew", "crew", "crew_ops", true⟩]
    let d := anyMatch.detector oneHead
    "crew_ops" ∈ taxonomyLabels ∧ ¬ StoredExactly d rules 0
      (scoredBatch d [(⟨"r", 1, "our crew"⟩, "our crew")]) := by
  refine ⟨by decide, fun h => ?_⟩
  have hrow := h _ (List.mem_singleton_self _) ⟨1, [], [("breach_dump", 0)], "v1", 0⟩
    (by decide +kernel)
  exact hrow.2 rfl

end Engine

end Eyenet
