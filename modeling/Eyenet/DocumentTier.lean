import Eyenet.Enums
import Mathlib.Data.List.Dedup
import Mathlib.Data.List.Nodup
import Mathlib.Data.List.Sort
import Mathlib.Data.Rat.Defs
import Mathlib.Algebra.Order.Ring.Rat
import Mathlib.Order.Bounds.Basic

/-!
# The tier of a document

A document's text and its metadata are matched against the rules (`classifier/ruleset`), the text
is searched for personal data (`classifier/presidio`), and `aggregate` takes the highest of the
floors that the stages give (`classifier/aggregate`). Signals that a marking is a false positive
raise a review flag; the advisory of a language model raises, confirms or drops flags.

* `mapFindings_mono` — more findings never lower the floor of the PII stage.
* `Document.tier_mono` — more evidence never lowers the tier.
* `Document.invites_iff` — when a demotion is suggested.
* `Document.triage_lawful_iff` — exactly when the verdict is right: the metadata is not looked at
  before a demotion is suggested, so it must not reach the floor of an FP-prone text.
-/

namespace Eyenet

/-! ## The tier order -/

/-- `max_tier`: the highest tier, or normal. -/
def maxTier (tiers : List SensitivityTier) : SensitivityTier :=
  tiers.foldl (fun highest tier => if highest < tier then tier else highest) .normal

section MaxTier

variable {tiers tiers' : List SensitivityTier} {t : SensitivityTier}

theorem SensitivityTier.normal_le (t : SensitivityTier) : .normal ≤ t := by
  cases t <;> decide

theorem SensitivityTier.le_classified (t : SensitivityTier) : t ≤ .classified := by
  cases t <;> decide

theorem foldl_highest_le_iff (highest : SensitivityTier) :
    tiers.foldl (fun highest tier => if highest < tier then tier else highest) highest ≤ t ↔
      highest ≤ t ∧ ∀ x ∈ tiers, x ≤ t := by
  induction tiers generalizing highest with
  | nil => simp
  | cons x xs ih =>
    rw [List.foldl_cons, ih, List.forall_mem_cons, ← and_assoc]
    refine and_congr_left fun _ => ?_
    split_ifs with hlt
    · exact ⟨fun h => ⟨hlt.le.trans h, h⟩, fun h => h.2⟩
    · exact ⟨fun h => ⟨h, (not_lt.mp hlt).trans h⟩, fun h => h.1⟩

theorem maxTier_le_iff : maxTier tiers ≤ t ↔ ∀ x ∈ tiers, x ≤ t := by
  rw [maxTier, foldl_highest_le_iff, and_iff_right (SensitivityTier.normal_le t)]

theorem le_maxTier (h : t ∈ tiers) : t ≤ maxTier tiers := maxTier_le_iff.mp (le_refl _) t h

theorem maxTier_mono (h : ∀ x ∈ tiers, ∃ y ∈ tiers', x ≤ y) : maxTier tiers ≤ maxTier tiers' := by
  refine maxTier_le_iff.mpr fun x hx => ?_
  obtain ⟨y, hy, hle⟩ := h x hx
  exact hle.trans (le_maxTier hy)

/-- The highest of some tiers is one of them. -/
theorem maxTier_mem (h : tiers ≠ []) : maxTier tiers ∈ tiers := by
  have hmem : ∀ (xs : List SensitivityTier) (highest : SensitivityTier),
      xs.foldl (fun highest tier => if highest < tier then tier else highest) highest ∈
        highest :: xs := by
    intro xs
    induction xs with
    | nil => exact fun highest => List.mem_singleton_self highest
    | cons x xs ih =>
      intro highest
      rw [List.foldl_cons]
      rcases List.mem_cons.mp (ih (if highest < x then x else highest)) with heq | hin
      · rw [heq]
        split_ifs
        · exact List.mem_cons_of_mem _ List.mem_cons_self
        · exact List.mem_cons_self
      · exact List.mem_cons_of_mem _ (List.mem_cons_of_mem _ hin)
  rcases List.mem_cons.mp (hmem tiers .normal) with heq | hin
  · -- nothing is above normal, so everything is normal
    obtain ⟨x, xs, rfl⟩ := List.exists_cons_of_ne_nil h
    have hx : x ≤ SensitivityTier.normal :=
      le_of_le_of_eq (le_maxTier List.mem_cons_self) heq
    have hnormal : x = .normal := le_antisymm hx (SensitivityTier.normal_le x)
    rw [maxTier, heq, hnormal]
    exact List.mem_cons_self
  · exact hin

end MaxTier

/-! ## Rules -/

/-- `RuleMatch` -/
structure RuleMatch where
  ruleName : String
  tierFloor : SensitivityTier
  start : ℕ
  end_ : ℕ
  matchedText : String
  lang : Option String
  deriving DecidableEq

/-- `RegexVerdict`; its floor is that of its matches. -/
structure RegexVerdict where
  matches_ : List RuleMatch
  rulesetVersion : String
  tierFloor : SensitivityTier
  floor_eq : tierFloor = maxTier (matches_.map RuleMatch.tierFloor)

/-- `CompiledRule`; the pattern is what `finditer` yields of a text: start, end and span. -/
structure CompiledRule where
  name : String
  finditer : String → List (ℕ × ℕ × String)
  tierFloor : SensitivityTier
  lang : Option String

/-- The order of the matches in a verdict. -/
def RuleMatch.le (a b : RuleMatch) : Bool :=
  decide (a.start < b.start) || (a.start == b.start && decide (a.ruleName ≤ b.ruleName))

/-- `classify`, with the `NFC` form of a text as a parameter. -/
def classify (normalize : String → String) (text : String) (version : String)
    (rules : List CompiledRule) : RegexVerdict :=
  let found := rules.flatMap fun rule => (rule.finditer (normalize text)).map fun m =>
    { ruleName := rule.name, tierFloor := rule.tierFloor, start := m.1, end_ := m.2.1
      matchedText := m.2.2, lang := rule.lang : RuleMatch }
  let sorted := found.insertionSort fun a b => a.le b
  ⟨sorted, version, maxTier (sorted.map RuleMatch.tierFloor), rfl⟩

/-- A match reaches at most the floor of its verdict. -/
theorem RegexVerdict.le_floor (v : RegexVerdict) {m : RuleMatch} (h : m ∈ v.matches_) :
    m.tierFloor ≤ v.tierFloor :=
  v.floor_eq ▸ le_maxTier (List.mem_map_of_mem h)

/-- A rule that matches a text has its tier under the floor of the verdict. -/
theorem tierFloor_le_classify {normalize : String → String} {text version : String}
    {rules : List CompiledRule} {rule : CompiledRule} (hrule : rule ∈ rules)
    (hfound : rule.finditer (normalize text) ≠ []) :
    rule.tierFloor ≤ (classify normalize text version rules).tierFloor := by
  obtain ⟨m, hm⟩ := List.exists_mem_of_ne_nil _ hfound
  apply (classify normalize text version rules).le_floor
    (m := ⟨rule.name, rule.tierFloor, m.1, m.2.1, m.2.2, rule.lang⟩)
  rw [classify, List.mem_insertionSort]
  exact List.mem_flatMap.mpr ⟨rule, hrule, List.mem_map.mpr ⟨m, hm, rfl⟩⟩

/-- More matches do not lower the floor. -/
theorem RegexVerdict.floor_mono {v v' : RegexVerdict} (h : v.matches_ ⊆ v'.matches_) :
    v.tierFloor ≤ v'.tierFloor := by
  rw [v.floor_eq, v'.floor_eq]
  exact maxTier_mono fun x hx => ⟨x, List.map_subset _ h hx, le_refl x⟩

/-! ## Personal data -/

/-- `PiiFinding` -/
structure PiiFinding where
  entityType : String
  start : ℤ
  end_ : ℤ
  score : ℚ
  language : String
  text : String
  deriving DecidableEq

/-- `EntityRule` -/
structure EntityRule where
  tierFloor : SensitivityTier
  minScore : ℚ
  deriving DecidableEq

/-- `PiiMap`; `entities` is a dict, by its items. -/
structure PiiMap where
  mapVersion : String
  entities : List (String × EntityRule)
  restrictedAt : ℤ
  classifiedAt : ℤ
  deriving DecidableEq

/-- `PresidioMatch` -/
structure PresidioMatch where
  entityType : String
  tierFloor : SensitivityTier
  start : ℤ
  end_ : ℤ
  score : ℚ
  language : String
  matchedText : String
  deriving DecidableEq

/-- `PresidioVerdict` -/
structure PresidioVerdict where
  tierFloor : SensitivityTier
  matches_ : List PresidioMatch
  mapVersion : String
  failClosed : Bool
  deriving DecidableEq

namespace PiiFinding

/-- The span and the type. -/
def key (f : PiiFinding) : ℤ × ℤ × String := (f.start, f.end_, f.entityType)

/-- The finding takes the place of `current`: a higher score, or the same in an earlier language. -/
def beats (f current : PiiFinding) : Bool :=
  decide (current.score < f.score) ||
    (f.score == current.score && decide (f.language < current.language))

end PiiFinding

/-- `best[key] = f`, where the finding beats the one that is there. -/
def keepBest (best : List PiiFinding) (f : PiiFinding) : List PiiFinding :=
  if f.key ∈ best.map PiiFinding.key then
    best.map fun current => if current.key = f.key ∧ f.beats current then f else current
  else best ++ [f]

/-- A known type below its confidence. -/
def PiiMap.drops (piiMap : PiiMap) (f : PiiFinding) : Bool :=
  match piiMap.entities.lookup f.entityType with
  | some rule => decide (f.score < rule.minScore)
  | none => false

/-- `_dedup_and_gate` -/
def dedupAndGate (findings : List PiiFinding) (piiMap : PiiMap) : List PiiFinding :=
  findings.foldl (fun best f => if piiMap.drops f then best else keepBest best f) []

/-- The floor of an entity type; normal when it is not in the map. -/
def PiiMap.typeFloor (piiMap : PiiMap) (entityType : String) : SensitivityTier :=
  match piiMap.entities.lookup entityType with
  | some rule => rule.tierFloor
  | none => .normal

/-- The floor of a number of strong identifiers. -/
def PiiMap.densityFloor (piiMap : PiiMap) (strong : ℕ) : SensitivityTier :=
  if piiMap.classifiedAt ≤ strong then .classified
  else if piiMap.restrictedAt ≤ strong then .restricted
  else .normal

/-- The match that a surviving finding counts as. -/
def PiiFinding.toMatch (piiMap : PiiMap) (f : PiiFinding) : PresidioMatch :=
  ⟨f.entityType, piiMap.typeFloor f.entityType, f.start, f.end_, f.score, f.language, f.text⟩

/-- The order of the matches in a verdict. -/
def PresidioMatch.le (a b : PresidioMatch) : Bool :=
  decide (a.start < b.start) || (a.start == b.start && decide (a.entityType ≤ b.entityType))

/-- `map_findings` -/
def mapFindings (findings : List PiiFinding) (piiMap : PiiMap) : PresidioVerdict :=
  let survivors := dedupAndGate findings piiMap
  let typeFloors := survivors.map fun f => piiMap.typeFloor f.entityType
  let strong := typeFloors.countP fun t => t ≠ .normal
  { tierFloor := maxTier (typeFloors ++ [piiMap.densityFloor strong])
    matches_ := (survivors.map (·.toMatch piiMap)).insertionSort fun a b => a.le b
    mapVersion := piiMap.mapVersion
    failClosed := false }

/-- `detect`, from what the jailed pass gives: findings, or nothing that can be relied on. -/
def detect (findings : Option (List PiiFinding)) (piiMap : PiiMap) : PresidioVerdict :=
  match findings with
  | some findings => mapFindings findings piiMap
  | none => ⟨.classified, [], piiMap.mapVersion, true⟩

section Findings

variable {piiMap : PiiMap} {best findings findings' : List PiiFinding} {f : PiiFinding}

/-- An update keeps the keys, an insertion adds one. -/
theorem keys_keepBest (best : List PiiFinding) (f : PiiFinding) :
    (keepBest best f).map PiiFinding.key =
    if f.key ∈ best.map PiiFinding.key then best.map PiiFinding.key
    else best.map PiiFinding.key ++ [f.key] := by
  rw [keepBest]
  split_ifs with hin
  · rw [List.map_map]
    refine List.map_congr_left fun current _ => ?_
    rw [Function.comp_apply]
    split_ifs with hbeats
    · exact hbeats.1.symm
    · rfl
  · rw [List.map_append, List.map_singleton]

/-- One survivor for each span and type that a finding has which is not dropped. By induction on
the findings, with the survivors so far. -/
theorem keys_foldl (hbest : (best.map PiiFinding.key).Nodup) :
    ((findings.foldl (fun best f => if piiMap.drops f then best else keepBest best f) best).map
        PiiFinding.key).Nodup ∧
      ∀ k, k ∈ (findings.foldl (fun best f => if piiMap.drops f then best else keepBest best f)
          best).map PiiFinding.key ↔
        k ∈ best.map PiiFinding.key ∨ ∃ f ∈ findings, piiMap.drops f = false ∧ f.key = k := by
  induction findings generalizing best with
  | nil => simpa using hbest
  | cons f fs ih =>
    rw [List.foldl_cons]
    by_cases hdrop : piiMap.drops f
    · rw [if_pos hdrop]
      obtain ⟨hnodup, hmem⟩ := ih hbest
      refine ⟨hnodup, fun k => (hmem k).trans (or_congr_right ?_)⟩
      rw [List.exists_mem_cons_iff, hdrop]
      simp
    · rw [if_neg hdrop]
      have hkeys := keys_keepBest best f
      have hnodup' : ((keepBest best f).map PiiFinding.key).Nodup := by
        rw [hkeys]
        split_ifs with hin
        · exact hbest
        · exact hbest.append (List.nodup_singleton _) (List.disjoint_singleton.mpr hin)
      obtain ⟨hnodup, hmem⟩ := ih hnodup'
      refine ⟨hnodup, fun k => (hmem k).trans ?_⟩
      have hkept : k ∈ (keepBest best f).map PiiFinding.key ↔
          k ∈ best.map PiiFinding.key ∨ f.key = k := by
        rw [hkeys]
        split_ifs with hin
        · refine ⟨Or.inl, fun h => h.elim id fun heq => heq ▸ hin⟩
        · rw [List.mem_append, List.mem_singleton, eq_comm (a := k)]
      rw [hkept, List.exists_mem_cons_iff, Bool.eq_false_iff.mpr hdrop, or_assoc]
      simp

theorem nodup_keys_dedupAndGate : ((dedupAndGate findings piiMap).map PiiFinding.key).Nodup :=
  (@keys_foldl piiMap [] findings List.nodup_nil).1

theorem mem_keys_dedupAndGate {k : ℤ × ℤ × String} :
    k ∈ (dedupAndGate findings piiMap).map PiiFinding.key ↔
      ∃ f ∈ findings, piiMap.drops f = false ∧ f.key = k := by
  have hmem := (@keys_foldl piiMap [] findings List.nodup_nil).2 k
  rw [List.map_nil, or_iff_right List.not_mem_nil] at hmem
  exact hmem

/-- The floors of the survivors, by their keys. -/
theorem typeFloors_eq :
    (dedupAndGate findings piiMap).map (fun f => piiMap.typeFloor f.entityType) =
    ((dedupAndGate findings piiMap).map PiiFinding.key).map fun k => piiMap.typeFloor k.2.2 := by
  rw [List.map_map]
  rfl

theorem densityFloor_mono {n n' : ℕ} (h : n ≤ n') :
    piiMap.densityFloor n ≤ piiMap.densityFloor n' := by
  have hcast : (n : ℤ) ≤ n' := Int.ofNat_le.mpr h
  rw [PiiMap.densityFloor]
  split_ifs with hclassified hrestricted
  · rw [PiiMap.densityFloor, if_pos (hclassified.trans hcast)]
  · rw [PiiMap.densityFloor]
    split_ifs
    · exact SensitivityTier.le_classified _
    · exact le_refl _
    · next hnot => exact absurd (hrestricted.trans hcast) hnot
  · exact SensitivityTier.normal_le _

/-- **More findings** never lower the floor: every survivor's key survives, and no key is counted
twice. -/
theorem mapFindings_mono (h : findings ⊆ findings') :
    (mapFindings findings piiMap).tierFloor ≤ (mapFindings findings' piiMap).tierFloor := by
  have hkeys : (dedupAndGate findings piiMap).map PiiFinding.key ⊆
      (dedupAndGate findings' piiMap).map PiiFinding.key := by
    intro k hk
    obtain ⟨f, hf, hkept, hkey⟩ := mem_keys_dedupAndGate.mp hk
    exact mem_keys_dedupAndGate.mpr ⟨f, h hf, hkept, hkey⟩
  have hstrong : ∀ p : SensitivityTier → Bool,
      (((dedupAndGate findings piiMap).map PiiFinding.key).map
          fun k => piiMap.typeFloor k.2.2).countP p ≤
        (((dedupAndGate findings' piiMap).map PiiFinding.key).map
          fun k => piiMap.typeFloor k.2.2).countP p := by
    intro p
    have hle := (List.subperm_of_subset nodup_keys_dedupAndGate hkeys).countP_le
      (p ∘ fun k => piiMap.typeFloor k.2.2)
    rwa [← List.countP_map, ← List.countP_map] at hle
  simp only [mapFindings, typeFloors_eq]
  refine maxTier_mono fun x hx => ?_
  rcases List.mem_append.mp hx with hx | hx
  · exact ⟨x, List.mem_append_left _ (List.map_subset _ hkeys hx), le_refl x⟩
  · rw [List.mem_singleton.mp hx]
    exact ⟨_, List.mem_append_right _ (List.mem_singleton_self _),
      densityFloor_mono (hstrong _)⟩

end Findings

/-! ## Verdicts -/

/-- Why an extraction failed closed. -/
inductive FailReason where
  | sandboxDegraded
  | launchFailed
  | parserCrash
  | parserKilled
  | timeout
  | outputOverflow
  | badOutput
  | unsupportedType
  | extractorUnavailable
  deriving DecidableEq

/-- The member's value. -/
def FailReason.value : FailReason → String
  | sandboxDegraded => "sandbox_degraded"
  | launchFailed => "launch_failed"
  | parserCrash => "parser_crash"
  | parserKilled => "parser_killed"
  | timeout => "timeout"
  | outputOverflow => "output_overflow"
  | badOutput => "bad_output"
  | unsupportedType => "unsupported_type"
  | extractorUnavailable => "extractor_unavailable"

/-- How an extraction ended: an `ExtractResult`, by the entries of its `meta` that are read, or a
`FailedClosed`. -/
inductive Extraction where
  | extracted (docKind : Option String) (empty ocrApplied : Bool)
  | failedClosed (reason : FailReason) (detail : String)
  deriving DecidableEq

/-- `ReviewKind` -/
inductive ReviewKind where
  | possibleOverClassification
  | llmHigherTier
  | llmUnavailable
  deriving DecidableEq

/-- `ReviewFlag` -/
structure ReviewFlag where
  kind : ReviewKind
  detail : String
  suggestedTier : Option SensitivityTier
  corroborated : Bool
  deriving DecidableEq

/-- `StageProvenance` -/
structure StageProvenance where
  stage : String
  tierFloor : SensitivityTier
  version : String
  failClosed : Bool
  detail : String
  deriving DecidableEq

/-- How sure a model says that it is. -/
inductive LlmConfidence where
  | low
  | medium
  | high
  deriving DecidableEq

/-- The member's value. -/
def LlmConfidence.value : LlmConfidence → String
  | low => "low"
  | medium => "medium"
  | high => "high"

/-- `LlmAdvisory` -/
structure LlmAdvisory where
  suggestedTier : SensitivityTier
  summary : String
  indicators : List String
  confidence : LlmConfidence
  model : String
  truncatedInput : Bool
  attempts : ℕ
  deriving DecidableEq

/-- The outcome of the advisory; of an `LlmUnavailable`, its reason. -/
inductive LlmOutcome where
  | advisory (said : LlmAdvisory)
  | unavailable (reason : String)
  deriving DecidableEq

/-- `ClassificationVerdict` -/
structure ClassificationVerdict where
  tier : SensitivityTier
  provenance : List StageProvenance
  regex : RegexVerdict
  presidio : PresidioVerdict
  reviewFlags : List ReviewFlag
  consultLlm : Bool
  failClosed : Bool
  llm : Option LlmAdvisory

/-- `str` of a Boolean. -/
def pyBool (b : Bool) : String := if b then "True" else "False"

/-- `str` of a list of names. -/
def pyNames (names : List String) : String :=
  "[" ++ ", ".intercalate (names.map fun name => "'" ++ name ++ "'") ++ "]"

/-- `_extraction_provenance` -/
def extractionProvenance : Extraction → StageProvenance
  | .failedClosed reason detail => ⟨"extraction", .classified, reason.value, true, detail⟩
  | .extracted docKind empty ocr =>
    ⟨"extraction", .normal, docKind.getD "unknown", false,
      "empty=" ++ pyBool empty ++ " ocr=" ++ pyBool ocr⟩

/-- `_COUNTER_SIGNAL_RULES` -/
def counterSignalRules : List String := ["fp_template_placeholder", "fp_creative_works"]

/-- `_FP_PRONE_RULES` -/
def fpProneRules : List String :=
  ["banner_en", "banner_un", "corp_confidential_en", "corp_confidential_es",
    "corp_confidential_pt", "caveats_uk_en", "caveats_au_ca_en"]

/-- `sorted` of a set of rule names. -/
def sortedNames (ms : List RuleMatch) : List String :=
  (ms.map RuleMatch.ruleName).dedup.insertionSort (· ≤ ·)

/-- `_counter_signal_flags` -/
def counterSignalFlags (tier : SensitivityTier) (regex : RegexVerdict) (presidio : PresidioVerdict)
    (failClosed : Bool) : List ReviewFlag :=
  let counter := regex.matches_.filter fun m => m.ruleName ∈ counterSignalRules
  let tierDriving := regex.matches_.filter fun m => m.tierFloor = tier
  if failClosed ∨ tier = .normal then []
  else if counter = [] then []
  else if presidio.tierFloor = tier then []
  else if tierDriving = [] ∨ ¬ tierDriving.all fun m => m.ruleName ∈ fpProneRules then []
  else
    [⟨.possibleOverClassification,
      "counter-signal " ++ pyNames (sortedNames counter) ++
        " co-occurs with FP-prone tier driver(s) " ++ pyNames (sortedNames tierDriving) ++
        "; operator review may demote — tier left unchanged (§0)",
      some .normal, false⟩]

/-- `aggregate` -/
def aggregate (extraction : Extraction) (regex : RegexVerdict) (presidio : PresidioVerdict)
    (metaRegex : Option RegexVerdict) : ClassificationVerdict :=
  let extractionProv := extractionProvenance extraction
  let regexProv : StageProvenance := ⟨"regex", regex.tierFloor, regex.rulesetVersion, false, ""⟩
  let presidioProv : StageProvenance :=
    ⟨"presidio", presidio.tierFloor, presidio.mapVersion, presidio.failClosed, ""⟩
  let metadataProv : List StageProvenance := metaRegex.toList.map fun m =>
    ⟨"metadata", m.tierFloor, m.rulesetVersion, false,
      "escalate-only: embedded metadata as a regex text source (slice 9)"⟩
  let provenance := [extractionProv, regexProv, presidioProv] ++ metadataProv
  let tier := maxTier (provenance.map StageProvenance.tierFloor)
  let failClosed := extractionProv.failClosed || presidio.failClosed
  { tier, provenance, regex, presidio
    reviewFlags := counterSignalFlags tier regex presidio failClosed
    consultLlm := decide (tier ≠ .classified) && !failClosed
    failClosed, llm := none }

/-- `_exceeds` -/
def exceeds (suggested tier : SensitivityTier) : Bool :=
  decide (suggested ≠ tier) && decide (maxTier [suggested, tier] = suggested)

/-- `_couple_over_classification` -/
def coupleOverClassification (flags : List ReviewFlag) (suggested : SensitivityTier) :
    List ReviewFlag :=
  flags.filterMap fun flag =>
    if flag.kind ≠ .possibleOverClassification then some flag
    else if suggested = .normal then some { flag with corroborated := true }
    else none

/-- `apply_llm_advisory` -/
def applyLlmAdvisory (verdict : ClassificationVerdict) (outcome : LlmOutcome) :
    ClassificationVerdict :=
  match outcome with
  | .unavailable reason =>
    { verdict with
      reviewFlags := verdict.reviewFlags ++
        [⟨.llmUnavailable, "semantic LLM tripwire did not deploy (" ++ reason ++ ")", none,
          false⟩] }
  | .advisory said =>
    let flags := coupleOverClassification verdict.reviewFlags said.suggestedTier
    let tripwire : List ReviewFlag :=
      if verdict.tier ≠ .classified ∧ exceeds said.suggestedTier verdict.tier then
        [⟨.llmHigherTier,
          "LLM judged " ++ said.suggestedTier.value ++ " (confidence " ++
            said.confidence.value ++ "); deterministic tier " ++ verdict.tier.value ++
            " unchanged — operator review (§4)",
          some said.suggestedTier, false⟩]
      else []
    { verdict with llm := some said, reviewFlags := flags ++ tripwire }

/-- The advisory is above normal, which drops a suggested demotion. -/
def LlmOutcome.suppresses : LlmOutcome → Bool
  | .unavailable _ => false
  | .advisory said => decide (said.suggestedTier ≠ .normal)

/-- What the stages give of a document; without findings the PII stage has failed closed. -/
structure Document where
  extraction : Extraction
  regex : RegexVerdict
  metaRegex : Option RegexVerdict
  findings : Option (List PiiFinding)
  llm : LlmOutcome

namespace Document

variable (piiMap : PiiMap) (d : Document)

/-- The final verdict. -/
def verdict : ClassificationVerdict :=
  applyLlmAdvisory (aggregate d.extraction d.regex (detect d.findings piiMap) d.metaRegex) d.llm

/-- The floors of the stages. -/
def floors : List SensitivityTier :=
  [(extractionProvenance d.extraction).tierFloor, d.regex.tierFloor,
    (detect d.findings piiMap).tierFloor] ++ d.metaRegex.toList.map RegexVerdict.tierFloor

/-- The extraction or the PII stage failed closed. -/
def failedClosed : Bool :=
  (extractionProvenance d.extraction).failClosed || d.findings.isNone

/-- Of the highest floor, nothing but FP-prone markings of the text, next to a counter-signal. -/
structure FpDriven : Prop where
  readable : d.failedClosed = false
  elevated : maxTier (d.floors piiMap) ≠ .normal
  counter : ∃ m ∈ d.regex.matches_, m.ruleName ∈ counterSignalRules
  pii : (detect d.findings piiMap).tierFloor < maxTier (d.floors piiMap)
  driven : ∃ m ∈ d.regex.matches_, m.tierFloor = maxTier (d.floors piiMap)
  fpProne : ∀ m ∈ d.regex.matches_, m.tierFloor = maxTier (d.floors piiMap) →
    m.ruleName ∈ fpProneRules

/-- The text is marked by FP-prone rules only at its floor, next to a counter-signal and above the
findings. -/
structure FpBody : Prop where
  readable : d.failedClosed = false
  elevated : d.regex.tierFloor ≠ .normal
  counter : ∃ m ∈ d.regex.matches_, m.ruleName ∈ counterSignalRules
  pii : (detect d.findings piiMap).tierFloor < d.regex.tierFloor
  fpProne : ∀ m ∈ d.regex.matches_, m.tierFloor = d.regex.tierFloor → m.ruleName ∈ fpProneRules

/-- The verdict suggests that the tier is too high. -/
def Invites : Prop :=
  ∃ flag ∈ (d.verdict piiMap).reviewFlags, flag.kind = .possibleOverClassification

/-- `d'` has the evidence of `d` and more: an extraction may have failed, and matches and findings
may have been added. -/
structure Escalates (d d' : Document) : Prop where
  extraction : d'.extraction = d.extraction ∨
    ∃ reason detail, d'.extraction = .failedClosed reason detail
  regex : d.regex.matches_ ⊆ d'.regex.matches_
  metadata : ∀ m ∈ d.metaRegex, ∃ m' ∈ d'.metaRegex, m.matches_ ⊆ m'.matches_
  findings : ∀ fs' ∈ d'.findings, ∃ fs ∈ d.findings, fs ⊆ fs'

/-- The tier is the highest floor, more evidence never lowers it, the advisory does not move it,
and a demotion is suggested only where nothing but FP-prone markings of the text reaches it. -/
structure Lawful : Prop where
  greatest : IsGreatest {t | t ∈ d.floors piiMap} (d.verdict piiMap).tier
  monotone : ∀ d', Escalates d d' → (d.verdict piiMap).tier ≤ (d'.verdict piiMap).tier
  advisory : ∀ llm, ({ d with llm }.verdict piiMap).tier = (d.verdict piiMap).tier
  readable : d.Invites piiMap → d.failedClosed = false
  pii : d.Invites piiMap → (detect d.findings piiMap).tierFloor < (d.verdict piiMap).tier
  metadata : d.Invites piiMap → ∀ m ∈ d.metaRegex, m.tierFloor < (d.verdict piiMap).tier
  fpProne : d.Invites piiMap → ∀ m ∈ d.regex.matches_, (d.verdict piiMap).tier ≤ m.tierFloor →
    m.ruleName ∈ fpProneRules

section Lemmas

variable {piiMap : PiiMap} {d d' : Document}

theorem floors_ne_nil : d.floors piiMap ≠ [] := List.cons_ne_nil _ _

theorem mem_floors {t : SensitivityTier} : t ∈ d.floors piiMap ↔
    t = (extractionProvenance d.extraction).tierFloor ∨ t = d.regex.tierFloor ∨
      t = (detect d.findings piiMap).tierFloor ∨ ∃ m ∈ d.metaRegex, m.tierFloor = t := by
  simp [floors]

/-- **The tier** is the highest of the floors; the advisory has no part in it. -/
theorem tier_eq : (d.verdict piiMap).tier = maxTier (d.floors piiMap) := by
  have haggregate : (aggregate d.extraction d.regex (detect d.findings piiMap) d.metaRegex).tier =
      maxTier (d.floors piiMap) := by
    simp only [aggregate, floors, List.map_append, List.map_cons, List.map_nil, List.map_map]
    rfl
  rw [← haggregate, verdict]
  cases d.llm <;> rfl

theorem tier_greatest : IsGreatest {t | t ∈ d.floors piiMap} (d.verdict piiMap).tier := by
  rw [tier_eq]
  exact ⟨maxTier_mem floors_ne_nil, fun t ht => le_maxTier ht⟩

theorem detect_mono {findings findings' : Option (List PiiFinding)}
    (h : ∀ fs' ∈ findings', ∃ fs ∈ findings, fs ⊆ fs') :
    (detect findings piiMap).tierFloor ≤ (detect findings' piiMap).tierFloor := by
  cases findings' with
  | none => exact SensitivityTier.le_classified _
  | some fs' =>
    obtain ⟨fs, hfs, hsub⟩ := h fs' rfl
    rw [Option.mem_def.mp hfs]
    exact mapFindings_mono hsub

/-- **More evidence never lowers the tier.** -/
theorem tier_mono (h : Escalates d d') : (d.verdict piiMap).tier ≤ (d'.verdict piiMap).tier := by
  have hextraction : (extractionProvenance d.extraction).tierFloor ≤
      (extractionProvenance d'.extraction).tierFloor := by
    rcases h.extraction with heq | ⟨reason, detail, heq⟩
    · rw [heq]
    · rw [heq]
      exact SensitivityTier.le_classified _
  rw [tier_eq, tier_eq]
  refine maxTier_mono fun x hx => ?_
  rcases mem_floors.mp hx with rfl | rfl | rfl | ⟨m, hm, rfl⟩
  · exact ⟨_, mem_floors.mpr (Or.inl rfl), hextraction⟩
  · exact ⟨_, mem_floors.mpr (Or.inr (Or.inl rfl)), RegexVerdict.floor_mono h.regex⟩
  · exact ⟨_, mem_floors.mpr (Or.inr (Or.inr (Or.inl rfl))), detect_mono h.findings⟩
  · obtain ⟨m', hm', hsub⟩ := h.metadata m hm
    exact ⟨_, mem_floors.mpr (Or.inr (Or.inr (Or.inr ⟨m', hm', rfl⟩))),
      RegexVerdict.floor_mono hsub⟩

/-- The PII stage reaches the highest floor or stays below it. -/
theorem presidio_ne_iff : (detect d.findings piiMap).tierFloor ≠ maxTier (d.floors piiMap) ↔
    (detect d.findings piiMap).tierFloor < maxTier (d.floors piiMap) := by
  have hle : (detect d.findings piiMap).tierFloor ≤ maxTier (d.floors piiMap) :=
    le_maxTier (by simp [floors])
  exact ⟨fun h => lt_of_le_of_ne hle h, ne_of_lt⟩

theorem failClosed_detect (d : Document) (piiMap : PiiMap) :
    (detect d.findings piiMap).failClosed = d.findings.isNone := by
  cases h : d.findings <;> rfl

/-- A flag of the first stage is raised on the FP-driven documents, and is of one kind. -/
theorem counterSignalFlags_iff :
    (∀ flag ∈ counterSignalFlags (maxTier (d.floors piiMap)) d.regex (detect d.findings piiMap)
        d.failedClosed, flag.kind = .possibleOverClassification) ∧
      (counterSignalFlags (maxTier (d.floors piiMap)) d.regex (detect d.findings piiMap)
        d.failedClosed ≠ [] ↔ d.FpDriven piiMap) := by
  simp only [counterSignalFlags]
  split_ifs with hfail hcounter hpii hdriving
  · refine ⟨fun _ h => absurd h List.not_mem_nil, iff_of_false (absurd rfl) fun h => ?_⟩
    rcases hfail with hfail | hnormal
    · exact absurd (h.readable.symm.trans hfail) Bool.false_ne_true
    · exact h.elevated hnormal
  · refine ⟨fun _ h => absurd h List.not_mem_nil, iff_of_false (absurd rfl) fun h => ?_⟩
    obtain ⟨m, hm, hrule⟩ := h.counter
    exact List.filter_eq_nil_iff.mp hcounter m hm (decide_eq_true hrule)
  · exact ⟨fun _ h => absurd h List.not_mem_nil, iff_of_false (absurd rfl) fun h => h.pii.ne hpii⟩
  · refine ⟨fun _ h => absurd h List.not_mem_nil, iff_of_false (absurd rfl) fun h => ?_⟩
    rcases hdriving with hnone | hother
    · obtain ⟨m, hm, htier⟩ := h.driven
      exact List.filter_eq_nil_iff.mp hnone m hm (decide_eq_true htier)
    · refine hother (List.all_eq_true.mpr fun m hm => ?_)
      obtain ⟨hm, htier⟩ := List.mem_filter.mp hm
      exact decide_eq_true (h.fpProne m hm (of_decide_eq_true htier))
  · obtain ⟨hreadable, helevated⟩ := not_or.mp hfail
    obtain ⟨hsome, hall⟩ := not_or.mp hdriving
    refine ⟨fun _ h => List.mem_singleton.mp h ▸ rfl, iff_of_true (List.cons_ne_nil _ _) ?_⟩
    constructor
    case readable => exact Bool.eq_false_iff.mpr hreadable
    case elevated => exact helevated
    case counter =>
      obtain ⟨m, hm⟩ := List.exists_mem_of_ne_nil _ hcounter
      obtain ⟨hm, hrule⟩ := List.mem_filter.mp hm
      exact ⟨m, hm, of_decide_eq_true hrule⟩
    case pii => exact presidio_ne_iff.mp hpii
    case driven =>
      obtain ⟨m, hm⟩ := List.exists_mem_of_ne_nil _ hsome
      obtain ⟨hm, htier⟩ := List.mem_filter.mp hm
      exact ⟨m, hm, of_decide_eq_true htier⟩
    case fpProne =>
      intro m hm htier
      have hrule := List.all_eq_true.mp (not_not.mp hall) m
        (List.mem_filter.mpr ⟨hm, decide_eq_true htier⟩)
      exact of_decide_eq_true hrule

/-- What the advisory leaves of the suggested demotions. -/
theorem exists_coupled_iff {flags : List ReviewFlag} {suggested : SensitivityTier} :
    (∃ flag ∈ coupleOverClassification flags suggested, flag.kind = .possibleOverClassification) ↔
      suggested = .normal ∧ ∃ flag ∈ flags, flag.kind = .possibleOverClassification := by
  refine ⟨?_, ?_⟩
  · rintro ⟨flag, hflag, hkind⟩
    obtain ⟨flag', hflag', hcoupled⟩ := List.mem_filterMap.mp hflag
    split_ifs at hcoupled with hother hnormal
    · cases hcoupled
      exact absurd hkind hother
    · exact ⟨hnormal, flag', hflag', not_not.mp hother⟩
  · rintro ⟨hnormal, flag, hflag, hkind⟩
    refine ⟨{ flag with corroborated := true }, List.mem_filterMap.mpr ⟨flag, hflag, ?_⟩, hkind⟩
    rw [if_neg (not_not.mpr hkind), if_pos hnormal]

/-- **A demotion is suggested** for the FP-driven documents, unless the advisory is above normal. -/
theorem invites_iff : d.Invites piiMap ↔ d.FpDriven piiMap ∧ d.llm.suppresses = false := by
  have hflags :
      (aggregate d.extraction d.regex (detect d.findings piiMap) d.metaRegex).reviewFlags =
      counterSignalFlags (maxTier (d.floors piiMap)) d.regex (detect d.findings piiMap)
        d.failedClosed := by
    rw [failedClosed, ← failClosed_detect d piiMap]
    simp only [aggregate, floors, List.map_append, List.map_cons, List.map_nil, List.map_map]
    rfl
  have hraised : (∃ flag ∈ (aggregate d.extraction d.regex (detect d.findings piiMap)
      d.metaRegex).reviewFlags, flag.kind = .possibleOverClassification) ↔ d.FpDriven piiMap := by
    rw [hflags]
    refine ⟨?_, ?_⟩
    · rintro ⟨flag, hflag, -⟩
      exact counterSignalFlags_iff.2.mp (List.ne_nil_of_mem hflag)
    · intro h
      obtain ⟨flag, hflag⟩ := List.exists_mem_of_ne_nil _ (counterSignalFlags_iff.2.mpr h)
      exact ⟨flag, hflag, counterSignalFlags_iff.1 flag hflag⟩
  rw [Invites, verdict, ← hraised]
  cases d.llm with
  | unavailable reason =>
    simp only [applyLlmAdvisory, List.mem_append, or_and_right, exists_or, LlmOutcome.suppresses,
      and_true]
    refine or_iff_left ?_
    rintro ⟨flag, hflag, hkind⟩
    rw [List.mem_singleton.mp hflag] at hkind
    cases hkind
  | advisory said =>
    simp only [applyLlmAdvisory, List.mem_append, or_and_right, exists_or, LlmOutcome.suppresses,
      exists_coupled_iff, decide_eq_false_iff_not, not_not]
    rw [and_comm]
    refine or_iff_left ?_
    rintro ⟨flag, hflag, hkind⟩
    split_ifs at hflag
    · rw [List.mem_singleton.mp hflag] at hkind
      cases hkind
    · exact absurd hflag List.not_mem_nil

/-- The text of an FP-driven document reaches the highest floor. -/
theorem FpDriven.floor_eq (h : d.FpDriven piiMap) :
    d.regex.tierFloor = maxTier (d.floors piiMap) := by
  obtain ⟨m, hm, htier⟩ := h.driven
  exact le_antisymm (le_maxTier (mem_floors.mpr (Or.inr (Or.inl rfl))))
    (htier ▸ d.regex.le_floor hm)

/-- A readable document with an FP-prone text that the metadata does not exceed has the floor of
its text. -/
theorem FpBody.floor_eq (h : d.FpBody piiMap)
    (hmeta : ∀ m ∈ d.metaRegex, m.tierFloor ≤ d.regex.tierFloor) :
    d.regex.tierFloor = maxTier (d.floors piiMap) := by
  refine le_antisymm (le_maxTier (mem_floors.mpr (Or.inr (Or.inl rfl))))
    (maxTier_le_iff.mpr fun x hx => ?_)
  rcases mem_floors.mp hx with rfl | rfl | rfl | ⟨m, hm, rfl⟩
  · have hreadable := (Bool.or_eq_false_iff.mp h.readable).1
    cases hextraction : d.extraction with
    | extracted docKind empty ocr => exact SensitivityTier.normal_le _
    | failedClosed reason detail =>
      rw [hextraction] at hreadable
      cases hreadable
  · exact le_refl _
  · exact h.pii.le
  · exact hmeta m hm

/-- **FP-driven** documents have an FP-prone text, which the metadata does not exceed. -/
theorem fpDriven_iff : d.FpDriven piiMap ↔
    d.FpBody piiMap ∧ ∀ m ∈ d.metaRegex, m.tierFloor ≤ d.regex.tierFloor := by
  refine ⟨?_, ?_⟩
  · intro h
    obtain ⟨hreadable, helevated, hcounter, hpii, -, hfp⟩ := id h
    rw [← h.floor_eq] at helevated hpii hfp
    refine ⟨⟨hreadable, helevated, hcounter, hpii, hfp⟩, fun m hm => ?_⟩
    rw [h.floor_eq]
    exact le_maxTier (mem_floors.mpr (Or.inr (Or.inr (Or.inr ⟨m, hm, rfl⟩))))
  · rintro ⟨h, hmeta⟩
    have heq := h.floor_eq hmeta
    have hreached : ∃ m ∈ d.regex.matches_, m.tierFloor = d.regex.tierFloor := by
      obtain ⟨m, hm, -⟩ := h.counter
      have hne : d.regex.matches_.map RuleMatch.tierFloor ≠ [] :=
        List.ne_nil_of_mem (List.mem_map_of_mem hm)
      have hmem := maxTier_mem hne
      rw [← d.regex.floor_eq] at hmem
      exact List.mem_map.mp hmem
    obtain ⟨hreadable, helevated, hcounter, hpii, hfp⟩ := h
    rw [heq] at helevated hpii hfp hreached
    exact ⟨hreadable, helevated, hcounter, hpii, hreached, hfp⟩

/-- A demotion is suggested with the metadata at or above the tier exactly when the metadata is at
the floor of an FP-prone text. -/
theorem invites_reached_iff {m : RegexVerdict} (hm : m ∈ d.metaRegex) :
    (d.Invites piiMap ∧ (d.verdict piiMap).tier ≤ m.tierFloor) ↔
      d.FpBody piiMap ∧ d.llm.suppresses = false ∧ m.tierFloor = d.regex.tierFloor := by
  rw [invites_iff, tier_eq]
  refine ⟨?_, ?_⟩
  · rintro ⟨⟨hdriven, hkept⟩, hreach⟩
    obtain ⟨hbody, hmeta⟩ := fpDriven_iff.mp hdriven
    rw [← hdriven.floor_eq] at hreach
    exact ⟨hbody, hkept, le_antisymm (hmeta m hm) hreach⟩
  · rintro ⟨hbody, hkept, heq⟩
    have hmeta : ∀ m' ∈ d.metaRegex, m'.tierFloor ≤ d.regex.tierFloor := by
      intro m' hm'
      rw [Option.mem_unique hm' hm, heq]
    refine ⟨⟨fpDriven_iff.mpr ⟨hbody, hmeta⟩, hkept⟩, ?_⟩
    rw [heq, hbody.floor_eq hmeta]

end Lemmas

/-- **The verdict is right** exactly when the metadata is not at the floor of an FP-prone text,
wherever the advisory lets the demotion through. -/
theorem triage_lawful_iff : d.Lawful piiMap ↔
    (d.FpBody piiMap → d.llm.suppresses = false →
      ∀ m ∈ d.metaRegex, m.tierFloor ≠ d.regex.tierFloor) := by
  refine ⟨?_, ?_⟩
  · intro h hbody hkept m hm heq
    obtain ⟨hinvites, hreach⟩ := (invites_reached_iff hm).mpr ⟨hbody, hkept, heq⟩
    exact absurd hreach (not_le.mpr (h.metadata hinvites m hm))
  · intro h
    constructor
    case greatest => exact tier_greatest
    case monotone => exact fun d' => tier_mono
    case advisory =>
      intro llm
      rw [tier_eq, tier_eq]
      rfl
    case readable => exact fun hinvites => (invites_iff.mp hinvites).1.readable
    case pii =>
      intro hinvites
      rw [tier_eq]
      exact (invites_iff.mp hinvites).1.pii
    case metadata =>
      intro hinvites m hm
      refine not_le.mp fun hreach => ?_
      obtain ⟨hbody, hkept, heq⟩ := (invites_reached_iff hm).mp ⟨hinvites, hreach⟩
      exact h hbody hkept m hm heq
    case fpProne =>
      intro hinvites m hm hreach
      rw [tier_eq] at hreach
      -- a match of the text is at most at the highest floor
      have hle : m.tierFloor ≤ maxTier (d.floors piiMap) :=
        (d.regex.le_floor hm).trans (le_maxTier (mem_floors.mpr (Or.inr (Or.inl rfl))))
      exact (invites_iff.mp hinvites).1.fpProne m hm (le_antisymm hle hreach)

/-- A footer and a placeholder in the text, and health data in the metadata: the metadata reaches
the tier, and the demotion is suggested all the same. -/
def footerDocument : Document where
  extraction := .extracted (some "docx") false false
  regex := ⟨[⟨"corp_confidential_en", .restricted, 0, 17, "INTERNAL USE ONLY", some "en"⟩,
    ⟨"fp_template_placeholder", .normal, 20, 26, "[NAME]", none⟩], "v3", .restricted, by decide⟩
  metaRegex := some ⟨[⟨"regulated_health_en", .restricted, 0, 14, "medical record", some "en"⟩],
    "v3", .restricted, by decide⟩
  findings := some []
  llm := .unavailable "timeout"

theorem footer_invites_demotion :
    ∃ piiMap, footerDocument.Invites piiMap ∧
      (∃ m ∈ footerDocument.metaRegex, m.tierFloor = (footerDocument.verdict piiMap).tier) ∧
      ¬ footerDocument.Lawful piiMap := by
  have hinvites : footerDocument.Invites ⟨"v1", [], 3, 10⟩ := by
    refine invites_iff.mpr ⟨?_, rfl⟩
    constructor <;> decide
  have hreach : ∀ m ∈ footerDocument.metaRegex,
      m.tierFloor = (footerDocument.verdict ⟨"v1", [], 3, 10⟩).tier := by
    intro m hm
    cases hm
    decide
  refine ⟨⟨"v1", [], 3, 10⟩, hinvites, ⟨_, rfl, hreach _ rfl⟩, fun h => ?_⟩
  exact (h.metadata hinvites _ rfl).ne (hreach _ rfl)

end Document

end Eyenet
