import Eyenet.PyReadable

/-!
# Calibration artifacts

`calibration/artifact.py` writes the outcome of a calibration to a JSON file, with the SHA-256 of
all fields at the bottom, and reads the file back, field by field.

* `Artifact.load_write` — an artifact that was written is loaded, and its hash is the stored one.
* `Artifact.computeSelfHash_inj` — the hash determines the artifact.
* `Artifact.artifact_lawful` — a file under the stored hash passes when it is loaded as the same
  artifact, and only then.
-/

namespace Eyenet

open PyJson

namespace Artifact

/-! ## Artifacts -/

/-- A float, as it is written. -/
abbrev PyFloat := PyStr

abbrev PyDict := List (PyStr × PyValue)

/-- `SimhashArtifactEntry` -/
structure SimhashArtifactEntry where
  primitive : PyStr
  language : Option PyStr
  enabled : Bool
  actorsFired : ℤ
  withinCount : ℤ
  withinMin : ℤ
  withinP50 : ℤ
  withinMax : ℤ
  crossCount : ℤ
  crossMin : ℤ
  crossP50 : ℤ
  crossMax : ℤ
  auc : PyFloat
  strategy : PyStr
  chosenThreshold : Option ℤ
  chosenPrecision : PyFloat
  chosenRecall : PyFloat
  chosenF1 : PyFloat
  f1MaxThreshold : ℤ
  f1MaxF1 : PyFloat
  deriving Inhabited

/-- `RecipeArtifactEntry` -/
structure RecipeArtifactEntry where
  name : PyStr
  version : PyStr
  positiveLabel : PyStr
  strategy : PyStr
  axes : List PyDict
  groupsCount : ℤ
  tp : ℤ
  fp : ℤ
  tn : ℤ
  fn : ℤ
  precision : PyFloat
  «recall» : PyFloat
  f1 : PyFloat
  notes : List PyStr
  deriving Inhabited

/-- `VerifierArtifactEntry` -/
structure VerifierArtifactEntry where
  verifier : PyStr
  language : Option PyStr
  enabled : Bool
  actorsEvaluated : ℤ
  withinCount : ℤ
  withinMin : PyFloat
  withinP50 : PyFloat
  withinMax : PyFloat
  crossCount : ℤ
  crossMin : PyFloat
  crossP50 : PyFloat
  crossMax : PyFloat
  auc : PyFloat
  strategy : PyStr
  chosenThreshold : Option PyFloat
  chosenPrecision : PyFloat
  chosenRecall : PyFloat
  chosenF1 : PyFloat
  f1MaxThreshold : PyFloat
  f1MaxF1 : PyFloat
  deriving Inhabited

/-- `CalibrationArtifact` -/
structure CalibrationArtifact where
  schemaVersion : PyStr
  corpusId : PyStr
  corpusSha256 : PyStr
  eyenetVersion : PyStr
  behaveTextVersion : PyStr
  generatedAt : PyStr
  actorCountTotal : ℤ
  actorCountSimhashQualifying : ℤ
  minMessages : ℤ
  labeler : PyStr
  labelCounts : List (PyStr × ℤ)
  simhash : List SimhashArtifactEntry
  recipes : List RecipeArtifactEntry
  verifiers : List VerifierArtifactEntry
  notes : List PyStr
  deriving Inhabited

/-! ## Writing -/

/-- A dict with the names of its fields. -/
def record (fields : List (String × PyValue)) : PyDict := fields.map fun p => (py p.1, p.2)

/-- What may be `None`. -/
def optional {α : Type} (f : α → PyValue) : Option α → PyValue
  | none => .none
  | some a => f a

def strs (l : List PyStr) : PyValue := .list (l.map .str)

def SimhashArtifactEntry.fields (e : SimhashArtifactEntry) : List (String × PyValue) :=
  [("primitive", .str e.primitive),
    ("language", optional .str e.language),
    ("enabled", .bool e.enabled),
    ("actors_fired", .int e.actorsFired),
    ("within_count", .int e.withinCount),
    ("within_min", .int e.withinMin),
    ("within_p50", .int e.withinP50),
    ("within_max", .int e.withinMax),
    ("cross_count", .int e.crossCount),
    ("cross_min", .int e.crossMin),
    ("cross_p50", .int e.crossP50),
    ("cross_max", .int e.crossMax),
    ("auc", .float e.auc),
    ("strategy", .str e.strategy),
    ("chosen_threshold", optional .int e.chosenThreshold),
    ("chosen_precision", .float e.chosenPrecision),
    ("chosen_recall", .float e.chosenRecall),
    ("chosen_f1", .float e.chosenF1),
    ("f1_max_threshold", .int e.f1MaxThreshold),
    ("f1_max_f1", .float e.f1MaxF1)]

def RecipeArtifactEntry.fields (e : RecipeArtifactEntry) : List (String × PyValue) :=
  [("name", .str e.name),
    ("version", .str e.version),
    ("positive_label", .str e.positiveLabel),
    ("strategy", .str e.strategy),
    ("axes", .list (e.axes.map .dict)),
    ("groups_count", .int e.groupsCount),
    ("tp", .int e.tp),
    ("fp", .int e.fp),
    ("tn", .int e.tn),
    ("fn", .int e.fn),
    ("precision", .float e.precision),
    ("recall", .float e.recall),
    ("f1", .float e.f1),
    ("notes", strs e.notes)]

def VerifierArtifactEntry.fields (e : VerifierArtifactEntry) : List (String × PyValue) :=
  [("verifier", .str e.verifier),
    ("language", optional .str e.language),
    ("enabled", .bool e.enabled),
    ("actors_evaluated", .int e.actorsEvaluated),
    ("within_count", .int e.withinCount),
    ("within_min", .float e.withinMin),
    ("within_p50", .float e.withinP50),
    ("within_max", .float e.withinMax),
    ("cross_count", .int e.crossCount),
    ("cross_min", .float e.crossMin),
    ("cross_p50", .float e.crossP50),
    ("cross_max", .float e.crossMax),
    ("auc", .float e.auc),
    ("strategy", .str e.strategy),
    ("chosen_threshold", optional .float e.chosenThreshold),
    ("chosen_precision", .float e.chosenPrecision),
    ("chosen_recall", .float e.chosenRecall),
    ("chosen_f1", .float e.chosenF1),
    ("f1_max_threshold", .float e.f1MaxThreshold),
    ("f1_max_f1", .float e.f1MaxF1)]

namespace CalibrationArtifact

def fields (a : CalibrationArtifact) : List (String × PyValue) :=
  [("schema_version", .str a.schemaVersion),
    ("corpus_id", .str a.corpusId),
    ("corpus_sha256", .str a.corpusSha256),
    ("eyenet_version", .str a.eyenetVersion),
    ("behave_text_version", .str a.behaveTextVersion),
    ("generated_at", .str a.generatedAt),
    ("actor_count_total", .int a.actorCountTotal),
    ("actor_count_simhash_qualifying", .int a.actorCountSimhashQualifying),
    ("min_messages", .int a.minMessages),
    ("labeler", .str a.labeler),
    ("label_counts", .dict (a.labelCounts.map fun p => (p.1, .int p.2))),
    ("simhash", .list (a.simhash.map fun e => .dict (record e.fields))),
    ("recipes", .list (a.recipes.map fun e => .dict (record e.fields))),
    ("verifiers", .list (a.verifiers.map fun e => .dict (record e.fields))),
    ("notes", strs a.notes)]

/-- `to_canonical_dict` -/
def toCanonicalDict (a : CalibrationArtifact) : PyDict := record a.fields

variable (sha256 : String → String)

/-- `compute_self_hash`; `sha256` is the hex digest of the bytes of a text. -/
def computeSelfHash (a : CalibrationArtifact) : String :=
  sha256 (dumps .compact (.dict a.toCanonicalDict))

/-- `write`; the text of the file. -/
def write (a : CalibrationArtifact) : String :=
  dumps (.indented 2)
    (.dict (a.toCanonicalDict ++ [(py "self_hash", .str (py (a.computeSelfHash sha256)))])) ++ "\n"

end CalibrationArtifact

/-! ## Reading -/

/-- What `load` raises. -/
inductive ArtifactError where
  | json (e : Raised)
  /-- `artifact root is not a JSON object: ..` -/
  | root (got : String)
  /-- `artifact field ..: expected .., got ..` -/
  | expected (key what got : String)
  /-- `artifact field ..[..]: expected int` -/
  | expectedInt (key : String) (k : PyStr)
  /-- `artifact field ..: non-string element ..` -/
  | nonStringElement (key : String) (item : PyValue)
  /-- `artifact field ..: non-object element` -/
  | nonObjectElement (key : String)
  /-- `int too large to convert to float` -/
  | overflowError

/-- `type(v).__name__` -/
def typeName : PyValue → String
  | .none => "NoneType"
  | .bool _ => "bool"
  | .int _ => "int"
  | .float _ => "float"
  | .str _ => "str"
  | .list _ => "list"
  | .dict _ => "dict"

/-- `d.get(key, default)` -/
def get (d : PyDict) (key : String) (default : PyValue) : PyValue :=
  (d.lookup (py key)).getD default

/-- A field of one type. -/
def asField {α : Type} (what : String) (default : PyValue) (read : PyValue → Option α) (d : PyDict)
    (key : String) : Except ArtifactError α :=
  match read (get d key default) with
  | some a => .ok a
  | none => .error (.expected key what (typeName (get d key default)))

/-- `_as_str` -/
def asStr : PyDict → String → Except ArtifactError PyStr :=
  asField "string" .none fun v => match v with
    | .str s => some s
    | _ => none

/-- `_as_int` -/
def asInt : PyDict → String → Except ArtifactError ℤ :=
  asField "int" .none fun v => match v with
    | .int n => some n
    | _ => none

/-- `_as_bool` -/
def asBool : PyDict → String → Except ArtifactError Bool :=
  asField "bool" .none fun v => match v with
    | .bool b => some b
    | _ => none

/-- `_as_optional_int` -/
def asOptionalInt : PyDict → String → Except ArtifactError (Option ℤ) :=
  asField "int or null" .none fun v => match v with
    | .none => some none
    | .int n => some (some n)
    | _ => none

/-- `_as_optional_str` -/
def asOptionalStr : PyDict → String → Except ArtifactError (Option PyStr) :=
  asField "string or null" .none fun v => match v with
    | .none => some none
    | .str s => some (some s)
    | _ => none

section Floats

variable (floats : Floats)

/-- `float(n)` -/
def ofInt (n : ℤ) : Except ArtifactError PyFloat :=
  match floats.ofInt n with
  | some x => .ok x
  | none => .error .overflowError

/-- `_as_float` -/
def asFloat (d : PyDict) (key : String) : Except ArtifactError PyFloat :=
  (asField "number" .none (fun v => match v with
    | .float x => some (.ok x)
    | .int n => some (ofInt floats n)
    | _ => none) d key).bind id

/-- `_as_optional_float` -/
def asOptionalFloat (d : PyDict) (key : String) : Except ArtifactError (Option PyFloat) :=
  (asField "number or null" .none (fun v => match v with
    | .none => some (.ok none)
    | .float x => some (.ok (some x))
    | .int n => some ((ofInt floats n).map some)
    | _ => none) d key).bind id

end Floats

/-- `_as_str_int_dict` -/
def asStrIntDict (d : PyDict) (key : String) : Except ArtifactError (List (PyStr × ℤ)) :=
  (asField "object" (.dict []) (fun v => match v with
    | .dict items => some items
    | _ => none) d key).bind fun items =>
  items.mapM fun p => match p.2 with
    | .int n => .ok (p.1, n)
    | _ => .error (.expectedInt key p.1)

/-- `_as_str_tuple` -/
def asStrTuple (d : PyDict) (key : String) : Except ArtifactError (List PyStr) :=
  (asField "array" (.list []) (fun v => match v with
    | .list items => some items
    | _ => none) d key).bind fun items =>
  items.mapM fun item => match item with
    | .str s => .ok s
    | _ => .error (.nonStringElement key item)

/-- `_as_dict_list` -/
def asDictList (d : PyDict) (key : String) : Except ArtifactError (List PyDict) :=
  (asField "array" (.list []) (fun v => match v with
    | .list items => some items
    | _ => none) d key).bind fun items =>
  items.mapM fun item => match item with
    | .dict r => .ok r
    | _ => .error (.nonObjectElement key)

variable (floats : Floats)

/-- `_coerce_simhash` -/
def coerceSimhash (r : PyDict) : Except ArtifactError SimhashArtifactEntry := do
  return {
    primitive := ← asStr r "primitive"
    language := ← asOptionalStr r "language"
    enabled := ← asBool r "enabled"
    actorsFired := ← asInt r "actors_fired"
    withinCount := ← asInt r "within_count"
    withinMin := ← asInt r "within_min"
    withinP50 := ← asInt r "within_p50"
    withinMax := ← asInt r "within_max"
    crossCount := ← asInt r "cross_count"
    crossMin := ← asInt r "cross_min"
    crossP50 := ← asInt r "cross_p50"
    crossMax := ← asInt r "cross_max"
    auc := ← asFloat floats r "auc"
    strategy := ← asStr r "strategy"
    chosenThreshold := ← asOptionalInt r "chosen_threshold"
    chosenPrecision := ← asFloat floats r "chosen_precision"
    chosenRecall := ← asFloat floats r "chosen_recall"
    chosenF1 := ← asFloat floats r "chosen_f1"
    f1MaxThreshold := ← asInt r "f1_max_threshold"
    f1MaxF1 := ← asFloat floats r "f1_max_f1" }

/-- `_coerce_verifier` -/
def coerceVerifier (r : PyDict) : Except ArtifactError VerifierArtifactEntry := do
  return {
    verifier := ← asStr r "verifier"
    language := ← asOptionalStr r "language"
    enabled := ← asBool r "enabled"
    actorsEvaluated := ← asInt r "actors_evaluated"
    withinCount := ← asInt r "within_count"
    withinMin := ← asFloat floats r "within_min"
    withinP50 := ← asFloat floats r "within_p50"
    withinMax := ← asFloat floats r "within_max"
    crossCount := ← asInt r "cross_count"
    crossMin := ← asFloat floats r "cross_min"
    crossP50 := ← asFloat floats r "cross_p50"
    crossMax := ← asFloat floats r "cross_max"
    auc := ← asFloat floats r "auc"
    strategy := ← asStr r "strategy"
    chosenThreshold := ← asOptionalFloat floats r "chosen_threshold"
    chosenPrecision := ← asFloat floats r "chosen_precision"
    chosenRecall := ← asFloat floats r "chosen_recall"
    chosenF1 := ← asFloat floats r "chosen_f1"
    f1MaxThreshold := ← asFloat floats r "f1_max_threshold"
    f1MaxF1 := ← asFloat floats r "f1_max_f1" }

/-- `_coerce_recipe` -/
def coerceRecipe (r : PyDict) : Except ArtifactError RecipeArtifactEntry := do
  return {
    name := ← asStr r "name"
    version := ← asStr r "version"
    positiveLabel := ← asStr r "positive_label"
    strategy := ← asStr r "strategy"
    axes := ← asDictList r "axes"
    groupsCount := ← asInt r "groups_count"
    tp := ← asInt r "tp"
    fp := ← asInt r "fp"
    tn := ← asInt r "tn"
    fn := ← asInt r "fn"
    precision := ← asFloat floats r "precision"
    «recall» := ← asFloat floats r "recall"
    f1 := ← asFloat floats r "f1"
    notes := ← asStrTuple r "notes" }

/-- `_from_dict` -/
def fromDict (d : PyDict) : Except ArtifactError CalibrationArtifact := do
  return {
    schemaVersion := ← asStr d "schema_version"
    corpusId := ← asStr d "corpus_id"
    corpusSha256 := ← asStr d "corpus_sha256"
    eyenetVersion := ← asStr d "eyenet_version"
    behaveTextVersion := ← asStr d "behave_text_version"
    generatedAt := ← asStr d "generated_at"
    actorCountTotal := ← asInt d "actor_count_total"
    actorCountSimhashQualifying := ← asInt d "actor_count_simhash_qualifying"
    minMessages := ← asInt d "min_messages"
    labeler := ← asStr d "labeler"
    labelCounts := ← asStrIntDict d "label_counts"
    simhash := ← (asDictList d "simhash").bind fun rows => rows.mapM (coerceSimhash floats)
    recipes := ← (asDictList d "recipes").bind fun rows => rows.mapM (coerceRecipe floats)
    verifiers := ← (asDictList d "verifiers").bind fun rows => rows.mapM (coerceVerifier floats)
    notes := ← asStrTuple d "notes" }

/-- `load`, of a value that was decoded. -/
def fromValue : PyValue → Except ArtifactError (CalibrationArtifact × PyStr)
  | .dict raw =>
    let storedHash := match get raw "self_hash" (.str []) with
      | .str s => s
      | _ => []
    (fromDict floats (raw.filter fun p => p.1 ≠ py "self_hash")).map fun a => (a, storedHash)
  | v => .error (.root (typeName v))

/-- `load` -/
def load (file : String) : Except ArtifactError (CalibrationArtifact × PyStr) :=
  match floats.loads file with
  | .error e => .error (.json e)
  | .ok v => fromValue floats v

/-! ## Fields -/

section Fields

variable {floats : Floats} {d : PyDict} {key : String} {v : PyValue}

theorem mapM_eq_ok {ε α β : Type} {f : α → Except ε β} {l : List α} {r : List β} :
    l.mapM f = .ok r ↔ List.Forall₂ (fun a b => f a = .ok b) l r := by
  induction l generalizing r with
  | nil =>
    rw [List.mapM_nil, List.forall₂_nil_left_iff]
    exact ⟨fun h => (Except.ok.inj h).symm, fun h => congrArg Except.ok h.symm⟩
  | cons a l ih =>
    rw [List.mapM_cons, List.forall₂_cons_left_iff]
    constructor
    · intro h
      obtain ⟨b, hb, hrest⟩ := bind_eq_ok.mp h
      obtain ⟨bs, hbs, hr⟩ := bind_eq_ok.mp hrest
      exact ⟨b, bs, hb, ih.mp hbs, (Except.ok.inj hr).symm⟩
    · rintro ⟨b, bs, hb, hbs, rfl⟩
      exact bind_eq_ok.mpr ⟨b, hb, bind_eq_ok.mpr ⟨bs, ih.mpr hbs, rfl⟩⟩

/-- Where every element is read back, so is the list. -/
theorem mapM_map {ε α β γ : Type} {f : β → Except ε γ} {g : α → β} {k : α → γ} {l : List α}
    (h : ∀ a ∈ l, f (g a) = .ok (k a)) : (l.map g).mapM f = .ok (l.map k) := by
  rw [mapM_eq_ok, List.forall₂_map_left_iff, List.forall₂_map_right_iff, List.forall₂_same]
  exact h

/-- What a list was read from. -/
theorem eq_map_of_mapM {ε α β : Type} {f : β → Except ε α} {g : α → β} {bs : List β} {l : List α}
    (hf : ∀ b a, f b = .ok a → b = g a) (h : bs.mapM f = .ok l) : bs = l.map g := by
  have hall := mapM_eq_ok.mp h
  clear h
  induction hall with
  | nil => rfl
  | cons hb _ ih => rw [List.map_cons, ← ih, ← hf _ _ hb]

theorem exists_of_mapM {ε α β : Type} {f : α → Except ε β} {l : List α} {r : List β} {b : β}
    (h : l.mapM f = .ok r) (hb : b ∈ r) : ∃ a ∈ l, f a = .ok b := by
  have hall := mapM_eq_ok.mp h
  clear h
  induction hall with
  | nil => cases hb
  | @cons a c l r hc _ ih =>
    rcases List.mem_cons.mp hb with rfl | hb
    · exact ⟨a, List.mem_cons_self, hc⟩
    · obtain ⟨a', ha', hb'⟩ := ih hb
      exact ⟨a', List.mem_cons_of_mem a ha', hb'⟩

theorem get_of_lookup (h : d.lookup (py key) = some v) (default : PyValue) :
    get d key default = v := by
  rw [get, h, Option.getD_some]

theorem asField_eq_ok {α : Type} {what : String} {default : PyValue} {read : PyValue → Option α}
    {a : α} : asField what default read d key = .ok a ↔ read (get d key default) = some a := by
  rw [asField]
  cases read (get d key default) with
  | none => exact iff_of_false (fun h => (nomatch h)) (fun h => (nomatch h))
  | some b => exact ⟨fun h => congrArg some (Except.ok.inj h),
      fun h => congrArg Except.ok (Option.some.inj h)⟩

theorem asField_of_lookup {α : Type} {what : String} {default : PyValue}
    {read : PyValue → Option α} {a : α} (h : d.lookup (py key) = some v) (hread : read v = some a) :
    asField what default read d key = .ok a := by
  rw [asField_eq_ok, get_of_lookup h, hread]

theorem asStr_of_lookup {s : PyStr} (h : d.lookup (py key) = some (.str s)) :
    asStr d key = .ok s := asField_of_lookup h rfl

theorem asInt_of_lookup {n : ℤ} (h : d.lookup (py key) = some (.int n)) :
    asInt d key = .ok n := asField_of_lookup h rfl

theorem asBool_of_lookup {b : Bool} (h : d.lookup (py key) = some (.bool b)) :
    asBool d key = .ok b := asField_of_lookup h rfl

theorem asOptionalStr_of_lookup {o : Option PyStr}
    (h : d.lookup (py key) = some (optional .str o)) : asOptionalStr d key = .ok o := by
  cases o with
  | none => exact asField_of_lookup h rfl
  | some s => exact asField_of_lookup h rfl

theorem asOptionalInt_of_lookup {o : Option ℤ}
    (h : d.lookup (py key) = some (optional .int o)) : asOptionalInt d key = .ok o := by
  cases o with
  | none => exact asField_of_lookup h rfl
  | some n => exact asField_of_lookup h rfl

theorem asFloat_of_lookup {x : PyFloat} (h : d.lookup (py key) = some (.float x)) :
    asFloat floats d key = .ok x :=
  bind_eq_ok.mpr ⟨.ok x, asField_of_lookup h rfl, rfl⟩

theorem asOptionalFloat_of_lookup {o : Option PyFloat}
    (h : d.lookup (py key) = some (optional .float o)) : asOptionalFloat floats d key = .ok o := by
  cases o with
  | none => exact bind_eq_ok.mpr ⟨.ok none, asField_of_lookup h rfl, rfl⟩
  | some x => exact bind_eq_ok.mpr ⟨.ok (some x), asField_of_lookup h rfl, rfl⟩

theorem asStrIntDict_of_lookup {l : List (PyStr × ℤ)}
    (h : d.lookup (py key) = some (.dict (l.map fun p => (p.1, .int p.2)))) :
    asStrIntDict d key = .ok l := by
  refine bind_eq_ok.mpr ⟨_, asField_of_lookup h rfl, ?_⟩
  refine (mapM_map (k := id) ?_).trans (congrArg Except.ok (List.map_id l))
  exact fun _ _ => rfl

theorem asStrTuple_of_lookup {l : List PyStr} (h : d.lookup (py key) = some (strs l)) :
    asStrTuple d key = .ok l := by
  refine bind_eq_ok.mpr ⟨_, asField_of_lookup h rfl, ?_⟩
  refine (mapM_map (k := id) ?_).trans (congrArg Except.ok (List.map_id l))
  exact fun _ _ => rfl

theorem asDictList_of_lookup {rs : List PyDict}
    (h : d.lookup (py key) = some (.list (rs.map .dict))) : asDictList d key = .ok rs := by
  refine bind_eq_ok.mpr ⟨_, asField_of_lookup h rfl, ?_⟩
  refine (mapM_map (k := id) ?_).trans (congrArg Except.ok (List.map_id rs))
  exact fun _ _ => rfl

end Fields

/-! ## Records -/

/-- A dict with its keys in order. -/
def sortDict (d : PyDict) : PyDict := sortItems (sortKeysIn d)

section Records

variable {floats : Floats} {fields : List (String × PyValue)}

theorem py_injective : Function.Injective py := by
  intro s t h
  have hinj : Function.Injective PyChar.scalar := fun _ _ => PyChar.scalar.inj
  exact String.toList_inj.mp (List.map_injective_iff.mpr hinj h)

theorem joined_py (s : String) : Joined (py s) := by
  rw [PyJson.Joined, py, List.isChain_map]
  exact (List.pairwise_of_forall fun c _ h => PyChar.not_isHigh_scalar c h.1).isChain

theorem keys_record (fields : List (String × PyValue)) :
    (record fields).map Prod.fst = (fields.map Prod.fst).map py := by
  rw [record, List.map_map, List.map_map]
  rfl

theorem mem_iff_lookup {d : PyDict} {k : PyStr} {v : PyValue} (h : (d.map Prod.fst).Nodup) :
    (k, v) ∈ d ↔ d.lookup k = some v := by
  rw [lawful_beq_subsingleton List.instBEq instBEqOfDecidableEq]
  exact Dict.mem_iff_lookup h

theorem nodup_keys_record (h : (fields.map Prod.fst).Nodup) :
    ((record fields).map Prod.fst).Nodup := by
  rw [keys_record]
  exact h.map py_injective

theorem lookup_record (h : (fields.map Prod.fst).Nodup) :
    ∀ p ∈ fields, (sortDict (record fields)).lookup (py p.1) = some (sortKeys p.2) := by
  intro p hp
  rw [sortDict, ← mem_iff_lookup (nodup_keys_sorted (nodup_keys_record h)), mem_sortKeysIn]
  exact ⟨(py p.1, p.2), List.mem_map_of_mem hp, rfl⟩

theorem readable_record (h : (fields.map Prod.fst).Nodup)
    (hfields : ∀ p ∈ fields, Readable floats p.2) : Readable floats (.dict (record fields)) := by
  refine .dict (nodup_keys_record h) (fun p hp => ?_) (fun p hp => ?_)
  · obtain ⟨q, -, rfl⟩ := List.mem_map.mp hp
    exact joined_py q.1
  · obtain ⟨q, hq, rfl⟩ := List.mem_map.mp hp
    exact hfields q hq

theorem SimhashArtifactEntry.nodup_names (e : SimhashArtifactEntry) :
    (e.fields.map Prod.fst).Nodup := by
  simp [SimhashArtifactEntry.fields]

theorem RecipeArtifactEntry.nodup_names (e : RecipeArtifactEntry) :
    (e.fields.map Prod.fst).Nodup := by
  simp [RecipeArtifactEntry.fields]

theorem VerifierArtifactEntry.nodup_names (e : VerifierArtifactEntry) :
    (e.fields.map Prod.fst).Nodup := by
  simp [VerifierArtifactEntry.fields]

theorem CalibrationArtifact.nodup_names (a : CalibrationArtifact) :
    (a.fields.map Prod.fst).Nodup := by
  simp [CalibrationArtifact.fields]

end Records

/-! ## What was written is read -/

/-- The axes with their keys in order. -/
def RecipeArtifactEntry.sorted (e : RecipeArtifactEntry) : RecipeArtifactEntry :=
  { e with axes := e.axes.map sortDict }

/-- The artifact with the keys of its dicts in order. -/
def CalibrationArtifact.sorted (a : CalibrationArtifact) : CalibrationArtifact :=
  { a with
    labelCounts := sortItems a.labelCounts
    recipes := a.recipes.map RecipeArtifactEntry.sorted }

/-- Equality, where the order of the items of a dict does not count. -/
def CalibrationArtifact.Equal (a b : CalibrationArtifact) : Prop := a.sorted = b.sorted

section RoundTrip

variable {floats : Floats} {r : PyDict}

theorem sortKeys_optional {α : Type} {f : α → PyValue} (hf : ∀ a, sortKeys (f a) = f a)
    (o : Option α) : sortKeys (optional f o) = optional f o := by
  cases o with
  | none => rfl
  | some a => exact hf a

theorem sortKeys_strs (l : List PyStr) : sortKeys (strs l) = strs l := by
  rw [strs, sortKeys, sortKeysAll_eq_map, List.map_map]
  rfl

theorem sortKeys_dicts (ds : List PyDict) :
    sortKeys (.list (ds.map .dict)) = .list ((ds.map sortDict).map .dict) := by
  rw [sortKeys, sortKeysAll_eq_map, List.map_map, List.map_map]
  rfl

theorem sortKeys_labelCounts (l : List (PyStr × ℤ)) :
    sortKeys (.dict (l.map fun p => (p.1, .int p.2))) =
      .dict ((sortItems l).map fun p => (p.1, .int p.2)) := by
  rw [sortKeys, sortKeysIn_eq_map, List.map_map, sortItems, sortItems]
  exact congrArg PyValue.dict (List.map_insertionSort keyLe keyLe
    (fun p : PyStr × ℤ => (p.1, PyValue.int p.2)) l fun _ _ _ _ => Iff.rfl).symm

theorem coerceSimhash_of_lookup (floats : Floats) {e : SimhashArtifactEntry}
    (h : ∀ p ∈ e.fields, r.lookup (py p.1) = some (sortKeys p.2)) :
    coerceSimhash floats r = .ok e := by
  simp only [SimhashArtifactEntry.fields, List.forall_mem_cons] at h
  obtain ⟨hprimitive, hlanguage, henabled, hactorsFired, hwithinCount, hwithinMin, hwithinP50,
    hwithinMax, hcrossCount, hcrossMin, hcrossP50, hcrossMax, hauc, hstrategy, hchosenThreshold,
    hchosenPrecision, hchosenRecall, hchosenF1, hf1MaxThreshold, hf1MaxF1, -⟩ := h
  rw [sortKeys_optional fun _ => rfl] at hlanguage hchosenThreshold
  rw [coerceSimhash, asStr_of_lookup hprimitive, asOptionalStr_of_lookup hlanguage,
    asBool_of_lookup henabled, asInt_of_lookup hactorsFired, asInt_of_lookup hwithinCount,
    asInt_of_lookup hwithinMin, asInt_of_lookup hwithinP50, asInt_of_lookup hwithinMax,
    asInt_of_lookup hcrossCount, asInt_of_lookup hcrossMin, asInt_of_lookup hcrossP50,
    asInt_of_lookup hcrossMax, asFloat_of_lookup hauc, asStr_of_lookup hstrategy,
    asOptionalInt_of_lookup hchosenThreshold, asFloat_of_lookup hchosenPrecision,
    asFloat_of_lookup hchosenRecall, asFloat_of_lookup hchosenF1, asInt_of_lookup hf1MaxThreshold,
    asFloat_of_lookup hf1MaxF1]
  rfl

theorem coerceVerifier_of_lookup (floats : Floats) {e : VerifierArtifactEntry}
    (h : ∀ p ∈ e.fields, r.lookup (py p.1) = some (sortKeys p.2)) :
    coerceVerifier floats r = .ok e := by
  simp only [VerifierArtifactEntry.fields, List.forall_mem_cons] at h
  obtain ⟨hverifier, hlanguage, henabled, hactorsEvaluated, hwithinCount, hwithinMin, hwithinP50,
    hwithinMax, hcrossCount, hcrossMin, hcrossP50, hcrossMax, hauc, hstrategy, hchosenThreshold,
    hchosenPrecision, hchosenRecall, hchosenF1, hf1MaxThreshold, hf1MaxF1, -⟩ := h
  rw [sortKeys_optional fun _ => rfl] at hlanguage hchosenThreshold
  rw [coerceVerifier, asStr_of_lookup hverifier, asOptionalStr_of_lookup hlanguage,
    asBool_of_lookup henabled, asInt_of_lookup hactorsEvaluated, asInt_of_lookup hwithinCount,
    asFloat_of_lookup hwithinMin, asFloat_of_lookup hwithinP50, asFloat_of_lookup hwithinMax,
    asInt_of_lookup hcrossCount, asFloat_of_lookup hcrossMin, asFloat_of_lookup hcrossP50,
    asFloat_of_lookup hcrossMax, asFloat_of_lookup hauc, asStr_of_lookup hstrategy,
    asOptionalFloat_of_lookup hchosenThreshold, asFloat_of_lookup hchosenPrecision,
    asFloat_of_lookup hchosenRecall, asFloat_of_lookup hchosenF1,
    asFloat_of_lookup hf1MaxThreshold, asFloat_of_lookup hf1MaxF1]
  rfl

theorem coerceRecipe_of_lookup (floats : Floats) {e : RecipeArtifactEntry}
    (h : ∀ p ∈ e.fields, r.lookup (py p.1) = some (sortKeys p.2)) :
    coerceRecipe floats r = .ok e.sorted := by
  simp only [RecipeArtifactEntry.fields, List.forall_mem_cons] at h
  obtain ⟨hname, hversion, hpositiveLabel, hstrategy, haxes, hgroupsCount, htp, hfp, htn, hfn,
    hprecision, hrecall, hf1, hnotes, -⟩ := h
  rw [sortKeys_dicts] at haxes
  rw [sortKeys_strs] at hnotes
  rw [coerceRecipe, asStr_of_lookup hname, asStr_of_lookup hversion,
    asStr_of_lookup hpositiveLabel, asStr_of_lookup hstrategy, asDictList_of_lookup haxes,
    asInt_of_lookup hgroupsCount, asInt_of_lookup htp, asInt_of_lookup hfp, asInt_of_lookup htn,
    asInt_of_lookup hfn, asFloat_of_lookup hprecision, asFloat_of_lookup hrecall,
    asFloat_of_lookup hf1, asStrTuple_of_lookup hnotes]
  rfl

/-- The rows of a table are read back, row by row. -/
theorem rows_of_lookup {α : Type} {fields : α → List (String × PyValue)} (sorted : α → α)
    {coerce : PyDict → Except ArtifactError α} {rows : List α} {key : String}
    (hnames : ∀ e, ((fields e).map Prod.fst).Nodup)
    (hcoerce : ∀ {r e}, (∀ p ∈ fields e, r.lookup (py p.1) = some (sortKeys p.2)) →
      coerce r = .ok (sorted e))
    (h : r.lookup (py key) =
      some (sortKeys (.list (rows.map fun e => .dict (record (fields e)))))) :
    ((asDictList r key).bind fun rs => rs.mapM coerce) = .ok (rows.map sorted) := by
  have hrows : sortKeys (.list (rows.map fun e => .dict (record (fields e)))) =
      .list ((rows.map fun e => sortDict (record (fields e))).map .dict) := by
    have hdicts := sortKeys_dicts (rows.map fun e => record (fields e))
    rwa [List.map_map, List.map_map (g := sortDict)] at hdicts
  rw [hrows] at h
  refine bind_eq_ok.mpr ⟨_, asDictList_of_lookup h, mapM_map fun e _ => ?_⟩
  exact hcoerce (lookup_record (hnames e))

/-- **The fields of an artifact are read back.** -/
theorem fromDict_of_lookup {a : CalibrationArtifact} {d : PyDict}
    (h : ∀ p ∈ a.fields, d.lookup (py p.1) = some (sortKeys p.2)) :
    fromDict floats d = .ok a.sorted := by
  simp only [CalibrationArtifact.fields, List.forall_mem_cons] at h
  obtain ⟨hschemaVersion, hcorpusId, hcorpusSha256, heyenetVersion, hbehaveTextVersion,
    hgeneratedAt, hactorCountTotal, hactorCountSimhashQualifying, hminMessages, hlabeler,
    hlabelCounts, hsimhash, hrecipes, hverifiers, hnotes, -⟩ := h
  rw [sortKeys_labelCounts] at hlabelCounts
  rw [sortKeys_strs] at hnotes
  have hsimhash := rows_of_lookup id SimhashArtifactEntry.nodup_names
    (coerceSimhash_of_lookup floats) hsimhash
  have hrecipes := rows_of_lookup RecipeArtifactEntry.sorted RecipeArtifactEntry.nodup_names
    (coerceRecipe_of_lookup floats) hrecipes
  have hverifiers := rows_of_lookup id VerifierArtifactEntry.nodup_names
    (coerceVerifier_of_lookup floats) hverifiers
  rw [List.map_id] at hsimhash hverifiers
  rw [fromDict, asStr_of_lookup hschemaVersion, asStr_of_lookup hcorpusId,
    asStr_of_lookup hcorpusSha256, asStr_of_lookup heyenetVersion,
    asStr_of_lookup hbehaveTextVersion, asStr_of_lookup hgeneratedAt,
    asInt_of_lookup hactorCountTotal, asInt_of_lookup hactorCountSimhashQualifying,
    asInt_of_lookup hminMessages, asStr_of_lookup hlabeler, asStrIntDict_of_lookup hlabelCounts,
    hsimhash, hrecipes, hverifiers, asStrTuple_of_lookup hnotes]
  rfl

end RoundTrip

/-! ## What is read can be written -/

section Readable

variable {floats : Floats} {d : PyDict} {key : String}

theorem readable_get (key : String) (hd : Readable floats (.dict d)) {default : PyValue}
    (hdefault : Readable floats default) : Readable floats (get d key default) := by
  rw [get]
  cases hlookup : d.lookup (py key) with
  | none => exact hdefault
  | some v =>
    obtain ⟨l₁, l₂, hl, -⟩ := List.lookup_eq_some_iff.mp hlookup
    exact hd.of_mem_dict (hl ▸ List.mem_append_right l₁ List.mem_cons_self)

/-- A field is read off a value that can be written. -/
theorem asField_readable {α : Type} {what : String} {default : PyValue}
    {read : PyValue → Option α} {a : α} (hd : Readable floats (.dict d))
    (hdefault : Readable floats default) (h : asField what default read d key = .ok a) :
    ∃ v, Readable floats v ∧ read v = some a :=
  ⟨get d key default, readable_get key hd hdefault, asField_eq_ok.mp h⟩

theorem asStr_readable (hd : Readable floats (.dict d)) {s : PyStr} (h : asStr d key = .ok s) :
    Readable floats (.str s) := by
  obtain ⟨v, hv, hread⟩ := asField_readable hd .none h
  split at hread
  · obtain rfl := Option.some.inj hread
    exact hv
  · cases hread

theorem asOptionalStr_readable (hd : Readable floats (.dict d)) {o : Option PyStr}
    (h : asOptionalStr d key = .ok o) : Readable floats (optional .str o) := by
  obtain ⟨v, hv, hread⟩ := asField_readable hd .none h
  split at hread
  · obtain rfl := Option.some.inj hread
    exact .none
  · obtain rfl := Option.some.inj hread
    exact hv
  · cases hread

theorem readable_optional_int (o : Option ℤ) : Readable floats (optional .int o) := by
  cases o with
  | none => exact .none
  | some n => exact .int n

theorem readable_ofInt {n : ℤ} {x : PyFloat} (h : ofInt floats n = .ok x) :
    Readable floats (.float x) := by
  rw [ofInt] at h
  split at h
  · next x' hx =>
    obtain rfl := Except.ok.inj h
    exact .float (floats.ofInt_repr n x' hx)
  · cases h

theorem asFloat_readable (hd : Readable floats (.dict d)) {x : PyFloat}
    (h : asFloat floats d key = .ok x) : Readable floats (.float x) := by
  obtain ⟨y, hy, hx⟩ := bind_eq_ok.mp h
  obtain ⟨v, hv, hread⟩ := asField_readable hd .none hy
  split at hread
  · obtain rfl := Option.some.inj hread
    obtain rfl := Except.ok.inj hx
    exact hv
  · obtain rfl := Option.some.inj hread
    exact readable_ofInt hx
  · cases hread

theorem asOptionalFloat_readable (hd : Readable floats (.dict d)) {o : Option PyFloat}
    (h : asOptionalFloat floats d key = .ok o) : Readable floats (optional .float o) := by
  obtain ⟨y, hy, ho⟩ := bind_eq_ok.mp h
  obtain ⟨v, hv, hread⟩ := asField_readable hd .none hy
  split at hread
  · obtain rfl := Option.some.inj hread
    obtain rfl := Except.ok.inj ho
    exact .none
  · obtain rfl := Option.some.inj hread
    obtain rfl := Except.ok.inj ho
    exact hv
  · obtain rfl := Option.some.inj hread
    obtain ⟨x, hx, rfl⟩ := map_eq_ok.mp ho
    exact readable_ofInt hx
  · cases hread

theorem readable_nil (floats : Floats) : Readable floats (.list []) :=
  .list fun _ hx => absurd hx List.not_mem_nil

theorem readable_empty (floats : Floats) : Readable floats (.dict []) :=
  .dict List.nodup_nil (fun _ hp => absurd hp List.not_mem_nil)
    fun _ hp => absurd hp List.not_mem_nil

theorem asStrTuple_readable (hd : Readable floats (.dict d)) {l : List PyStr}
    (h : asStrTuple d key = .ok l) : Readable floats (strs l) := by
  obtain ⟨items, hitems, hl⟩ := bind_eq_ok.mp h
  obtain ⟨v, hv, hread⟩ := asField_readable hd (readable_nil floats) hitems
  have heq : items = l.map .str := by
    refine eq_map_of_mapM (fun item s hitem => ?_) hl
    split at hitem
    · rw [Except.ok.inj hitem]
    · cases hitem
  split at hread
  · obtain rfl := Option.some.inj hread
    rw [heq] at hv
    exact hv
  · cases hread

theorem asDictList_readable (hd : Readable floats (.dict d)) {rs : List PyDict}
    (h : asDictList d key = .ok rs) : Readable floats (.list (rs.map .dict)) := by
  obtain ⟨items, hitems, hrs⟩ := bind_eq_ok.mp h
  obtain ⟨v, hv, hread⟩ := asField_readable hd (readable_nil floats) hitems
  have heq : items = rs.map .dict := by
    refine eq_map_of_mapM (fun item r hitem => ?_) hrs
    split at hitem
    · rw [Except.ok.inj hitem]
    · cases hitem
  split at hread
  · obtain rfl := Option.some.inj hread
    rw [heq] at hv
    exact hv
  · cases hread

theorem asStrIntDict_readable (hd : Readable floats (.dict d)) {l : List (PyStr × ℤ)}
    (h : asStrIntDict d key = .ok l) :
    Readable floats (.dict (l.map fun p => (p.1, .int p.2))) := by
  obtain ⟨items, hitems, hl⟩ := bind_eq_ok.mp h
  obtain ⟨v, hv, hread⟩ := asField_readable hd (readable_empty floats) hitems
  have heq : items = l.map fun p => (p.1, .int p.2) := by
    refine eq_map_of_mapM (fun item p hitem => ?_) hl
    obtain ⟨k, v⟩ := item
    split at hitem
    · next n hn =>
      obtain rfl := Except.ok.inj hitem
      exact Prod.ext rfl hn
    · cases hitem
  split at hread
  · obtain rfl := Option.some.inj hread
    rw [heq] at hv
    exact hv
  · cases hread

theorem coerceSimhash_readable {e : SimhashArtifactEntry} (hd : Readable floats (.dict d))
    (h : coerceSimhash floats d = .ok e) : Readable floats (.dict (record e.fields)) := by
  obtain ⟨primitive, hprimitive, h⟩ := bind_eq_ok.mp h
  obtain ⟨language, hlanguage, h⟩ := bind_eq_ok.mp h
  obtain ⟨enabled, -, h⟩ := bind_eq_ok.mp h
  obtain ⟨actorsFired, -, h⟩ := bind_eq_ok.mp h
  obtain ⟨withinCount, -, h⟩ := bind_eq_ok.mp h
  obtain ⟨withinMin, -, h⟩ := bind_eq_ok.mp h
  obtain ⟨withinP50, -, h⟩ := bind_eq_ok.mp h
  obtain ⟨withinMax, -, h⟩ := bind_eq_ok.mp h
  obtain ⟨crossCount, -, h⟩ := bind_eq_ok.mp h
  obtain ⟨crossMin, -, h⟩ := bind_eq_ok.mp h
  obtain ⟨crossP50, -, h⟩ := bind_eq_ok.mp h
  obtain ⟨crossMax, -, h⟩ := bind_eq_ok.mp h
  obtain ⟨auc, hauc, h⟩ := bind_eq_ok.mp h
  obtain ⟨strategy, hstrategy, h⟩ := bind_eq_ok.mp h
  obtain ⟨chosenThreshold, -, h⟩ := bind_eq_ok.mp h
  obtain ⟨chosenPrecision, hchosenPrecision, h⟩ := bind_eq_ok.mp h
  obtain ⟨chosenRecall, hchosenRecall, h⟩ := bind_eq_ok.mp h
  obtain ⟨chosenF1, hchosenF1, h⟩ := bind_eq_ok.mp h
  obtain ⟨f1MaxThreshold, -, h⟩ := bind_eq_ok.mp h
  obtain ⟨f1MaxF1, hf1MaxF1, h⟩ := bind_eq_ok.mp h
  obtain rfl := Except.ok.inj h
  refine readable_record (SimhashArtifactEntry.nodup_names _) ?_
  simp only [SimhashArtifactEntry.fields, List.forall_mem_cons]
  exact ⟨asStr_readable hd hprimitive, asOptionalStr_readable hd hlanguage, .bool _, .int _, .int _,
    .int _, .int _, .int _, .int _, .int _, .int _, .int _, asFloat_readable hd hauc,
    asStr_readable hd hstrategy, readable_optional_int _, asFloat_readable hd hchosenPrecision,
    asFloat_readable hd hchosenRecall, asFloat_readable hd hchosenF1, .int _,
    asFloat_readable hd hf1MaxF1, by simp⟩

theorem coerceVerifier_readable {e : VerifierArtifactEntry} (hd : Readable floats (.dict d))
    (h : coerceVerifier floats d = .ok e) : Readable floats (.dict (record e.fields)) := by
  obtain ⟨verifier, hverifier, h⟩ := bind_eq_ok.mp h
  obtain ⟨language, hlanguage, h⟩ := bind_eq_ok.mp h
  obtain ⟨enabled, -, h⟩ := bind_eq_ok.mp h
  obtain ⟨actorsEvaluated, -, h⟩ := bind_eq_ok.mp h
  obtain ⟨withinCount, -, h⟩ := bind_eq_ok.mp h
  obtain ⟨withinMin, hwithinMin, h⟩ := bind_eq_ok.mp h
  obtain ⟨withinP50, hwithinP50, h⟩ := bind_eq_ok.mp h
  obtain ⟨withinMax, hwithinMax, h⟩ := bind_eq_ok.mp h
  obtain ⟨crossCount, -, h⟩ := bind_eq_ok.mp h
  obtain ⟨crossMin, hcrossMin, h⟩ := bind_eq_ok.mp h
  obtain ⟨crossP50, hcrossP50, h⟩ := bind_eq_ok.mp h
  obtain ⟨crossMax, hcrossMax, h⟩ := bind_eq_ok.mp h
  obtain ⟨auc, hauc, h⟩ := bind_eq_ok.mp h
  obtain ⟨strategy, hstrategy, h⟩ := bind_eq_ok.mp h
  obtain ⟨chosenThreshold, hchosenThreshold, h⟩ := bind_eq_ok.mp h
  obtain ⟨chosenPrecision, hchosenPrecision, h⟩ := bind_eq_ok.mp h
  obtain ⟨chosenRecall, hchosenRecall, h⟩ := bind_eq_ok.mp h
  obtain ⟨chosenF1, hchosenF1, h⟩ := bind_eq_ok.mp h
  obtain ⟨f1MaxThreshold, hf1MaxThreshold, h⟩ := bind_eq_ok.mp h
  obtain ⟨f1MaxF1, hf1MaxF1, h⟩ := bind_eq_ok.mp h
  obtain rfl := Except.ok.inj h
  refine readable_record (VerifierArtifactEntry.nodup_names _) ?_
  simp only [VerifierArtifactEntry.fields, List.forall_mem_cons]
  exact ⟨asStr_readable hd hverifier, asOptionalStr_readable hd hlanguage, .bool _, .int _, .int _,
    asFloat_readable hd hwithinMin, asFloat_readable hd hwithinP50,
    asFloat_readable hd hwithinMax, .int _, asFloat_readable hd hcrossMin,
    asFloat_readable hd hcrossP50, asFloat_readable hd hcrossMax, asFloat_readable hd hauc,
    asStr_readable hd hstrategy, asOptionalFloat_readable hd hchosenThreshold,
    asFloat_readable hd hchosenPrecision, asFloat_readable hd hchosenRecall,
    asFloat_readable hd hchosenF1, asFloat_readable hd hf1MaxThreshold,
    asFloat_readable hd hf1MaxF1, by simp⟩

theorem coerceRecipe_readable {e : RecipeArtifactEntry} (hd : Readable floats (.dict d))
    (h : coerceRecipe floats d = .ok e) : Readable floats (.dict (record e.fields)) := by
  obtain ⟨name, hname, h⟩ := bind_eq_ok.mp h
  obtain ⟨version, hversion, h⟩ := bind_eq_ok.mp h
  obtain ⟨positiveLabel, hpositiveLabel, h⟩ := bind_eq_ok.mp h
  obtain ⟨strategy, hstrategy, h⟩ := bind_eq_ok.mp h
  obtain ⟨axes, haxes, h⟩ := bind_eq_ok.mp h
  obtain ⟨groupsCount, -, h⟩ := bind_eq_ok.mp h
  obtain ⟨tp, -, h⟩ := bind_eq_ok.mp h
  obtain ⟨fp, -, h⟩ := bind_eq_ok.mp h
  obtain ⟨tn, -, h⟩ := bind_eq_ok.mp h
  obtain ⟨fn, -, h⟩ := bind_eq_ok.mp h
  obtain ⟨precision, hprecision, h⟩ := bind_eq_ok.mp h
  obtain ⟨«recall», hrecall, h⟩ := bind_eq_ok.mp h
  obtain ⟨f1, hf1, h⟩ := bind_eq_ok.mp h
  obtain ⟨notes, hnotes, h⟩ := bind_eq_ok.mp h
  obtain rfl := Except.ok.inj h
  refine readable_record (RecipeArtifactEntry.nodup_names _) ?_
  simp only [RecipeArtifactEntry.fields, List.forall_mem_cons]
  exact ⟨asStr_readable hd hname, asStr_readable hd hversion, asStr_readable hd hpositiveLabel,
    asStr_readable hd hstrategy, asDictList_readable hd haxes, .int _, .int _, .int _, .int _,
    .int _, asFloat_readable hd hprecision, asFloat_readable hd hrecall, asFloat_readable hd hf1,
    asStrTuple_readable hd hnotes, by simp⟩

/-- The rows of a table can be written. -/
theorem rows_readable {α : Type} {fields : α → List (String × PyValue)}
    {coerce : PyDict → Except ArtifactError α} {rows : List α}
    (hcoerce : ∀ {r e}, Readable floats (.dict r) → coerce r = .ok e →
      Readable floats (.dict (record (fields e)))) (hd : Readable floats (.dict d))
    (h : ((asDictList d key).bind fun rs => rs.mapM coerce) = .ok rows) :
    Readable floats (.list (rows.map fun e => .dict (record (fields e)))) := by
  obtain ⟨rs, hrs, hrows⟩ := bind_eq_ok.mp h
  have hdicts := asDictList_readable hd hrs
  refine .list fun v hv => ?_
  obtain ⟨e, he, rfl⟩ := List.mem_map.mp hv
  obtain ⟨r, hr, hre⟩ := exists_of_mapM hrows he
  exact hcoerce (hdicts.of_mem_list (List.mem_map_of_mem hr)) hre

theorem fromDict_readable (hd : Readable floats (.dict d)) {a : CalibrationArtifact}
    (h : fromDict floats d = .ok a) : Readable floats (.dict a.toCanonicalDict) := by
  obtain ⟨schemaVersion, hschemaVersion, h⟩ := bind_eq_ok.mp h
  obtain ⟨corpusId, hcorpusId, h⟩ := bind_eq_ok.mp h
  obtain ⟨corpusSha256, hcorpusSha256, h⟩ := bind_eq_ok.mp h
  obtain ⟨eyenetVersion, heyenetVersion, h⟩ := bind_eq_ok.mp h
  obtain ⟨behaveTextVersion, hbehaveTextVersion, h⟩ := bind_eq_ok.mp h
  obtain ⟨generatedAt, hgeneratedAt, h⟩ := bind_eq_ok.mp h
  obtain ⟨actorCountTotal, -, h⟩ := bind_eq_ok.mp h
  obtain ⟨actorCountSimhashQualifying, -, h⟩ := bind_eq_ok.mp h
  obtain ⟨minMessages, -, h⟩ := bind_eq_ok.mp h
  obtain ⟨labeler, hlabeler, h⟩ := bind_eq_ok.mp h
  obtain ⟨labelCounts, hlabelCounts, h⟩ := bind_eq_ok.mp h
  obtain ⟨simhash, hsimhash, h⟩ := bind_eq_ok.mp h
  obtain ⟨recipes, hrecipes, h⟩ := bind_eq_ok.mp h
  obtain ⟨verifiers, hverifiers, h⟩ := bind_eq_ok.mp h
  obtain ⟨notes, hnotes, h⟩ := bind_eq_ok.mp h
  obtain rfl := Except.ok.inj h
  refine readable_record (CalibrationArtifact.nodup_names _) ?_
  simp only [CalibrationArtifact.fields, List.forall_mem_cons]
  exact ⟨asStr_readable hd hschemaVersion, asStr_readable hd hcorpusId,
    asStr_readable hd hcorpusSha256, asStr_readable hd heyenetVersion,
    asStr_readable hd hbehaveTextVersion, asStr_readable hd hgeneratedAt, .int _, .int _, .int _,
    asStr_readable hd hlabeler, asStrIntDict_readable hd hlabelCounts,
    rows_readable coerceSimhash_readable hd hsimhash,
    rows_readable coerceRecipe_readable hd hrecipes,
    rows_readable coerceVerifier_readable hd hverifiers, asStrTuple_readable hd hnotes, by simp⟩

end Readable

/-! ## Files -/

section Files

variable {sha256 : String → String} {floats : Floats} {a b : CalibrationArtifact}

theorem readable_field {fields : List (String × PyValue)} {p : String × PyValue}
    (h : Readable floats (.dict (record fields))) (hp : p ∈ fields) : Readable floats p.2 :=
  Readable.of_mem_dict (p := (py p.1, p.2)) h (List.mem_map_of_mem hp)

theorem sortDict_sortDict {d : PyDict} (h : Readable floats (.dict d)) :
    sortDict (sortDict d) = sortDict d := PyValue.dict.inj (sortKeys_sortKeys h)

theorem sortKeys_recipe {e : RecipeArtifactEntry} (h : Readable floats (.dict (record e.fields))) :
    sortKeys (.dict (record e.sorted.fields)) = sortKeys (.dict (record e.fields)) := by
  have haxes : sortKeys (.list (e.sorted.axes.map .dict)) =
      sortKeys (.list (e.axes.map .dict)) := by
    have hdicts : Readable floats (.list (e.axes.map .dict)) :=
      readable_field (p := ("axes", _)) h (by simp [RecipeArtifactEntry.fields])
    rw [sortKeys_dicts, sortKeys_dicts]
    refine congrArg (fun ds : List PyDict => PyValue.list (ds.map .dict)) ?_
    rw [RecipeArtifactEntry.sorted, List.map_map]
    refine List.map_congr_left fun d hd => ?_
    exact sortDict_sortDict (hdicts.of_mem_list (List.mem_map_of_mem hd))
  have hfields : sortKeysIn (record e.sorted.fields) = sortKeysIn (record e.fields) := by
    rw [sortKeysIn_eq_map, sortKeysIn_eq_map]
    simp only [record, RecipeArtifactEntry.fields, List.map_cons, List.map_nil, haxes]
    rfl
  rw [sortKeys, sortKeys, hfields]

/-- The order of the keys makes no difference to the text. -/
theorem sortKeys_sorted (h : Readable floats (.dict a.toCanonicalDict)) :
    sortKeys (.dict a.sorted.toCanonicalDict) = sortKeys (.dict a.toCanonicalDict) := by
  have hlabels : sortKeys (.dict (a.sorted.labelCounts.map fun p => (p.1, .int p.2))) =
      sortKeys (.dict (a.labelCounts.map fun p => (p.1, .int p.2))) := by
    rw [sortKeys_labelCounts, sortKeys_labelCounts, CalibrationArtifact.sorted,
      sortItems_sortItems]
  have hrecipes : sortKeys (.list (a.sorted.recipes.map fun e => .dict (record e.fields))) =
      sortKeys (.list (a.recipes.map fun e => .dict (record e.fields))) := by
    have hrows : Readable floats (.list (a.recipes.map fun e => .dict (record e.fields))) :=
      readable_field (p := ("recipes", _)) h (by simp [CalibrationArtifact.fields])
    rw [sortKeys, sortKeys, sortKeysAll_eq_map, sortKeysAll_eq_map, CalibrationArtifact.sorted,
      List.map_map, List.map_map, List.map_map]
    refine congrArg PyValue.list (List.map_congr_left fun e he => ?_)
    exact sortKeys_recipe (hrows.of_mem_list (List.mem_map_of_mem he))
  have hfields : sortKeysIn a.sorted.toCanonicalDict = sortKeysIn a.toCanonicalDict := by
    rw [sortKeysIn_eq_map, sortKeysIn_eq_map, CalibrationArtifact.toCanonicalDict,
      CalibrationArtifact.toCanonicalDict, record, record]
    simp only [CalibrationArtifact.fields, List.map_cons, List.map_nil, hlabels, hrecipes]
    rfl
  rw [sortKeys, sortKeys, hfields]

/-- What is in order has the fields of the artifact. -/
theorem fromDict_sorted (floats : Floats) (a : CalibrationArtifact) :
    fromDict floats (sortDict a.toCanonicalDict) = .ok a.sorted :=
  fromDict_of_lookup (lookup_record a.nodup_names)

theorem sorted_sorted (h : Readable floats (.dict a.toCanonicalDict)) :
    a.sorted.sorted = a.sorted := by
  have hfields := fromDict_sorted floats a.sorted
  rw [show sortDict a.sorted.toCanonicalDict = sortDict a.toCanonicalDict from
    PyValue.dict.inj (sortKeys_sorted h), fromDict_sorted] at hfields
  exact (Except.ok.inj hfields).symm

/-- **The hash determines the artifact**, up to the order of the items of a dict. -/
theorem computeSelfHash_inj (hsha : Function.Injective sha256)
    (ha : Readable floats (.dict a.toCanonicalDict))
    (hb : Readable floats (.dict b.toCanonicalDict)) :
    a.computeSelfHash sha256 = b.computeSelfHash sha256 ↔ a.Equal b := by
  constructor
  · intro hhash
    have hkeys := PyValue.dict.inj (dumps_injective ha hb (hsha hhash))
    have hfields : fromDict floats (sortDict a.toCanonicalDict) =
        fromDict floats (sortDict b.toCanonicalDict) := congrArg (fromDict floats) hkeys
    rw [fromDict_sorted, fromDict_sorted] at hfields
    exact Except.ok.inj hfields
  · intro hequal
    have hkeys := sortKeys_sorted ha
    rw [hequal, sortKeys_sorted hb] at hkeys
    rw [CalibrationArtifact.computeSelfHash, CalibrationArtifact.computeSelfHash, dumps, dumps,
      hkeys]

/-- The key of the hash is none of the fields. -/
theorem lookup_filter {d : PyDict} {k : PyStr} (h : k ≠ py "self_hash") :
    (d.filter fun p => p.1 ≠ py "self_hash").lookup k = d.lookup k := by
  induction d with
  | nil => rfl
  | cons p d ih =>
    by_cases hp : p.1 = py "self_hash"
    · have hk : (k == p.1) = false := by
        rw [beq_eq_false_iff_ne, hp]
        exact h
      rw [List.filter_cons_of_neg (by simp [hp]), ih, List.lookup_cons, hk]
    · rw [List.filter_cons_of_pos (by simp [hp]), List.lookup_cons, List.lookup_cons, ih]

/-- The file's dict: the fields, their hash, and keys that no field has. -/
def payload (a : CalibrationArtifact) (hash : String) (unknown : List (String × PyValue)) :
    List (String × PyValue) :=
  a.fields ++ ("self_hash", .str (py hash)) :: unknown

section Payload

variable {hash : String} {unknown : List (String × PyValue)}
  (ha : Readable floats (.dict a.toCanonicalDict))
  (hnames : ((payload a hash unknown).map Prod.fst).Nodup)
  (hunknown : ∀ p ∈ unknown, Readable floats p.2)

include ha hnames hunknown

theorem readable_payload : Readable floats (.dict (record (payload a hash unknown))) := by
  refine readable_record hnames fun p hp => ?_
  rcases List.mem_append.mp hp with hp | hp
  · exact readable_field ha hp
  · rcases List.mem_cons.mp hp with rfl | hp
    · exact .str (joined_py hash)
    · exact hunknown p hp

/-- What is decoded of the file. -/
theorem loads_payload :
    floats.loads (dumps (.indented 2) (.dict (record (payload a hash unknown))) ++ "\n") =
      .ok (.dict (sortDict (record (payload a hash unknown)))) :=
  loads_dumps _ (readable_payload ha hnames hunknown) (List.forall_mem_singleton.mpr (by decide))

/-- **Unknown keys are dropped.** -/
theorem load_payload :
    load floats (dumps (.indented 2) (.dict (record (payload a hash unknown))) ++ "\n") =
      .ok (a.sorted, py hash) := by
  have hlookup := lookup_record hnames
  have hstored : get (sortDict (record (payload a hash unknown))) "self_hash" (.str []) =
      .str (py hash) :=
    get_of_lookup (hlookup _ (List.mem_append_right _ List.mem_cons_self)) _
  have hfields : fromDict floats ((sortDict (record (payload a hash unknown))).filter
      fun p => p.1 ≠ py "self_hash") = .ok a.sorted := by
    refine fromDict_of_lookup fun p hp => ?_
    rw [lookup_filter]
    · exact hlookup p (List.mem_append_left _ hp)
    · intro hkey
      rw [payload, List.map_append, List.nodup_append] at hnames
      exact hnames.2.2 p.1 (List.mem_map_of_mem hp) "self_hash" List.mem_cons_self
        (py_injective hkey)
  rw [load, loads_payload ha hnames hunknown]
  change fromValue floats (.dict (sortDict _)) = _
  rw [fromValue, hstored, hfields]
  rfl

end Payload

theorem nodup_names_payload (a : CalibrationArtifact) (hash : String) :
    ((payload a hash []).map Prod.fst).Nodup := by
  simp [payload, CalibrationArtifact.fields]

theorem write_eq (a : CalibrationArtifact) : a.write sha256 =
    dumps (.indented 2) (.dict (record (payload a (a.computeSelfHash sha256) []))) ++ "\n" := by
  rw [CalibrationArtifact.write, payload, record, List.map_append]
  rfl

/-- **An artifact that was written is loaded**, and its hash is the stored one. -/
theorem load_write (ha : Readable floats (.dict a.toCanonicalDict)) :
    load floats (a.write sha256) = .ok (a.sorted, py (a.computeSelfHash sha256)) := by
  rw [write_eq]
  exact load_payload ha (nodup_names_payload a _) (by simp)

/-- What is loaded can be written. -/
theorem readable_of_fromValue {o : PyDict} {stored : PyStr} (ho : Readable floats (.dict o))
    (h : fromValue floats (.dict o) = .ok (b, stored)) :
    Readable floats (.dict b.toCanonicalDict) ∧
      ∀ s, o.lookup (py "self_hash") = some (.str s) → stored = s := by
  obtain ⟨b', hb', hpair⟩ := map_eq_ok.mp h
  obtain ⟨rfl, hstored⟩ := Prod.mk.inj hpair
  constructor
  · refine fromDict_readable (d := o.filter fun p => p.1 ≠ py "self_hash") ?_ hb'
    cases ho with
    | dict hkeys hjoined hvalues =>
      exact .dict (hkeys.sublist (List.filter_sublist.map _))
        (fun p hp => hjoined p (List.mem_of_mem_filter hp))
        fun p hp => hvalues p (List.mem_of_mem_filter hp)
  · intro s hs
    rw [get_of_lookup hs] at hstored
    exact hstored.symm

theorem computeSelfHash_sorted (h : Readable floats (.dict a.toCanonicalDict)) :
    a.sorted.computeSelfHash sha256 = a.computeSelfHash sha256 := by
  rw [CalibrationArtifact.computeSelfHash, CalibrationArtifact.computeSelfHash, dumps, dumps,
    sortKeys_sorted h]

/-- **A round trip keeps the artifact and its hash**, and of the files under this hash those that
pass are loaded as this artifact. -/
theorem artifact_lawful (hsha : Function.Injective sha256)
    (ha : Readable floats (.dict a.toCanonicalDict)) :
    (∃ b, load floats (a.write sha256) = .ok (b, py (b.computeSelfHash sha256)) ∧ b.Equal a) ∧
    ∀ file o b stored, floats.loads file = .ok (.dict o) →
      o.lookup (py "self_hash") = some (.str (py (a.computeSelfHash sha256))) →
      load floats file = .ok (b, stored) →
      (py (b.computeSelfHash sha256) = stored ↔ b.Equal a) := by
  constructor
  · refine ⟨a.sorted, ?_, sorted_sorted ha⟩
    rw [computeSelfHash_sorted ha, load_write ha]
  · intro file o b stored hfile hlookup hload
    rw [load, hfile] at hload
    obtain ⟨hb, hstored⟩ := readable_of_fromValue (readable_of_loads hfile) hload
    rw [hstored _ hlookup, ← computeSelfHash_inj hsha hb ha]
    exact ⟨fun h => py_injective h, congrArg py⟩

/-- Floats of which `1.0` is one. -/
def oneFloat : Floats where
  canon _ := py "1.0"
  ofInt n := if n = 1 then some (py "1.0") else none
  canon_repr _ := ⟨⟨"1.0".toList, rfl, Or.inr rfl⟩, rfl⟩
  ofInt_repr n literal h := by
    split_ifs at h
    obtain rfl := Option.some.inj h
    exact ⟨⟨"1.0".toList, rfl, Or.inr rfl⟩, rfl⟩

/-- An artifact of recipes. -/
def sample (corpusId : PyStr) (recipes : List RecipeArtifactEntry) : CalibrationArtifact :=
  { (default : CalibrationArtifact) with corpusId := corpusId, recipes := recipes }

theorem readable_sample {corpusId : PyStr} {recipes : List RecipeArtifactEntry}
    (hcorpusId : Joined corpusId)
    (hrecipes : ∀ e ∈ recipes, Readable oneFloat (.dict (record e.fields))) :
    Readable oneFloat (.dict (sample corpusId recipes).toCanonicalDict) := by
  refine readable_record (sample corpusId recipes).nodup_names ?_
  have hempty : Joined [] := List.isChain_nil
  simp only [CalibrationArtifact.fields, List.forall_mem_cons]
  refine ⟨.str hempty, .str hcorpusId, .str hempty, .str hempty, .str hempty, .str hempty, .int _,
    .int _, .int _, .str hempty, .dict List.nodup_nil ?_ ?_, .list ?_,
    .list (List.forall_mem_map.mpr hrecipes), .list ?_, .list ?_, ?_⟩
  all_goals exact fun p hp => absurd hp List.not_mem_nil

/-- A recipe of one axis. -/
def oneAxis : RecipeArtifactEntry :=
  { (default : RecipeArtifactEntry) with
    axes := [[(py "value", .float (py "1.0")), (py "op", .str (py ">="))]]
    precision := py "1.0"
    «recall» := py "1.0"
    f1 := py "1.0" }

theorem readable_oneAxis : Readable oneFloat (.dict (record oneAxis.fields)) := by
  have hempty : Joined [] := List.isChain_nil
  have hfloat : Readable oneFloat (.float (py "1.0")) := .float (oneFloat.canon_repr [])
  refine readable_record oneAxis.nodup_names ?_
  simp only [RecipeArtifactEntry.fields, List.forall_mem_cons]
  refine ⟨.str hempty, .str hempty, .str hempty, .str hempty, .list ?_, .int _, .int _, .int _,
    .int _, .int _, hfloat, hfloat, hfloat, .list ?_, ?_⟩
  · have haxis : Readable oneFloat (.dict (record [("value", .float (py "1.0")),
        ("op", .str (py ">="))])) := by
      refine readable_record (by decide) ?_
      simp only [List.forall_mem_cons]
      exact ⟨hfloat, .str (joined_py _), fun p hp => absurd hp List.not_mem_nil⟩
    exact List.forall_mem_singleton.mpr haxis
  · exact fun p hp => absurd hp List.not_mem_nil
  · exact fun p hp => absurd hp List.not_mem_nil

theorem artifact_lawful_sample :
    (∃ b, load oneFloat ((sample [] [oneAxis]).write id) = .ok (b, py (b.computeSelfHash id)) ∧
      b.Equal (sample [] [oneAxis])) ∧
    ∀ file o b stored, oneFloat.loads file = .ok (.dict o) →
      o.lookup (py "self_hash") = some (.str (py ((sample [] [oneAxis]).computeSelfHash id))) →
      load oneFloat file = .ok (b, stored) →
      (py (b.computeSelfHash id) = stored ↔ b.Equal (sample [] [oneAxis])) :=
  artifact_lawful Function.injective_id
    (readable_sample List.isChain_nil (List.forall_mem_singleton.mpr readable_oneAxis))

/-- Strings that are written alike make no difference to the file. -/
theorem write_congr {s s' : PyStr} (h : quote s = quote s') :
    CalibrationArtifact.write sha256 { a with corpusId := s } =
      CalibrationArtifact.write sha256 { a with corpusId := s' } := by
  have hfields (layout : Layout) (unknown : PyDict) :
      dumps layout (.dict (CalibrationArtifact.toCanonicalDict { a with corpusId := s } ++
        unknown)) =
      dumps layout (.dict (CalibrationArtifact.toCanonicalDict { a with corpusId := s' } ++
        unknown)) := by
    refine dumps_dict_congr ?_
    have hvalue : text layout 1 (sortKeys (.str s)) = text layout 1 (sortKeys (.str s')) := h
    rw [CalibrationArtifact.toCanonicalDict, CalibrationArtifact.toCanonicalDict, record, record]
    simp only [CalibrationArtifact.fields, List.map_cons, List.cons_append, hvalue]
  have hhash : CalibrationArtifact.computeSelfHash sha256 { a with corpusId := s } =
      CalibrationArtifact.computeSelfHash sha256 { a with corpusId := s' } := by
    have hcompact := hfields .compact []
    rw [List.append_nil, List.append_nil] at hcompact
    exact congrArg sha256 hcompact
  rw [CalibrationArtifact.write, CalibrationArtifact.write, hhash, hfields]

/-- Every file can take a key that goes unnoticed. -/
theorem exists_unknown_key (ha : Readable floats (.dict a.toCanonicalDict)) :
    ∃ file o b stored, floats.loads file = .ok (.dict o) ∧
      o.lookup (py "self_hash") = some (.str (py (a.computeSelfHash sha256))) ∧
      o.lookup (py "comment") = some .none ∧ a.toCanonicalDict.lookup (py "comment") = none ∧
      load floats file = .ok (b, stored) ∧ py (b.computeSelfHash sha256) = stored := by
  have hnames : ((payload a (a.computeSelfHash sha256)
      [("comment", .none)]).map Prod.fst).Nodup := by
    simp [payload, CalibrationArtifact.fields]
  have hunknown : ∀ p ∈ [(("comment", .none) : String × PyValue)], Readable floats p.2 :=
    List.forall_mem_singleton.mpr .none
  have hlookup := lookup_record hnames
  refine ⟨_, _, a.sorted, _, loads_payload ha hnames hunknown,
    hlookup ("self_hash", _) (List.mem_append_right _ List.mem_cons_self),
    hlookup ("comment", .none)
      (List.mem_append_right _ (List.mem_cons_of_mem _ List.mem_cons_self)), ?_,
    load_payload ha hnames hunknown, congrArg py (computeSelfHash_sorted ha)⟩
  refine List.lookup_eq_none_iff.mpr fun p hp => ?_
  obtain ⟨q, hq, rfl⟩ := List.mem_map.mp hp
  rw [bne_iff_ne]
  intro hkey
  have hnone : "comment" ∉ a.fields.map Prod.fst := by
    simp [CalibrationArtifact.fields]
  exact hnone (py_injective hkey ▸ List.mem_map_of_mem hq)

/-- A high surrogate and a low one. -/
def splitPair : PyStr := [.surrogate 61, .surrogate 1536]

/-- A key that no field has goes unnoticed; and the file of two surrogates is that of one
character. -/
theorem unknown_key_unnoticed :
    (∃ file o b stored, oneFloat.loads file = .ok (.dict o) ∧
      o.lookup (py "self_hash") = some (.str (py ((sample [] []).computeSelfHash id))) ∧
      o.lookup (py "comment") = some .none ∧
      (sample [] []).toCanonicalDict.lookup (py "comment") = none ∧
      load oneFloat file = .ok (b, stored) ∧ py (b.computeSelfHash id) = stored) ∧
    ∃ b stored, load oneFloat ((sample splitPair []).write id) = .ok (b, stored) ∧
      ¬ b.Equal (sample splitPair []) := by
  constructor
  · exact exists_unknown_key (readable_sample List.isChain_nil (by simp))
  · have hsame : (sample splitPair []).write id = (sample [.scalar '😀'] []).write id :=
      write_congr (a := sample [] []) (by decide)
    rw [hsame]
    refine ⟨_, _, load_write (readable_sample (List.isChain_singleton _) (by simp)), fun h => ?_⟩
    exact absurd (congrArg CalibrationArtifact.corpusId h) (by decide)

end Files

end Artifact

end Eyenet
