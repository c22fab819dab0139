import Eyenet.DocumentTier
import Eyenet.ModelText
import Eyenet.PyJson

/-!
# Repairing an advisory

`classifier/llm/_repair.py`: a language model's response is searched for the first object with
balanced braces, which is decoded and made an advisory; what cannot be repaired is a `RepairError`.

* `AdvisoryRepair.extract_of_object` — the braces are matched as the decoder reads them: whatever
  stands around an object, its text is found and decoded.
* `AdvisoryRepair.repair_lawful_iff` — and a response is repaired or refused exactly if the decoder
  raises nothing else than `JSONDecodeError`.
* `AdvisoryRepair.lawful_of_modest` — few digits in a row and few brackets suffice.
-/

namespace Eyenet

namespace AdvisoryRepair

open ModelText PyJson

/-! ## The object -/

/-- The end of the first balanced `{...}`, from an index and a state of the scanner on. -/
def closing : ℕ → ℤ → Bool → Bool → PyStr → Option ℕ
  | _, _, _, _, [] => none
  | i, depth, true, escaped, ch :: cs =>
    if escaped then closing (i + 1) depth true false cs
    else if ch = '\\' then closing (i + 1) depth true true cs
    else if ch = '"' then closing (i + 1) depth false false cs
    else closing (i + 1) depth true false cs
  | i, depth, false, escaped, ch :: cs =>
    if ch = '"' then closing (i + 1) depth true escaped cs
    else if ch = '\x7b' then closing (i + 1) (depth + 1) false escaped cs
    else if ch = '\x7d' then
      if depth - 1 = 0 then some (i + 1) else closing (i + 1) (depth - 1) false escaped cs
    else closing (i + 1) depth false escaped cs

/-- `raw[start : i + 1]`, if there is a balanced object. -/
def firstObject (raw : PyStr) : Option PyStr :=
  let object := raw.dropWhile (· ≠ .scalar '\x7b')
  (closing 0 0 false false object).map object.take

/-- `except json.JSONDecodeError: return None` -/
def caught : Except Raised PyValue → Except Raised (Option PyValue)
  | .ok decoded => .ok (some decoded)
  | .error .jsonDecodeError => .ok none
  | .error e => .error e

/-- `_extract_json_object` -/
def extractJsonObject (limits : Limits) (raw : PyStr) : Except Raised (Option PyValue) :=
  match firstObject raw with
  | none => .ok none
  | some object => caught (loads limits object)

/-! ## The advisory -/

/-- What the interpreter's library makes of a text: its `NFC` form, its lowercase form, the `str` of
a decoded value, and what the sanitiser's passes make of a text with lone surrogates. -/
structure Library where
  normalize : String → String
  lower : PyStr → PyStr
  str : PyValue → PyStr
  sanitizeSurrogates : ℕ → PyStr → PyStr

/-- `LlmConfig`, as far as it bounds an advisory. -/
structure LlmConfig where
  maxSummaryChars : ℕ
  maxIndicators : ℕ

/-- `LlmAdvisory`, before `advise` fills in the model and the attempts. -/
structure Advisory where
  suggestedTier : SensitivityTier
  summary : PyStr
  indicators : List PyStr
  confidence : LlmConfidence

section Library

variable (lib : Library)

/-- `sanitize_model_text` -/
def sanitize (maxLen : ℕ) (s : PyStr) : PyStr :=
  match s.mapM PyChar.toChar with
  | some cs => py (sanitizeModelText lib.normalize maxLen (String.ofList cs))
  | none => lib.sanitizeSurrogates maxLen s

def isBlank : PyChar → Bool
  | .scalar c => isPySpace c
  | .surrogate _ => false

/-- `str.strip` -/
def strip (s : PyStr) : PyStr := ((s.dropWhile isBlank).reverse.dropWhile isBlank).reverse

/-- `_coerce_text` -/
def coerceText : PyValue → PyStr
  | .str s => s
  | .none => []
  | v => lib.str v

/-- `SensitivityTier(…)`, unless it raises. -/
def sensitivityTier (value : PyStr) : Option SensitivityTier :=
  [.normal, .restricted, .classified].find? fun tier => py tier.value = value

/-- A confidence that there is, or low. -/
def confidenceOf (value : PyStr) : LlmConfidence :=
  ([.low, .medium, .high].find? fun c => py c.value = value).getD .low

/-- `parse_advisory` of a decoded object; `.error` is a `RepairError`. -/
def coerceAdvisory (cfg : LlmConfig) (obj : List (PyStr × PyValue)) : Except PyStr Advisory :=
  match obj.lookup (py "suggested_tier") with
  | some (.str tierRaw) =>
    match sensitivityTier (lib.lower (strip tierRaw)) with
    | none => .error (py "unknown_tier:" ++ sanitize lib 24 tierRaw)
    | some suggestedTier =>
      let confidenceRaw := coerceText lib ((obj.lookup (py "confidence")).getD .none)
      let rawIndicators := (obj.lookup (py "indicators")).getD (.list [])
      let items := match rawIndicators with
        | .list items => items
        | v => [v]
      .ok {
        suggestedTier := suggestedTier
        summary := sanitize lib cfg.maxSummaryChars
          (coerceText lib ((obj.lookup (py "summary")).getD (.str [])))
        indicators := (items.take cfg.maxIndicators).map fun item =>
          sanitize lib cfg.maxSummaryChars (coerceText lib item)
        confidence := confidenceOf (lib.lower (strip confidenceRaw)) }
  | _ => .error (py "missing_suggested_tier")

/-- `parse_advisory` -/
def parseAdvisory (limits : Limits) (cfg : LlmConfig) (raw : PyStr) :
    Except Raised (Except PyStr Advisory) :=
  match extractJsonObject limits raw with
  | .error e => .error e
  | .ok (some (.dict obj)) => .ok (coerceAdvisory lib cfg obj)
  | .ok _ => .ok (.error (py "no_json_object"))

/-! ## The law -/

/-- The response's object says that the tier is suggested. -/
def Names (limits : Limits) (raw : PyStr) (tier : SensitivityTier) : Prop :=
  ∃ obj said, extractJsonObject limits raw = .ok (some (.dict obj)) ∧
    obj.lookup (py "suggested_tier") = some (.str said) ∧
    lib.lower (strip said) = py tier.value

/-- A response is refused, or makes an advisory of a tier that it names, within the bounds. -/
def RepairLawful (limits : Limits) (cfg : LlmConfig) (raw : PyStr) : Prop :=
  (∃ reason, parseAdvisory lib limits cfg raw = .ok (.error reason)) ∨
    ∃ advisory, parseAdvisory lib limits cfg raw = .ok (.ok advisory) ∧
      Names lib limits raw advisory.suggestedTier ∧ advisory.indicators.length ≤ cfg.maxIndicators

/-- Decoding the first balanced object raises something else than `JSONDecodeError`. -/
def RaisesOther (limits : Limits) (raw : PyStr) : Prop :=
  ∃ object e, firstObject raw = some object ∧ loads limits object = .error e ∧
    e ≠ .jsonDecodeError

/-- The text of an object: `json.loads` decodes it, given room enough. -/
structure IsObjectText (j : PyStr) : Prop where
  head : j.head? = some (.scalar '\x7b')
  last : j.getLast? = some (.scalar '\x7d')
  decoded : ∃ limits v, loads limits j = .ok v

theorem sensitivityTier_eq_some {value : PyStr} {tier : SensitivityTier}
    (h : sensitivityTier value = some tier) : value = py tier.value := by
  have hvalue := List.find?_some h
  exact (of_decide_eq_true hvalue).symm

theorem coerceAdvisory_eq_ok {cfg : LlmConfig} {obj : List (PyStr × PyValue)} {advisory : Advisory}
    (h : coerceAdvisory lib cfg obj = .ok advisory) :
    (∃ said, obj.lookup (py "suggested_tier") = some (.str said) ∧
      lib.lower (strip said) = py advisory.suggestedTier.value) ∧
    advisory.indicators.length ≤ cfg.maxIndicators := by
  rw [coerceAdvisory] at h
  split at h
  · next tierRaw hsaid =>
    split at h
    · cases h
    · next tier htier =>
      obtain rfl := Except.ok.inj h
      refine ⟨⟨tierRaw, hsaid, sensitivityTier_eq_some htier⟩, ?_⟩
      rw [List.length_map, List.length_take]
      exact min_le_left _ _
  · cases h

theorem extract_eq_error {limits : Limits} {raw : PyStr} {e : Raised} :
    extractJsonObject limits raw = .error e ↔
      ∃ object, firstObject raw = some object ∧ loads limits object = .error e ∧
        e ≠ .jsonDecodeError := by
  rw [extractJsonObject]
  cases firstObject raw with
  | none => exact ⟨fun h => (nomatch h), fun ⟨_, h, _⟩ => (nomatch h)⟩
  | some object =>
    simp only [Option.some.injEq, exists_eq_left']
    rcases loads limits object with e' | v
    · cases e' <;> simp only [caught, reduceCtorEq, Except.error.injEq, false_iff, not_and, not_not]
      · exact fun h => h.symm
      · exact ⟨fun h => ⟨h, h ▸ by decide⟩, fun h => h.1⟩
      · exact ⟨fun h => ⟨h, h ▸ by decide⟩, fun h => h.1⟩
    · exact ⟨fun h => (nomatch h), fun h => (nomatch h.1)⟩

theorem lawful_of_extract {limits : Limits} {cfg : LlmConfig} {raw : PyStr} {o : Option PyValue}
    (h : extractJsonObject limits raw = .ok o) : RepairLawful lib limits cfg raw := by
  by_cases hdict : ∃ obj, o = some (.dict obj)
  · obtain ⟨obj, rfl⟩ := hdict
    have hparse : parseAdvisory lib limits cfg raw = .ok (coerceAdvisory lib cfg obj) := by
      rw [parseAdvisory, h]
    cases hcoerce : coerceAdvisory lib cfg obj with
    | error reason => exact Or.inl ⟨reason, by rw [hparse, hcoerce]⟩
    | ok advisory =>
      obtain ⟨⟨said, hsaid, htier⟩, hlen⟩ := coerceAdvisory_eq_ok lib hcoerce
      exact Or.inr ⟨advisory, by rw [hparse, hcoerce], ⟨obj, said, h, hsaid, htier⟩, hlen⟩
  · left
    refine ⟨py "no_json_object", ?_⟩
    rw [parseAdvisory, h]
    split
    · next he => cases he
    · next obj he => exact absurd ⟨obj, Except.ok.inj he⟩ hdict
    · rfl

/-- A response is repaired or refused exactly if nothing else is raised. -/
theorem lawful_iff (limits : Limits) (cfg : LlmConfig) (raw : PyStr) :
    RepairLawful lib limits cfg raw ↔ ¬ RaisesOther limits raw := by
  constructor
  · rintro h ⟨object, e, hraises⟩
    have hparse : parseAdvisory lib limits cfg raw = .error e := by
      rw [parseAdvisory, extract_eq_error.mpr ⟨object, hraises⟩]
    rcases h with ⟨reason, h⟩ | ⟨advisory, h, -⟩
    · exact nomatch hparse.symm.trans h
    · exact nomatch hparse.symm.trans h
  · intro h
    cases hextract : extractJsonObject limits raw with
    | error e =>
      obtain ⟨object, hraises⟩ := extract_eq_error.mp hextract
      exact absurd ⟨object, e, hraises⟩ h
    | ok o => exact lawful_of_extract lib hextract

end Library

/-! ## The braces -/

theorem closing_body {body : PyStr} (h : IsBody body) (i : ℕ) (depth : ℤ) (tail : PyStr) :
    closing i depth true false (body ++ tail) =
      closing (i + body.length) depth true false tail := by
  induction h generalizing i with
  | nil => rfl
  | @char c cs hquote hslash _ ih =>
    rw [List.cons_append, closing, if_neg Bool.false_ne_true, if_neg hslash, if_neg hquote, ih,
      List.length_cons, Nat.add_assoc, Nat.add_comm 1]
  | @escaped c cs _ ih =>
    rw [List.cons_append, List.cons_append, closing, if_neg Bool.false_ne_true, if_pos rfl, closing,
      if_pos rfl, ih, List.length_cons, List.length_cons]
    congr 1
    omega

/-- A balanced text leaves the scanner as it was. -/
theorem closing_balanced {used : PyStr} (h : Balanced used) (i : ℕ) {depth : ℤ} (hdepth : 0 < depth)
    (tail : PyStr) : closing i depth false false (used ++ tail) =
      closing (i + used.length) depth false false tail := by
  induction h generalizing i depth tail with
  | nil => rfl
  | @plain c cs hc _ ih =>
    rw [List.cons_append, closing, if_neg hc.1, if_neg hc.2.1, if_neg hc.2.2, ih _ hdepth,
      List.length_cons]
    congr 1
    omega
  | @literal body cs hbody _ ih =>
    rw [List.append_assoc, List.cons_append, closing, if_pos rfl, closing_body hbody,
      List.cons_append, closing, if_neg Bool.false_ne_true, if_neg (by decide), if_pos rfl,
      ih _ hdepth]
    congr 1
    simp only [List.length_append, List.length_cons]
    omega
  | @braces inner cs _ _ ihinner ih =>
    rw [List.append_assoc, List.cons_append, closing, if_neg (by decide), if_pos rfl,
      ihinner _ (by omega), List.cons_append, closing, if_neg (by decide), if_neg (by decide),
      if_pos rfl, if_neg (by omega), add_sub_cancel_right, ih _ hdepth]
    congr 1
    simp only [List.length_append, List.length_cons]
    omega

/-- The closing brace is found. -/
theorem closing_object {inner : PyStr} (h : Balanced inner) (tail : PyStr) :
    closing 0 0 false false (.scalar '\x7b' :: inner ++ .scalar '\x7d' :: tail) =
      some (inner.length + 2) := by
  rw [List.cons_append, closing, if_neg (by decide), if_pos rfl, closing_balanced h _ (by decide),
    closing, if_neg (by decide), if_neg (by decide), if_pos rfl, if_pos (by decide)]
  congr 1
  omega

/-- The text of an object is the braces and what is balanced between them. -/
theorem IsObjectText.exists_inner {j : PyStr} (h : IsObjectText j) :
    ∃ inner, j = .scalar '\x7b' :: inner ++ [.scalar '\x7d'] ∧ Balanced inner := by
  obtain ⟨cs, rfl⟩ := List.head?_eq_some_iff.mp h.head
  obtain ⟨limits, v, hloads⟩ := h.decoded
  obtain ⟨inner, rest, rfl, hbal, hrest⟩ := exists_inner_of_loads hloads
  refine ⟨inner, ?_, hbal⟩
  -- nothing but blanks could follow, and the text ends with a brace
  cases hlast : rest.getLast? with
  | none => rw [List.getLast?_eq_none_iff.mp hlast, List.cons_append]
  | some c =>
    exfalso
    have hspace : isSpace c = true :=
      List.dropWhile_eq_nil_iff.mp hrest c (List.mem_of_getLast? hlast)
    have hsplit : (.scalar '\x7b' :: (inner ++ .scalar '\x7d' :: rest) : PyStr) =
        (.scalar '\x7b' :: inner ++ [.scalar '\x7d']) ++ rest := by simp
    have hend := h.last
    rw [hsplit, List.getLast?_append, hlast] at hend
    obtain rfl := Option.some.inj hend
    exact absurd hspace (by decide)

theorem firstObject_of_object {before j : PyStr} (hbefore : .scalar '\x7b' ∉ before)
    (hj : IsObjectText j) (after : PyStr) : firstObject (before ++ j ++ after) = some j := by
  obtain ⟨inner, rfl, hbal⟩ := hj.exists_inner
  have hdrop : (before ++ (PyChar.scalar '\x7b' :: inner ++ [PyChar.scalar '\x7d']) ++
      after).dropWhile
      (fun c => decide (c ≠ PyChar.scalar '\x7b')) =
        PyChar.scalar '\x7b' :: inner ++ .scalar '\x7d' :: after := by
    rw [List.append_assoc, List.dropWhile_append_of_pos]
    · simp
    · exact fun c hc => decide_eq_true (ne_of_mem_of_not_mem hc hbefore)
  rw [firstObject, hdrop, closing_object hbal, Option.map_some]
  congr 1
  rw [show (.scalar '\x7b' :: inner ++ .scalar '\x7d' :: after : PyStr) =
    (.scalar '\x7b' :: inner ++ [.scalar '\x7d']) ++ after by simp]
  exact List.take_left' (by simp)

/-- **The object is found** among prose, and decoded. -/
theorem extract_of_object (limits : Limits) {before j : PyStr} (hbefore : .scalar '\x7b' ∉ before)
    (hj : IsObjectText j) (after : PyStr) :
    extractJsonObject limits (before ++ j ++ after) = caught (loads limits j) := by
  rw [extractJsonObject, firstObject_of_object hbefore hj]

/-- **The repair**: an object is found among whatever surrounds it, and a response is repaired or
refused exactly if decoding its first object raises nothing else than `JSONDecodeError`. -/
theorem repair_lawful_iff (lib : Library) (limits : Limits) :
    (∀ before j after, .scalar '\x7b' ∉ before → IsObjectText j →
      extractJsonObject limits (before ++ j ++ after) = caught (loads limits j)) ∧
    ∀ cfg raw, RepairLawful lib limits cfg raw ↔ ¬ RaisesOther limits raw :=
  ⟨fun _ _ after hbefore hj => extract_of_object limits hbefore hj after, lawful_iff lib limits⟩

/-! ## What suffices -/

theorem firstObject_isInfix {raw object : PyStr} (h : firstObject raw = some object) :
    object <:+: raw := by
  obtain ⟨n, -, rfl⟩ := Option.map_eq_some_iff.mp h
  exact (List.take_prefix _ _).isInfix.trans (List.dropWhile_suffix _).isInfix

/-- Few digits in a row and few brackets suffice. -/
theorem lawful_of_modest (lib : Library) {limits : Limits} (cfg : LlmConfig) {raw : PyStr}
    (hdigits : ∀ digits, digits <:+: raw → (∀ d ∈ digits, d.isDigit = true) →
      isOver limits.maxDigits digits.length = false)
    (hbrackets : isOver limits.maxDepth (brackets raw) = false) :
    RepairLawful lib limits cfg raw := by
  rw [lawful_iff]
  rintro ⟨object, e, hobject, hloads, hne⟩
  have hpart := firstObject_isInfix hobject
  refine hne (loads_of_modest hloads (fun digits hin => hdigits digits (hin.trans hpart)) ?_)
  by_contra hover
  rw [Bool.not_eq_false] at hover
  rw [isOver_mono hover (brackets_le hpart.sublist)] at hbrackets
  cases hbrackets

/-! ## A long number -/

section LongNumber

variable {limits : Limits} {n : ℕ}

/-- The key `"n"`, a colon and an integer of some digits. -/
def longItem (n : ℕ) : PyStr := py "\"n\":" ++ List.replicate n (.scalar '1')

theorem isDigit_of_mem_replicate {c : PyChar} (h : c ∈ List.replicate n (.scalar '1')) :
    c.isDigit = true := by
  rw [List.eq_of_mem_replicate h]
  rfl

theorem balanced_longItem : Balanced (longItem n) :=
  @Balanced.literal [.scalar 'n'] _ (.char (by decide) (by decide) .nil)
    (.plain (by decide)
      (balanced_of_plain fun _ hc => plain_of_isDigit (isDigit_of_mem_replicate hc)))

theorem scanKey_longItem (rest : PyStr) : scanKey (py "\"n\":" ++ .scalar '1' :: rest) =
    some (py "n", .scalar '1' :: rest) := by
  have hstring : scanString (.scalar 'n' :: .scalar '"' :: .scalar ':' :: .scalar '1' :: rest) =
      some (py "n", .scalar ':' :: .scalar '1' :: rest) := by
    rw [scanString_char rfl, scanString_end rfl]
    rfl
  have hcs : py "\"n\":" ++ .scalar '1' :: rest =
      .scalar '"' :: .scalar 'n' :: .scalar '"' :: .scalar ':' :: .scalar '1' :: rest := rfl
  rw [hcs, scanKey, if_pos rfl, hstring]
  rfl

/-- Too many digits. -/
theorem scanScalar_long (h : isOver limits.maxDigits (n + 1) = true) (rest : PyStr) :
    scanScalar limits (List.replicate (n + 1) (.scalar '1') ++ .scalar '\x7d' :: rest) =
      .error (some .valueError) := by
  have hinteger : integer (List.replicate (n + 1) (.scalar '1') ++ .scalar '\x7d' :: rest) =
      List.replicate (n + 1) (.scalar '1') := by
    rw [List.replicate_succ, List.cons_append, integer, if_neg (by decide), ← List.cons_append,
      ← List.replicate_succ, List.takeWhile_append_of_pos fun _ hd => isDigit_of_mem_replicate hd]
    exact List.append_nil _
  have hminus : (if (List.replicate (n + 1) (PyChar.scalar '1') ++ .scalar '\x7d' :: rest).head? =
      some (.scalar '-') then [PyChar.scalar '-'] else []) = [] := if_neg (by
        rw [List.replicate_succ, List.cons_append, List.head?_cons]
        decide)
  have hbehind : (List.replicate (n + 1) (PyChar.scalar '1') ++ .scalar '\x7d' :: rest).drop
      (List.replicate (n + 1) (PyChar.scalar '1')).length = .scalar '\x7d' :: rest :=
    List.drop_left' rfl
  have hconstants : constants.find? (fun p => p.1.isPrefixOf
      (List.replicate (n + 1) (.scalar '1') ++ .scalar '\x7d' :: rest)) = none := rfl
  have hfraction : fraction (.scalar '\x7d' :: rest) = [] := by
    rw [fraction, if_neg fun hdot => absurd hdot.1 (by decide)]
  have hexponent : exponent (.scalar '\x7d' :: rest) = [] := by
    rw [exponent, if_neg fun he => absurd he.1 (by decide)]
  rw [scanScalar, hconstants]
  simp only [scanNumber, hminus, List.length_nil, List.drop_zero, hinteger, hbehind, hfraction,
    hexponent, List.append_nil]
  rw [if_neg (by simp), if_pos trivial, if_pos (by rwa [List.length_replicate])]

/-- An item of such a number is not decoded. -/
theorem loads_longItem (h : isOver limits.maxDigits (n + 1) = true)
    (hdepth : isOver limits.maxDepth 1 = false) :
    loads limits (.scalar '\x7b' :: longItem (n + 1) ++ [.scalar '\x7d']) = .error .valueError := by
  have hscan : ∀ steps, scanOnce limits (steps + 3) 0
      (.scalar '\x7b' :: longItem (n + 1) ++ [.scalar '\x7d']) = .error (some .valueError) := by
    intro steps
    have hkey := scanKey_longItem (List.replicate n (.scalar '1') ++ [.scalar '\x7d'])
    have hvalue : scanOnce limits (steps + 1) 1
        (.scalar '1' :: (List.replicate n (.scalar '1') ++ [.scalar '\x7d'])) =
          .error (some .valueError) := by
      rw [scanOnce, if_neg (by decide), if_neg (by decide), if_neg (by decide)]
      exact scanScalar_long h []
    have hitems : scanItems limits (steps + 2) 1 (longItem (n + 1) ++ [.scalar '\x7d']) =
        .error (some .valueError) := by
      rw [scanItems, longItem, List.replicate_succ, List.append_assoc, List.cons_append, hkey]
      exact bind_eq_error.mpr (Or.inr ⟨_, rfl, bind_eq_error.mpr (Or.inl hvalue)⟩)
    rw [List.cons_append, scanOnce, if_neg (by decide), if_pos rfl, hdepth,
      if_neg Bool.false_ne_true]
    exact map_eq_error.mpr hitems
  have hlen : 2 * (.scalar '\x7b' :: longItem (n + 1) ++ [.scalar '\x7d'] : PyStr).length + 2 =
      (2 * (.scalar '\x7b' :: longItem (n + 1) : PyStr).length + 1) + 3 := by
    rw [List.length_append, List.length_singleton]
    omega
  rw [loads, hlen, skipSpace, List.cons_append, List.dropWhile_cons_of_neg (by decide),
    ← List.cons_append, hscan]

theorem firstObject_longItem : firstObject (.scalar '\x7b' :: longItem n ++ [.scalar '\x7d']) =
    some (.scalar '\x7b' :: longItem n ++ [.scalar '\x7d']) := by
  rw [firstObject, List.cons_append, List.dropWhile_cons_of_neg (by decide), ← List.cons_append,
    closing_object balanced_longItem [], Option.map_some]
  congr 1
  apply List.take_of_length_le
  rw [List.length_append, List.length_cons, List.length_singleton]

end LongNumber

/-- A library that knows ASCII only. -/
def asciiLibrary : Library where
  normalize := id
  lower s := s.map fun c => match c with
    | .scalar c => .scalar c.toLower
    | .surrogate n => .surrogate n
  str _ := []
  sanitizeSurrogates _ s := s

/-- An integer of 4301 digits raises a `ValueError` that nobody catches. -/
theorem long_number_raises : ¬ RepairLawful asciiLibrary ⟨some 4300, none⟩ ⟨2000, 20⟩
    (.scalar '\x7b' :: longItem 4301 ++ [.scalar '\x7d']) := by
  rw [lawful_iff, not_not]
  exact ⟨_, .valueError, firstObject_longItem, loads_longItem rfl rfl, by decide⟩

end AdvisoryRepair

end Eyenet
