import Eyenet.Linkage
import Eyenet.Machine
import Mathlib.Data.List.DropRight
import Mathlib.Data.List.Sort
import Mathlib.Data.Int.Bitwise
import Mathlib.Data.Rat.Floor
import Mathlib.Tactic.Linarith

/-!
# The linker

For every profile of an actor the linker searches other actors with a similar simhash, one search
for each comparator (`linker/linker.py`). It generates the id of a linkage, stores the proposal, and
publishes it with the id that it generated. The store keeps the id of an open linkage when the
proposal comes again.

* `Linker.Named` — every published proposal names the linkage of its pair and method.
* `Linker.runMatches_spec`, `Linker.runComparator_spec` — what the proposals of a comparator do.
* `Linker.named_iff_unopened` — exactly when all published proposals are named.
-/

namespace Eyenet

open Machine

/-! ## Simhashes -/

/-- A stored simhash, an integer column of 64 bits. -/
abbrev Simhash := BitVec 64

/-- What a comparator or the store raises. -/
inductive LinkerError where
  | valueError (message : String)
  /-- `int(text, 16)` of another text -/
  | invalidLiteral (text : String)
  /-- the integer does not fit the column -/
  | overflowError
  /-- the contract refuses the envelope -/
  | validationError
  | linkage (error : LinkageError)
  deriving DecidableEq, Repr

/-- The digits after the first one; an underscore may stand before a digit. -/
def readDigits : ℕ → List Char → Option ℕ
  | n, [] => some n
  | n, '_' :: c :: cs => (hexValue c).bind fun d => readDigits (16 * n + d) cs
  | n, c :: cs => (hexValue c).bind fun d => readDigits (16 * n + d) cs

/-- A number without its sign. -/
def readNumeral : List Char → Option ℕ
  | '0' :: 'x' :: cs | '0' :: 'X' :: cs => if cs = [] then none else readDigits 0 cs
  | c :: cs => (hexValue c).bind fun d => readDigits d cs
  | [] => none

/-- The blanks that `int` strips. -/
def isSpace (c : Char) : Bool := c ∈ [' ', '\t', '\n', '\x0b', '\x0c', '\r']

/-- A number with its sign. -/
def readInteger : List Char → Option ℤ
  | '-' :: cs => (readNumeral cs).map fun n : ℕ => -(n : ℤ)
  | '+' :: cs => (readNumeral cs).map Int.ofNat
  | cs => (readNumeral cs).map Int.ofNat

/-- `int(text, 16)` -/
def int16 (text : String) : Except LinkerError ℤ :=
  match readInteger ((text.toList.dropWhile isSpace).rdropWhile isSpace) with
  | none => .error (.invalidLiteral text)
  | some n => .ok n

/-- `_hex_to_int`, and the binding of the integer -/
def hexToInt (h : String) : Except LinkerError Simhash :=
  match int16 h with
  | .error e => .error e
  | .ok unsigned =>
    -- the upper half goes to the negative integers of the column
    let n := if 2 ^ 63 ≤ unsigned then unsigned - 2 ^ 64 else unsigned
    if -2 ^ 63 ≤ n ∧ n < 2 ^ 63 then .ok (BitVec.ofInt 64 n) else .error .overflowError

/-- `_int_to_hex` -/
def intToHex (n : Simhash) : String := String.ofList (Framing.numeral 16 Nat.digitChar 16 n.toNat)

/-- `bin(n).count("1")` -/
def popcount (n : ℕ) : ℕ := (List.range (n.log2 + 1)).countP fun i => n.testBit i

/-- `_hamming64`, the function of the database -/
def storedDistance (a b : Simhash) : ℕ := popcount (a ^^^ b).toNat

/-- `hamming64` of the comparators -/
def hamming64 (hexA hexB : String) : Except LinkerError ℕ :=
  if hexA.length ≠ 16 ∨ hexB.length ≠ 16 then
    .error (.valueError ("hamming64 requires 16-char hex strings; got " ++
      toString hexA.length ++ " and " ++ toString hexB.length))
  else
    match int16 hexA, int16 hexB with
    | .error e, _ => .error e
    | _, .error e => .error e
    | .ok a, .ok b => .ok (popcount (Int.xor a b).natAbs)

/-! ## Comparators -/

/-- An object in a summary: the text of its value, and its language where that is a text. -/
structure Slot where
  value : Option String
  language : Option String

/-- What is read of a profile; of its summaries, the objects in the two that are compared. -/
structure ProfileCurrentEnvelope where
  actorId : Uuid
  version : ℤ
  roleSignal : Option String
  roleConfidence : ℚ
  stylometricSummary : List (String × Slot)
  lexicalSummary : List (String × Slot)
  derivedAt : ℤ

/-- `ComparisonResult` -/
structure ComparisonResult where
  method : String
  distance : ℕ
  score : ℚ
  withinThreshold : Bool
  evidence : Attrs

/-- What the linker uses of a `Comparator`. -/
structure Comparator where
  name : String
  primitiveName : String
  slotValue : ProfileCurrentEnvelope → Option String
  slotLanguage : ProfileCurrentEnvelope → Option String

/-- The comparator of simhashes whose value is in one slot, and whose language is in another. -/
def simhashComparator (name primitiveName : String)
    (slot languageSlot : ProfileCurrentEnvelope → Option Slot) : Comparator where
  name := name
  primitiveName := primitiveName
  slotValue := fun envelope => (slot envelope).bind Slot.value
  slotLanguage := fun envelope => (languageSlot envelope).bind Slot.language

/-- `FunctionWordSimhashHamming` -/
def functionWordSimhashHamming : Comparator :=
  simhashComparator "function_word_simhash_hamming" "function_word_distribution_top50"
    (fun envelope => envelope.stylometricSummary.lookup "function_word_simhash")
    (fun envelope => envelope.stylometricSummary.lookup "function_word_simhash")

/-- `CharNgramSimhashHamming`; its language is that of the function words. -/
def charNgramSimhashHamming : Comparator :=
  simhashComparator "char_ngram_simhash_hamming" "character_ngram_simhash"
    (fun envelope => envelope.stylometricSummary.lookup "char_ngram_simhash")
    (fun envelope => envelope.stylometricSummary.lookup "function_word_simhash")

/-- `PosNgramSimhashHamming` -/
def posNgramSimhashHamming : Comparator :=
  simhashComparator "pos_ngram_simhash_hamming" "pos_ngram_signature"
    (fun envelope => envelope.stylometricSummary.lookup "pos_ngram_signature")
    (fun envelope => envelope.stylometricSummary.lookup "pos_ngram_signature")

/-- `OptionalGrammarSimhashHamming` -/
def optionalGrammarSimhashHamming : Comparator :=
  simhashComparator "optional_grammar_simhash_hamming" "optional_grammar_signature"
    (fun envelope => envelope.lexicalSummary.lookup "optional_grammar_signature")
    (fun envelope => envelope.lexicalSummary.lookup "optional_grammar_signature")

/-- `REGISTRY` -/
def comparatorRegistry : List Comparator :=
  [functionWordSimhashHamming, charNgramSimhashHamming, posNgramSimhashHamming,
    optionalGrammarSimhashHamming]

/-- `LinkerThresholds`; `none` in a language disables the comparator there. -/
structure LinkerThresholds where
  functionWordSimhashHamming : Fin 65 := 8
  charNgramSimhashHamming : Fin 65 := 10
  posNgramSimhashHamming : Fin 65 := 10
  optionalGrammarSimhashHamming : Fin 65 := 12
  functionWordSimhashHammingPerLang : List (String × Option ℤ) := [("es", none)]
  charNgramSimhashHammingPerLang : List (String × Option ℤ) := [("es", none)]
  posNgramSimhashHammingPerLang : List (String × Option ℤ) := [("es", none)]
  optionalGrammarSimhashHammingPerLang : List (String × Option ℤ) := [("es", none)]

namespace LinkerThresholds

/-- `getattr(self, name, 8)` -/
def blind (t : LinkerThresholds) : String → ℕ
  | "function_word_simhash_hamming" => t.functionWordSimhashHamming
  | "char_ngram_simhash_hamming" => t.charNgramSimhashHamming
  | "pos_ngram_simhash_hamming" => t.posNgramSimhashHamming
  | "optional_grammar_simhash_hamming" => t.optionalGrammarSimhashHamming
  | _ => 8

/-- `getattr(self, f"{name}_per_lang", None)`, empty where there is none -/
def perLang (t : LinkerThresholds) : String → List (String × Option ℤ)
  | "function_word_simhash_hamming" => t.functionWordSimhashHammingPerLang
  | "char_ngram_simhash_hamming" => t.charNgramSimhashHammingPerLang
  | "pos_ngram_simhash_hamming" => t.posNgramSimhashHammingPerLang
  | "optional_grammar_simhash_hamming" => t.optionalGrammarSimhashHammingPerLang
  | _ => []

/-- `for_comparator` -/
def forComparator (t : LinkerThresholds) (name : String) (language : Option String) : Option ℤ :=
  match language.bind fun language => (t.perLang name).lookup language with
  | some v => v
  | none => some (t.blind name)

end LinkerThresholds

/-- The nearest integer, the even one where two are as near. -/
def roundHalfEven (q : ℚ) : ℤ :=
  let n := ⌊q⌋
  if q - n < 1 / 2 then n
  else if 1 / 2 < q - n then n + 1
  else if n % 2 = 0 then n
  else n + 1

/-- `round(q, 4)` -/
def round4 (q : ℚ) : ℚ := roundHalfEven (q * 10000) / 10000

/-- The score of a distance, before it is rounded. -/
def similarity (distance : ℕ) (threshold : ℤ) : ℚ :=
  if 0 < threshold then max 0 (1 - distance / threshold)
  else if distance = 0 then 1
  else 0

/-- `compare`, the same in every comparator -/
def Comparator.compare (c : Comparator) (valueA valueB : String) (threshold : ℤ) :
    Except LinkerError ComparisonResult :=
  match hamming64 valueA valueB with
  | .error e => .error e
  | .ok distance => .ok
    { method := c.name
      distance
      score := round4 (similarity distance threshold)
      withinThreshold := (distance : ℤ) ≤ threshold
      evidence := .ofList [("hex_a", .text valueA), ("hex_b", .text valueB),
        ("threshold", .number threshold)] }

/-! ## The index -/

/-- A row of `vector_signature`. -/
structure VectorRow where
  actorId : Uuid
  primitiveName : String
  simhash : Simhash
  deriving DecidableEq

/-- The primary key of a signature. -/
def VectorRow.key (r : VectorRow) : Uuid × String := (r.actorId, r.primitiveName)

/-- The signatures. -/
abbrev VectorIndex := Table VectorRow.key

/-- `VectorMatch` -/
structure VectorMatch where
  actorId : Uuid
  distance : ℕ
  simhashHex : String

/-- `upsert_simhash` -/
def upsertSimhash (index : VectorIndex) (actorId : Uuid) (primitiveName simhashHex : String) :
    Except LinkerError VectorIndex :=
  match hexToInt simhashHex with
  | .error e => .error e
  | .ok simhash => .ok (index.save ⟨actorId, primitiveName, simhash⟩)

/-- The match of a row with a simhash. -/
def VectorRow.toMatch (query : Simhash) (r : VectorRow) : VectorMatch :=
  ⟨r.actorId, storedDistance query r.simhash, intToHex r.simhash⟩

/-- `nearest_simhashes` with an excluded actor: at most fifty matches, the nearest first -/
def nearestSimhashes (index : VectorIndex) (primitiveName simhashHex : String) (maxDistance : ℤ)
    (excludeActorId : Uuid) : Except LinkerError (List VectorMatch) :=
  match hexToInt simhashHex with
  | .error e => .error e
  | .ok query =>
    let rows := index.rows.filter fun r =>
      r.primitiveName = primitiveName ∧ r.actorId ≠ excludeActorId
    let near := (rows.map (VectorRow.toMatch query)).filter fun m => (m.distance : ℤ) ≤ maxDistance
    .ok ((near.insertionSort fun m m' => m.distance ≤ m'.distance).take 50)

/-! ## Proposals -/

/-- `LinkageProposedEnvelope` -/
structure LinkageProposedEnvelope where
  linkageId : Uuid
  actorAId : Uuid
  actorBId : Uuid
  method : String
  score : Score
  evidence : Attrs
  proposedAt : ℤ
  /-- `_enforce_pair_order` -/
  ordered : actorAId < actorBId

/-- `LinkageProposedEnvelope.from_pair` -/
def LinkageProposedEnvelope.fromPair (a b linkageId : Uuid) (method : String) (score : ℚ)
    (evidence : Attrs) (proposedAt : ℤ) : Except LinkerError LinkageProposedEnvelope :=
  if hscore : score ∈ Set.Icc (0 : ℚ) 1 then
    if hordered : (sortedPair a b).1 < (sortedPair a b).2 then
      .ok
        { linkageId
          actorAId := (sortedPair a b).1
          actorBId := (sortedPair a b).2
          method
          score := ⟨score, hscore⟩
          evidence
          proposedAt
          ordered := hordered }
    else .error .validationError
  else .error .validationError

/-- The store, the bus as the linker sees it, and the ids that `_new_uuid7` is going to return. -/
structure Linker where
  index : VectorIndex
  linkages : LinkageTable
  published : List LinkageProposedEnvelope
  uuids : List Uuid

namespace Linker

/-- Nothing stored and nothing published. -/
def init (uuids : List Uuid) : Linker := ⟨.empty, .empty, [], uuids⟩

/-- `_emit_proposal`; `none` when there is no id left to return. -/
def emitProposal (s : Linker) (envelope : ProfileCurrentEnvelope) (otherActorId : Uuid)
    (method : String) (result : ComparisonResult) (language : Option String) (now : ℤ) :
    Option (Linker × Except LinkerError Unit) :=
  match s.uuids with
  | [] => none
  | linkageId :: uuids =>
    let evidence := match language with
      | none => result.evidence
      | some language => result.evidence.merge (.ofList [("language", .text language)])
    match LinkageProposedEnvelope.fromPair envelope.actorId otherActorId linkageId method
        result.score evidence now with
    | .error e => some ({ s with uuids }, .error e)
    | .ok proposed =>
      let stored := s.linkages.insertProposedLinkage envelope.actorId otherActorId method
        proposed.score evidence linkageId now
      match stored.2 with
      | .error e => some ({ s with uuids, linkages := stored.1 }, .error (.linkage e))
      -- the stored row is not looked at, and may have an id of its own
      | .ok _ =>
        some
          ({ s with uuids, linkages := stored.1, published := s.published ++ [proposed] }, .ok ())

/-- The loop over the matches of a comparator. -/
def runMatches (c : Comparator) (envelope : ProfileCurrentEnvelope) (value : String)
    (threshold : ℤ) (now : ℤ) :
    List VectorMatch → Linker → Option (Linker × Except LinkerError Unit)
  | [], s => some (s, .ok ())
  | m :: ms, s =>
    match c.compare value m.simhashHex threshold with
    | .error e => some (s, .error e)
    | .ok result =>
      match s.emitProposal envelope m.actorId c.name result (c.slotLanguage envelope) now with
      | none => none
      | some (s', .error e) => some (s', .error e)
      | some (s', .ok _) => runMatches c envelope value threshold now ms s'

/-- `_run_comparator` -/
def runComparator (thresholds : LinkerThresholds) (envelope : ProfileCurrentEnvelope) (now : ℤ)
    (c : Comparator) (s : Linker) : Option (Linker × Except LinkerError Unit) :=
  match c.slotValue envelope with
  | none => some (s, .ok ())
  | some value =>
    match thresholds.forComparator c.name (c.slotLanguage envelope) with
    | none => some (s, .ok ())
    | some threshold =>
      match upsertSimhash s.index envelope.actorId c.primitiveName value with
      | .error e => some (s, .error e)
      | .ok index =>
        match nearestSimhashes index c.primitiveName value threshold envelope.actorId with
        | .error e => some ({ s with index }, .error e)
        | .ok found => runMatches c envelope value threshold now found { s with index }

/-- The loop over the comparators; what one of them raises is logged. -/
def runComparators (thresholds : LinkerThresholds) (envelope : ProfileCurrentEnvelope) (now : ℤ) :
    List Comparator → Linker → Option Linker
  | [], s => some s
  | c :: cs, s =>
    match runComparator thresholds envelope now c s with
    | none => none
    | some (s', _) => runComparators thresholds envelope now cs s'

end Linker

/-- One event of a profile, or one decision of somebody about a linkage. -/
inductive LinkerStep where
  /-- `_process_profile` -/
  | profile (envelope : ProfileCurrentEnvelope) (now : ℤ)
  /-- `transition_linkage` -/
  | transition (linkageId : Uuid) (target : LinkageState) (decidedBy : String)
      (notes : Option String) (now : ℤ)

namespace Linker

/-- One step. -/
def step (thresholds : LinkerThresholds) (s : Linker) : LinkerStep → Option Linker
  | .profile envelope now => runComparators thresholds envelope now comparatorRegistry s
  | .transition linkageId target decidedBy notes now =>
    some { s with
      linkages := (s.linkages.transitionLinkage linkageId target decidedBy notes now).1 }

/-! ## Named proposals -/

/-- Every published proposal names a stored linkage, of its pair and its method. -/
def Named (s : Linker) : Prop :=
  ∀ env ∈ s.published, ∃ row ∈ s.linkages.rows, row.id = env.linkageId ∧
    row.actorAId = env.actorAId ∧ row.actorBId = env.actorBId ∧ row.method = env.method

instance (s : Linker) : Decidable s.Named := by
  unfold Named
  infer_instance

/-- The matches that a comparator goes through with a profile. -/
def matched (thresholds : LinkerThresholds) (index : VectorIndex)
    (envelope : ProfileCurrentEnvelope) (c : Comparator) : List VectorMatch :=
  match c.slotValue envelope, thresholds.forComparator c.name (c.slotLanguage envelope) with
  | some value, some threshold =>
    -- the comparison raises for a text of another length
    if value.length = 16 then
      match nearestSimhashes index c.primitiveName value threshold envelope.actorId with
      | .ok found => found
      | .error _ => []
    else []
  | _, _ => []

/-- The linkage of the actor of a profile with a match. -/
def linkWith (s : Linker) (envelope : ProfileCurrentEnvelope) (c : Comparator) (m : VectorMatch) :
    Option LinkageRow :=
  s.linkages.linkOf (sortedPair envelope.actorId m.actorId) c.name

/-- The first linkage that the actor of a profile already has with a match of a comparator. -/
def firstLinked (thresholds : LinkerThresholds) (s : Linker) (envelope : ProfileCurrentEnvelope)
    (c : Comparator) : Option LinkageRow :=
  (matched thresholds s.index envelope c).findSome? (s.linkWith envelope c)

/-- For no comparator is that linkage still a proposal. -/
def Unopened (thresholds : LinkerThresholds) (s : Linker) : LinkerStep → Prop
  | .profile envelope _ =>
    ∀ c ∈ comparatorRegistry, ∀ row,
      s.firstLinked thresholds envelope c = some row → row.state ≠ .proposed
  | .transition .. => True

/-! ## Comparisons of stored simhashes -/

/-- The number that some hexadecimal digits stand for. -/
def hexNumber (cs : List Char) : ℕ := cs.foldl (fun n c => 16 * n + (hexValue c).getD 0) 0

theorem readDigits_eq {l : List Char} (hl : ∀ c ∈ l, (hexValue c).isSome = true) (n : ℕ) :
    readDigits n l = some (l.foldl (fun n c => 16 * n + (hexValue c).getD 0) n) := by
  induction l generalizing n with
  | nil => rfl
  | cons c cs ih =>
    obtain ⟨d, hd⟩ := Option.isSome_iff_exists.mp (hl c List.mem_cons_self)
    have hc : c ≠ '_' := by
      rintro rfl
      cases hd
    rw [readDigits, hd, Option.bind_some, ih fun x hx => hl x (List.mem_cons_of_mem c hx),
      List.foldl_cons, hd, Option.getD_some]
    intro _ _ hunderscore
    exact absurd hunderscore hc

theorem readNumeral_eq {c : Char} {cs : List Char}
    (hl : ∀ x ∈ c :: cs, (hexValue x).isSome = true) :
    readNumeral (c :: cs) = some (hexNumber (c :: cs)) := by
  obtain ⟨d, hd⟩ := Option.isSome_iff_exists.mp (hl c List.mem_cons_self)
  -- a digit is not the `x` of a base
  have hbase : ∀ x ∈ cs, x ≠ 'x' ∧ x ≠ 'X' := by
    intro x hx
    have hsome := hl x (List.mem_cons_of_mem c hx)
    refine ⟨?_, ?_⟩ <;> rintro rfl <;> cases hsome
  rw [readNumeral, hd, Option.bind_some, readDigits_eq fun x hx => hl x (List.mem_cons_of_mem c hx),
    hexNumber, List.foldl_cons, hd, Option.getD_some, mul_zero, zero_add]
  · rintro cs' - rfl
    exact (hbase 'x' List.mem_cons_self).1 rfl
  · rintro cs' - rfl
    exact (hbase 'X' List.mem_cons_self).2 rfl

/-- A text of hexadecimal digits is a number. -/
theorem int16_eq {c : Char} {cs : List Char} {text : String} (htext : text.toList = c :: cs)
    (hl : ∀ x ∈ c :: cs, (hexValue x).isSome = true) :
    int16 text = .ok (hexNumber (c :: cs)) := by
  have hnot : ∀ x ∈ c :: cs, ¬ isSpace x = true := by
    intro x hx hspace
    have hsome := hl x hx
    simp only [isSpace, List.mem_cons, List.not_mem_nil, or_false, decide_eq_true_eq] at hspace
    obtain rfl | rfl | rfl | rfl | rfl | rfl := hspace <;> cases hsome
  have hstrip : ((c :: cs).dropWhile isSpace).rdropWhile isSpace = c :: cs := by
    rw [List.dropWhile_eq_self_iff.mpr fun hpos => hnot _ (List.getElem_mem hpos),
      List.rdropWhile_eq_self_iff.mpr fun hne => hnot _ (List.getLast_mem hne)]
  have hsign : c ≠ '-' ∧ c ≠ '+' := by
    have hsome := hl c List.mem_cons_self
    refine ⟨?_, ?_⟩ <;> rintro rfl <;> cases hsome
  have hinteger : readInteger (c :: cs) = some (hexNumber (c :: cs) : ℤ) := by
    rw [readInteger, readNumeral_eq hl]
    · rfl
    · intro cs' hcons
      exact hsign.1 (List.cons.inj hcons).1
    · intro cs' hcons
      exact hsign.2 (List.cons.inj hcons).1
  rw [int16, htext, hstrip, hinteger]

theorem isSome_hexValue_numeral (w n : ℕ) : ∀ c ∈ Framing.numeral 16 Nat.digitChar w n,
    (hexValue c).isSome = true := by
  induction w generalizing n with
  | zero => exact fun c hc => absurd hc List.not_mem_nil
  | succ w ih =>
    intro c hc
    rw [Framing.numeral, List.mem_append, List.mem_singleton] at hc
    obtain hc | rfl := hc
    · exact ih _ c hc
    · rw [hexValue_digitChar _ (Nat.mod_lt _ (by decide))]
      rfl

/-- The text of a stored simhash is a number again. -/
theorem int16_intToHex (n : Simhash) : ∃ k, int16 (intToHex n) = .ok k := by
  have hlength : (Framing.numeral 16 Nat.digitChar 16 n.toNat).length = 16 := by simp
  cases hlist : Framing.numeral 16 Nat.digitChar 16 n.toNat with
  | nil =>
    rw [hlist] at hlength
    cases hlength
  | cons c cs =>
    have hdigits := isSome_hexValue_numeral 16 n.toNat
    rw [hlist] at hdigits
    refine ⟨_, int16_eq ?_ hdigits⟩
    rw [intToHex, String.toList_ofList, hlist]

theorem roundHalfEven_mem {q : ℚ} {m : ℤ} (h0 : 0 ≤ q) (hm : q ≤ m) :
    0 ≤ roundHalfEven q ∧ roundHalfEven q ≤ m := by
  have hfloor : (⌊q⌋ : ℚ) ≤ q := Int.floor_le q
  have hnonneg : 0 ≤ ⌊q⌋ := Int.floor_nonneg.mpr h0
  have hle : ⌊q⌋ ≤ m := Int.cast_le.mp (hfloor.trans hm)
  -- what is rounded up is below the bound
  have hup : ¬ q - ⌊q⌋ < 1 / 2 → ⌊q⌋ + 1 ≤ m := by
    intro hhalf
    have hlt : (⌊q⌋ : ℚ) < m := by linarith
    exact Int.add_one_le_iff.mpr (Int.cast_lt.mp hlt)
  rw [roundHalfEven]
  split_ifs with hlow
  · exact ⟨hnonneg, hle⟩
  · exact ⟨by omega, hup hlow⟩
  · exact ⟨hnonneg, hle⟩
  · exact ⟨by omega, hup hlow⟩

theorem round4_mem {q : ℚ} (h : q ∈ Set.Icc (0 : ℚ) 1) : round4 q ∈ Set.Icc (0 : ℚ) 1 := by
  obtain ⟨h0, h1⟩ := h
  obtain ⟨hlow, hup⟩ : 0 ≤ roundHalfEven (q * 10000) ∧ roundHalfEven (q * 10000) ≤ 10000 :=
    roundHalfEven_mem (by linarith) (by push_cast; linarith)
  have hlow' : (0 : ℚ) ≤ roundHalfEven (q * 10000) := by exact_mod_cast hlow
  have hup' : (roundHalfEven (q * 10000) : ℚ) ≤ 10000 := by exact_mod_cast hup
  rw [round4]
  refine ⟨by linarith, by linarith⟩

theorem similarity_mem (distance : ℕ) (threshold : ℤ) :
    similarity distance threshold ∈ Set.Icc (0 : ℚ) 1 := by
  rw [similarity]
  split_ifs with hpos
  · have hquotient : (0 : ℚ) ≤ distance / threshold :=
      div_nonneg (Nat.cast_nonneg distance) (Int.cast_nonneg hpos.le)
    exact ⟨le_max_left _ _, max_le zero_le_one (by linarith)⟩
  · exact ⟨zero_le_one, le_rfl⟩
  · exact ⟨le_rfl, zero_le_one⟩

variable {value : String}

/-- A text of the right length that is a number is compared with every stored simhash. -/
theorem compare_intToHex (c : Comparator) (threshold : ℤ) (hlength : value.length = 16)
    (hvalue : ∃ k, int16 value = .ok k) (n : Simhash) :
    ∃ result, c.compare value (intToHex n) threshold = .ok result ∧
      result.score ∈ Set.Icc (0 : ℚ) 1 := by
  obtain ⟨k, hk⟩ := hvalue
  obtain ⟨l, hl⟩ := int16_intToHex n
  have hhex : (intToHex n).length = 16 := by simp [intToHex]
  rw [Comparator.compare, hamming64, if_neg (by simp [hlength, hhex]), hk, hl]
  exact ⟨_, rfl, round4_mem (similarity_mem _ _)⟩

/-- A text of another length is compared with nothing. -/
theorem compare_of_length_ne (c : Comparator) (threshold : ℤ) (hlength : value.length ≠ 16)
    (hex : String) :
    ∃ e, c.compare value hex threshold = .error e := by
  rw [Comparator.compare, hamming64, if_pos (Or.inl hlength)]
  exact ⟨_, rfl⟩

/-! ## Searches -/

variable {c : Comparator} {threshold : ℤ} {index index' : VectorIndex} {primitiveName : String}
  {actorId : Uuid} {found : List VectorMatch}

/-- What a search finds: other actors, each once, with the text of a stored simhash. -/
theorem nearestSimhashes_spec
    (h : nearestSimhashes index primitiveName value threshold actorId = .ok found) :
    (∃ k, int16 value = .ok k) ∧ (found.map VectorMatch.actorId).Nodup ∧
      ∀ m ∈ found, m.actorId ≠ actorId ∧ ∃ n, m.simhashHex = intToHex n := by
  rw [nearestSimhashes] at h
  cases hquery : hexToInt value with
  | error e =>
    rw [hquery] at h
    cases h
  | ok query =>
    rw [hquery] at h
    cases h
    refine ⟨?_, ?_, ?_⟩
    · rw [hexToInt] at hquery
      cases hint : int16 value with
      | error e =>
        rw [hint] at hquery
        cases hquery
      | ok k => exact ⟨k, rfl⟩
    · -- one row for an actor and a primitive, in whatever order
      have hrows : ((index.rows.filter fun r =>
          r.primitiveName = primitiveName ∧ r.actorId ≠ actorId).map
            VectorRow.actorId).Nodup := by
        have hnodup : ((index.rows.filter fun r =>
            r.primitiveName = primitiveName ∧ r.actorId ≠ actorId).map VectorRow.key).Nodup :=
          index.nodup.sublist (List.filter_sublist.map VectorRow.key)
        refine List.Nodup.map_on ?_ (List.Nodup.of_map _ hnodup)
        intro r hr r' hr' hactor
        simp only [List.mem_filter, decide_eq_true_eq] at hr hr'
        exact Table.eq_of_key hr.1 hr'.1
          (Prod.ext hactor (hr.2.1.trans hr'.2.1.symm))
      refine List.Nodup.sublist ((List.take_sublist _ _).map _) ?_
      refine (((List.perm_insertionSort _ _).map VectorMatch.actorId).nodup_iff).mpr ?_
      refine List.Nodup.sublist (List.filter_sublist.map VectorMatch.actorId) ?_
      rw [List.map_map]
      exact hrows
    · intro m hm
      have hsorted := (List.perm_insertionSort _ _).mem_iff.mp (List.mem_of_mem_take hm)
      obtain ⟨r, hr, rfl⟩ := List.mem_map.mp (List.mem_of_mem_filter hsorted)
      simp only [List.mem_filter, decide_eq_true_eq] at hr
      exact ⟨hr.2.2, r.simhash, rfl⟩

/-- A text that is not stored is not searched for. -/
theorem nearestSimhashes_of_upsert {e : LinkerError}
    (h : upsertSimhash index actorId primitiveName value = .error e) :
    nearestSimhashes index primitiveName value threshold actorId = .error e := by
  rw [upsertSimhash] at h
  rw [nearestSimhashes]
  cases hsimhash : hexToInt value with
  | error e' =>
    rw [hsimhash] at h
    cases h
    rfl
  | ok simhash =>
    rw [hsimhash] at h
    cases h

/-- A search that leaves an actor out does not see the signatures of that actor. -/
theorem nearestSimhashes_upsert (h : upsertSimhash index actorId primitiveName value = .ok index')
    (primitive hex : String) : nearestSimhashes index' primitive hex threshold actorId =
      nearestSimhashes index primitive hex threshold actorId := by
  rw [upsertSimhash] at h
  cases hsimhash : hexToInt value with
  | error e =>
    rw [hsimhash] at h
    cases h
  | ok simhash =>
    rw [hsimhash] at h
    cases h
    have hrows := Table.filter_save index (r := ⟨actorId, primitiveName, simhash⟩)
      (p := fun r => r.primitiveName = primitive ∧ r.actorId ≠ actorId) fun x hx => by
        have hactor : x.actorId = actorId := (Prod.mk.inj hx).1
        simp [hactor]
    rw [nearestSimhashes, nearestSimhashes, hrows]

/-! ## What an emission does -/

/-- The ids that are left are fresh. -/
structure Supplied (s : Linker) : Prop where
  nodup : s.uuids.Nodup
  fresh : ∀ row ∈ s.linkages.rows, row.id ∉ s.uuids

/-- A published proposal names no linkage, and never will. -/
def Dangling (s : Linker) : Prop :=
  ∃ env ∈ s.published, env.linkageId ∉ s.uuids ∧ ∀ row ∈ s.linkages.rows, row.id ≠ env.linkageId

theorem Dangling.not_named {s : Linker} (h : s.Dangling) : ¬ s.Named := by
  obtain ⟨env, henv, -, hrows⟩ := h
  intro hnamed
  obtain ⟨row, hrow, hid, -⟩ := hnamed env henv
  exact hrows row hrow hid

/-- What is stored stays, what is new has an id that was left, and what is published stays. -/
structure Grows (s s' : Linker) : Prop where
  kept : ∀ row ∈ s.linkages.rows, ∃ row' ∈ s'.linkages.rows, row'.id = row.id ∧ row'.SameLink row
  drawn : ∀ row ∈ s'.linkages.rows, row.id ∈ s.uuids ∨ ∃ r ∈ s.linkages.rows, r.id = row.id
  uuids : s'.uuids ⊆ s.uuids
  published : s.published ⊆ s'.published
  supplied : s'.Supplied

variable {s s' s'' : Linker}

theorem Grows.trans (h : Grows s s') (h' : Grows s' s'') : Grows s s'' where
  kept := fun row hrow => by
    obtain ⟨row', hrow', hid, hlink⟩ := h.kept row hrow
    obtain ⟨row'', hrow'', hid', hlink'⟩ := h'.kept row' hrow'
    exact ⟨row'', hrow'', hid'.trans hid, hlink'.1.trans hlink.1, hlink'.2.1.trans hlink.2.1,
      hlink'.2.2.trans hlink.2.2⟩
  drawn := fun row hrow => by
    obtain hleft | ⟨r, hr, hid⟩ := h'.drawn row hrow
    · exact Or.inl (h.uuids hleft)
    · rw [← hid]
      exact h.drawn r hr
  uuids := fun _ hid => h.uuids (h'.uuids hid)
  published := fun _ henv => h'.published (h.published henv)
  supplied := h'.supplied

theorem Dangling.grows (hdangling : s.Dangling) (h : Grows s s') : s'.Dangling := by
  obtain ⟨env, henv, hid, hrows⟩ := hdangling
  refine ⟨env, h.published henv, fun hleft => hid (h.uuids hleft), fun row hrow hrowid => ?_⟩
  obtain hleft | ⟨r, hr, hrid⟩ := h.drawn row hrow
  · exact hid (hrowid ▸ hleft)
  · exact hrows r hr (hrid.trans hrowid)

/-- Named proposals stay named. -/
theorem Named.grows (hnamed : s.Named) (h : Grows s s')
    (hnew : ∀ env ∈ s'.published, env ∈ s.published ∨ ∃ row ∈ s'.linkages.rows,
      row.id = env.linkageId ∧ row.actorAId = env.actorAId ∧ row.actorBId = env.actorBId ∧
        row.method = env.method) : s'.Named := by
  intro env henv
  obtain hold | hrow := hnew env henv
  · obtain ⟨row, hrow, hid, ha, hb, hm⟩ := hnamed env hold
    obtain ⟨row', hrow', hid', ha', hb', hm'⟩ := h.kept row hrow
    exact ⟨row', hrow', hid'.trans hid, ha'.trans ha, hb'.trans hb, hm'.trans hm⟩
  · exact hrow

section Draw

variable {linkageId : Uuid} {uuids : List Uuid} {published : List LinkageProposedEnvelope}
  {linkages : LinkageTable} {row : LinkageRow}

theorem Supplied.draw (hs : s.Supplied) (huuids : s.uuids = linkageId :: uuids) :
    uuids.Nodup ∧ linkageId ∉ uuids ∧
      ∀ row ∈ s.linkages.rows, row.id ≠ linkageId ∧ row.id ∉ uuids := by
  have hnodup := hs.nodup
  have hfresh := hs.fresh
  rw [huuids] at hnodup hfresh
  obtain ⟨hnotin, hnodup⟩ := List.nodup_cons.mp hnodup
  refine ⟨hnodup, hnotin, fun row hrow => ?_⟩
  have hnot := hfresh row hrow
  rw [List.mem_cons, not_or] at hnot
  exact hnot

/-- A new linkage under the id that was drawn. -/
theorem grows_insert (hs : s.Supplied) (huuids : s.uuids = row.id :: uuids)
    (hinsert : s.linkages.insert row = some linkages) (hpublished : s.published ⊆ published) :
    Grows s ⟨s.index, linkages, published, uuids⟩ := by
  obtain ⟨hnodup, hnotin, hrowid⟩ := hs.draw huuids
  obtain ⟨-, -, hrows⟩ := LinkageTable.insert_eq_some hinsert
  refine ⟨fun r hr => ?_, fun r hr => ?_, fun id hid => ?_, hpublished, hnodup, fun r hr => ?_⟩
  · exact ⟨r, (Table.mem_insert hrows).mpr (Or.inl hr), rfl, rfl, rfl, rfl⟩
  · obtain hr | rfl := (Table.mem_insert hrows).mp hr
    · exact Or.inr ⟨r, hr, rfl⟩
    · rw [huuids]
      exact Or.inl List.mem_cons_self
  · rw [huuids]
    exact List.mem_cons_of_mem _ hid
  · obtain hr | rfl := (Table.mem_insert hrows).mp hr
    · exact (hrowid r hr).2
    · exact hnotin

/-- Only the id is lost. -/
theorem grows_draw (hs : s.Supplied) (huuids : s.uuids = linkageId :: uuids) :
    Grows s { s with uuids } := by
  obtain ⟨hnodup, -, hrowid⟩ := hs.draw huuids
  refine ⟨fun r hr => ⟨r, hr, rfl, rfl, rfl, rfl⟩, fun r hr => Or.inr ⟨r, hr, rfl⟩,
    fun id hid => ?_, List.Subset.refl _, hnodup, fun r hr => (hrowid r hr).2⟩
  rw [huuids]
  exact List.mem_cons_of_mem _ hid

end Draw

/-- The signatures are nothing to the linkages. -/
theorem Supplied.grows_index (hs : s.Supplied) (index : VectorIndex) :
    Grows s { s with index } where
  kept := fun row hrow => ⟨row, hrow, rfl, rfl, rfl, rfl⟩
  drawn := fun row hrow => Or.inr ⟨row, hrow, rfl⟩
  uuids := List.Subset.refl _
  published := List.Subset.refl _
  supplied := ⟨hs.nodup, hs.fresh⟩

theorem Supplied.grows_self (hs : s.Supplied) : Grows s s := hs.grows_index s.index

/-- A write to the linkages keeps what identifies them. -/
theorem Supplied.grows_modify (hs : s.Supplied) (id : Uuid) {f : LinkageRow → LinkageRow}
    (hf : ∀ r, (f r).id = r.id ∧ (f r).SameLink r) :
    Grows s { s with linkages := s.linkages.modify id f hf } := by
  have hlink := LinkageTable.link_modify hf id
  refine ⟨fun r hr => ?_, fun r hr => ?_, List.Subset.refl _, List.Subset.refl _, hs.nodup,
    fun r hr => ?_⟩
  · exact ⟨_, (LinkageTable.mem_modify hf).mpr ⟨r, hr, rfl⟩, hlink r⟩
  · obtain ⟨x, hx, rfl⟩ := (LinkageTable.mem_modify hf).mp hr
    exact Or.inr ⟨x, hx, (hlink x).1.symm⟩
  · obtain ⟨x, hx, rfl⟩ := (LinkageTable.mem_modify hf).mp hr
    rw [(hlink x).1]
    exact hs.fresh x hx

theorem Supplied.grows_publish (hs : s.Supplied) (env : LinkageProposedEnvelope) :
    Grows s { s with published := s.published ++ [env] } where
  kept := fun row hrow => ⟨row, hrow, rfl, rfl, rfl, rfl⟩
  drawn := fun row hrow => Or.inr ⟨row, hrow, rfl⟩
  uuids := List.Subset.refl _
  published := List.subset_append_left _ _
  supplied := ⟨hs.nodup, hs.fresh⟩

variable {envelope : ProfileCurrentEnvelope} {other : Uuid} {method : String}
  {result : ComparisonResult} {language : Option String} {now : ℤ}
  {reply : Except LinkerError Unit}

/-- What a proposal does, by what is stored of its link before: nothing, an open linkage, or a
decided one. -/
theorem emitProposal_spec (hs : s.Supplied) (hne : envelope.actorId ≠ other)
    (hscore : result.score ∈ Set.Icc (0 : ℚ) 1)
    (hemit : s.emitProposal envelope other method result language now = some (s', reply)) :
    Grows s s' ∧ s'.index = s.index ∧
      (∀ pair method', pair ≠ sortedPair envelope.actorId other ∨ method' ≠ method →
        s'.linkages.linkOf pair method' = s.linkages.linkOf pair method') ∧
      ((s.linkages.linkOf (sortedPair envelope.actorId other) method = none ∧ reply = .ok () ∧
          (s.Named → s'.Named)) ∨
        (∃ row, s.linkages.linkOf (sortedPair envelope.actorId other) method = some row ∧
          row.state = .proposed ∧ s'.Dangling) ∨
        (∃ row, s.linkages.linkOf (sortedPair envelope.actorId other) method = some row ∧
          row.state ≠ .proposed ∧ (∃ e, reply = .error e) ∧ (s.Named → s'.Named))) := by
  unfold emitProposal at hemit
  cases huuids : s.uuids with
  | nil =>
    rw [huuids] at hemit
    cases hemit
  | cons linkageId uuids =>
    obtain ⟨hnodup, hnotin, hrowid⟩ := hs.draw huuids
    have hid : s.linkages.rows.get linkageId = none :=
      Table.get_eq_none.mpr fun row hrow => (hrowid row hrow).1
    simp only [huuids, LinkageProposedEnvelope.fromPair, dif_pos hscore,
      dif_pos (sortedPair_lt hne)] at hemit
    generalize (match language with
      | none => result.evidence
      | some language => result.evidence.merge (.ofList [("language", .text language)])) =
        evidence at hemit
    cases hlink : s.linkages.linkOf (sortedPair envelope.actorId other) method with
    | none =>
      -- the linkage is stored under the id that is published
      obtain ⟨linkages, hinsert, hstored⟩ := LinkageTable.insertProposedLinkage_new
        ⟨result.score, hscore⟩ evidence now hlink hne hid
      rw [hstored] at hemit
      obtain ⟨rfl, rfl⟩ := Prod.mk.inj (Option.some.inj hemit)
      obtain ⟨-, -, hrows⟩ := LinkageTable.insert_eq_some hinsert
      have hgrows (env : LinkageProposedEnvelope) :=
        grows_insert hs huuids hinsert (List.subset_append_left s.published [env])
      refine ⟨hgrows _, rfl, fun pair method' hother => ?_, Or.inl ⟨rfl, rfl, fun hnamed => ?_⟩⟩
      · refine LinkageTable.linkOf_insert hinsert fun hsame => ?_
        obtain hpair | hmethod := hother
        · exact hpair (Prod.ext hsame.1 hsame.2.1).symm
        · exact hmethod hsame.2.2.symm
      · refine hnamed.grows (hgrows _) fun env henv => ?_
        obtain henv | henv := List.mem_append.mp henv
        · exact Or.inl henv
        · obtain rfl := List.mem_singleton.mp henv
          exact Or.inr ⟨_, (Table.mem_insert hrows).mpr (Or.inr rfl), rfl, rfl, rfl, rfl⟩
    | some row =>
      obtain ⟨hrow, hrowlink⟩ := LinkageTable.linkOf_eq_some.mp hlink
      by_cases hopen : row.state = .proposed
      · -- the linkage keeps its id, and another one is published
        rw [LinkageTable.insertProposedLinkage_open _ _ _ hlink hopen] at hemit
        obtain ⟨rfl, rfl⟩ := Prod.mk.inj (Option.some.inj hemit)
        have hlinks := LinkageTable.refresh_link ⟨result.score, hscore⟩ evidence
        have hdrawn := grows_draw hs huuids
        have hrefreshed := hdrawn.supplied.grows_modify row.id hlinks
        refine ⟨hdrawn.trans (hrefreshed.trans (hrefreshed.supplied.grows_publish _)), rfl,
          fun pair method' hother => ?_, Or.inr (Or.inl ⟨row, rfl, hopen, ?_⟩)⟩
        · refine LinkageTable.linkOf_modify_of_ne hlinks hrow fun hsame => ?_
          obtain hpair | hmethod := hother
          · exact hpair (Prod.ext (hsame.1.symm.trans hrowlink.1)
              (hsame.2.1.symm.trans hrowlink.2.1))
          · exact hmethod (hsame.2.2.symm.trans hrowlink.2.2)
        · refine ⟨_, List.mem_append_right _ List.mem_cons_self, hnotin, fun r hr => ?_⟩
          obtain ⟨x, hx, rfl⟩ := (LinkageTable.mem_modify hlinks).mp hr
          rw [(LinkageTable.link_modify hlinks row.id x).1]
          exact (hrowid x hx).1
      · rw [LinkageTable.insertProposedLinkage_decided _ _ _ hlink hopen] at hemit
        obtain ⟨rfl, rfl⟩ := Prod.mk.inj (Option.some.inj hemit)
        have hgrows := grows_draw hs huuids
        exact ⟨hgrows, rfl, fun _ _ _ => rfl, Or.inr (Or.inr ⟨row, rfl, hopen, ⟨_, rfl⟩,
          fun hnamed => hnamed.grows hgrows fun env henv => Or.inl henv⟩)⟩

/-! ## What a comparator does -/

theorem findSome?_congr {α β : Type*} {f g : α → Option β} {l : List α}
    (h : ∀ x ∈ l, f x = g x) : l.findSome? f = l.findSome? g := by
  induction l with
  | nil => rfl
  | cons x xs ih =>
    rw [List.findSome?_cons, List.findSome?_cons, h x List.mem_cons_self,
      ih fun y hy => h y (List.mem_cons_of_mem x hy)]

/-- The loop over the matches goes wrong exactly when the first linkage that it meets is open. -/
theorem runMatches_spec (hlength : value.length = 16) (hvalue : ∃ k, int16 value = .ok k)
    {ms : List VectorMatch} (hnodup : (ms.map VectorMatch.actorId).Nodup)
    (hms : ∀ m ∈ ms, m.actorId ≠ envelope.actorId ∧ ∃ n, m.simhashHex = intToHex n)
    (hs : s.Supplied) (hrun : runMatches c envelope value threshold now ms s = some (s', reply)) :
    Grows s s' ∧ s'.index = s.index ∧
      (∀ pair method', method' ≠ c.name →
        s'.linkages.linkOf pair method' = s.linkages.linkOf pair method') ∧
      ((∀ row, ms.findSome? (s.linkWith envelope c) = some row → row.state ≠ .proposed) →
        s.Named → s'.Named) ∧
      (∀ row, ms.findSome? (s.linkWith envelope c) = some row → row.state = .proposed →
        s'.Dangling) := by
  induction ms generalizing s with
  | nil =>
    obtain ⟨rfl, -⟩ := Prod.mk.inj (Option.some.inj hrun)
    exact ⟨hs.grows_self, rfl, fun _ _ _ => rfl, fun _ hnamed => hnamed, fun row hrow => by
      cases hrow⟩
  | cons m ms ih =>
    obtain ⟨hne, n, hhex⟩ := hms m List.mem_cons_self
    obtain ⟨result, hcompare, hscore⟩ := compare_intToHex c threshold hlength hvalue n
    obtain ⟨hm, hnodup⟩ := List.nodup_cons.mp hnodup
    rw [runMatches, hhex, hcompare] at hrun
    dsimp only at hrun
    cases hemit : s.emitProposal envelope m.actorId c.name result (c.slotLanguage envelope) now with
    | none =>
      rw [hemit] at hrun
      cases hrun
    | some emitted =>
      obtain ⟨s₁, reply₁⟩ := emitted
      rw [hemit] at hrun
      obtain ⟨hgrows, hindex, hother, hcases⟩ := emitProposal_spec hs (Ne.symm hne) hscore hemit
      -- what the rest of the loop reads of the linkages is as before
      have hrest :
          ms.findSome? (s₁.linkWith envelope c) = ms.findSome? (s.linkWith envelope c) := by
        refine findSome?_congr fun m' hm' => hother _ _ (Or.inl fun hpair => hm ?_)
        exact sortedPair_inj hpair ▸ List.mem_map_of_mem hm'
      have hfirst : (m :: ms).findSome? (s.linkWith envelope c) =
          (s.linkWith envelope c m).or (ms.findSome? (s.linkWith envelope c)) := by
        rw [List.findSome?_cons]
        cases s.linkWith envelope c m <;> rfl
      have hothers : ∀ pair method', method' ≠ c.name →
          s₁.linkages.linkOf pair method' = s.linkages.linkOf pair method' :=
        fun pair method' hmethod => hother pair method' (Or.inr hmethod)
      rw [hfirst]
      obtain ⟨hlink, rfl, hkeeps⟩ | ⟨row, hlink, hopen, hdangling⟩ |
        ⟨row, hlink, hdecided, ⟨e, rfl⟩, hkeeps⟩ := hcases
      · obtain ⟨hgrows', hindex', hothers', hkeeps', hbreaks'⟩ :=
          ih hnodup (fun m' hm' => hms m' (List.mem_cons_of_mem m hm')) hgrows.supplied hrun
        rw [linkWith, hlink, Option.none_or]
        rw [hrest] at hkeeps' hbreaks'
        exact ⟨hgrows.trans hgrows', hindex'.trans hindex,
          fun pair method' hmethod => (hothers' pair method' hmethod).trans
            (hothers pair method' hmethod),
          fun hdecided hnamed => hkeeps' hdecided (hkeeps hnamed), hbreaks'⟩
      · -- whatever comes after, the proposal that was published stays unnamed
        rw [linkWith, hlink, Option.some_or]
        have hlater : Grows s₁ s' ∧ s'.index = s₁.index ∧ ∀ pair method', method' ≠ c.name →
            s'.linkages.linkOf pair method' = s₁.linkages.linkOf pair method' := by
          cases reply₁ with
          | error e =>
            obtain ⟨rfl, -⟩ := Prod.mk.inj (Option.some.inj hrun)
            exact ⟨hgrows.supplied.grows_self, rfl, fun _ _ _ => rfl⟩
          | ok =>
            obtain ⟨hgrows', hindex', hothers', -⟩ :=
              ih hnodup (fun m' hm' => hms m' (List.mem_cons_of_mem m hm')) hgrows.supplied hrun
            exact ⟨hgrows', hindex', hothers'⟩
        obtain ⟨hgrows', hindex', hothers'⟩ := hlater
        refine ⟨hgrows.trans hgrows', hindex'.trans hindex,
          fun pair method' hmethod => (hothers' pair method' hmethod).trans
            (hothers pair method' hmethod), fun hdecided => ?_, fun _ _ _ => ?_⟩
        · exact absurd hopen (hdecided row rfl)
        · exact hdangling.grows hgrows'
      · obtain ⟨rfl, -⟩ := Prod.mk.inj (Option.some.inj hrun)
        rw [linkWith, hlink, Option.some_or]
        refine ⟨hgrows, hindex, hothers, fun _ => hkeeps, fun row' hrow' hopen => ?_⟩
        exact absurd (Option.some.inj hrow' ▸ hopen) hdecided

variable {thresholds : LinkerThresholds}

/-- The signature of the actor of a profile is not among the matches of the profile. -/
theorem matched_upsert (thresholds : LinkerThresholds)
    (h : upsertSimhash index envelope.actorId primitiveName value = .ok index') (c : Comparator) :
    matched thresholds index' envelope c = matched thresholds index envelope c := by
  unfold matched
  simp only [nearestSimhashes_upsert h]

/-- What a comparator does. The other comparators read what they would have read before it; it goes
wrong exactly when the first linkage that its matches meet is open. -/
structure Ran (thresholds : LinkerThresholds) (envelope : ProfileCurrentEnvelope) (c : Comparator)
    (s s' : Linker) : Prop where
  grows : Grows s s'
  matches_eq : ∀ c',
    matched thresholds s'.index envelope c' = matched thresholds s.index envelope c'
  links_eq : ∀ pair method', method' ≠ c.name →
    s'.linkages.linkOf pair method' = s.linkages.linkOf pair method'
  keeps : (∀ row, s.firstLinked thresholds envelope c = some row → row.state ≠ .proposed) →
    s.Named → s'.Named
  breaks : ∀ row, s.firstLinked thresholds envelope c = some row → row.state = .proposed →
    s'.Dangling

/-- A comparator without matches stores at most a signature. -/
theorem Ran.quiet (hs : s.Supplied) (hnone : matched thresholds s.index envelope c = [])
    (hindex : ∀ c',
      matched thresholds index envelope c' = matched thresholds s.index envelope c') :
    Ran thresholds envelope c s { s with index } where
  grows := hs.grows_index index
  matches_eq := hindex
  links_eq := fun _ _ _ => rfl
  keeps := fun _ hnamed => hnamed
  breaks := fun row hrow => by
    rw [firstLinked, hnone] at hrow
    cases hrow

theorem runComparator_spec (hs : s.Supplied)
    (hrun : runComparator thresholds envelope now c s = some (s', reply)) :
    Ran thresholds envelope c s s' := by
  unfold runComparator at hrun
  cases hvalue : c.slotValue envelope with
  | none =>
    rw [hvalue] at hrun
    obtain ⟨rfl, -⟩ := Prod.mk.inj (Option.some.inj hrun)
    exact .quiet hs (by simp only [matched, hvalue]) fun _ => rfl
  | some value =>
    rw [hvalue] at hrun
    cases hthreshold : thresholds.forComparator c.name (c.slotLanguage envelope) with
    | none =>
      simp only [hthreshold] at hrun
      obtain ⟨rfl, -⟩ := Prod.mk.inj (Option.some.inj hrun)
      exact .quiet hs (by simp only [matched, hvalue, hthreshold]) fun _ => rfl
    | some threshold =>
      simp only [hthreshold] at hrun
      have hmatched : matched thresholds s.index envelope c =
          if value.length = 16 then
            match nearestSimhashes s.index c.primitiveName value threshold envelope.actorId with
            | .ok found => found
            | .error _ => []
          else [] := by
        simp only [matched, hvalue, hthreshold]
      cases hupsert : upsertSimhash s.index envelope.actorId c.primitiveName value with
      | error e =>
        simp only [hupsert] at hrun
        obtain ⟨rfl, -⟩ := Prod.mk.inj (Option.some.inj hrun)
        refine .quiet hs ?_ fun _ => rfl
        rw [hmatched, nearestSimhashes_of_upsert hupsert, ite_self]
      | ok index =>
        simp only [hupsert] at hrun
        have hindex := matched_upsert thresholds hupsert
        rw [nearestSimhashes_upsert hupsert] at hrun
        cases hnearest : nearestSimhashes s.index c.primitiveName value threshold
            envelope.actorId with
        | error e =>
          simp only [hnearest] at hrun hmatched
          obtain ⟨rfl, -⟩ := Prod.mk.inj (Option.some.inj hrun)
          exact .quiet hs (by rw [hmatched, ite_self]) hindex
        | ok found =>
          simp only [hnearest] at hrun hmatched
          obtain ⟨hint, hnodup, hfound⟩ := nearestSimhashes_spec hnearest
          by_cases hlength : value.length = 16
          · rw [if_pos hlength] at hmatched
            have hindexed := hs.grows_index index
            obtain ⟨hgrows, hindex', hothers, hkeeps, hbreaks⟩ :=
              runMatches_spec hlength hint hnodup hfound hindexed.supplied hrun
            refine ⟨hindexed.trans hgrows, fun c' => ?_, hothers, ?_, ?_⟩
            · rw [hindex']
              exact hindex c'
            · rw [firstLinked, hmatched]
              exact hkeeps
            · rw [firstLinked, hmatched]
              exact hbreaks
          · rw [if_neg hlength] at hmatched
            -- the first comparison raises, if there is one
            have hs' : s' = { s with index } := by
              cases found with
              | nil => exact (Prod.mk.inj (Option.some.inj hrun)).1.symm
              | cons m ms =>
                obtain ⟨e, he⟩ := compare_of_length_ne c threshold hlength m.simhashHex
                rw [runMatches, he] at hrun
                exact (Prod.mk.inj (Option.some.inj hrun)).1.symm
            rw [hs']
            exact .quiet hs hmatched hindex

/-! ## Runs -/

/-- The comparators of a profile keep the proposals named exactly when none of them meets an open
linkage first. -/
theorem runComparators_spec {cs : List Comparator} (hnames : (cs.map Comparator.name).Nodup)
    (hs : s.Supplied) (hrun : runComparators thresholds envelope now cs s = some s') :
    Grows s s' ∧
      ((∀ c ∈ cs, ∀ row, s.firstLinked thresholds envelope c = some row → row.state ≠ .proposed) →
        s.Named → s'.Named) ∧
      (∀ c ∈ cs, ∀ row, s.firstLinked thresholds envelope c = some row → row.state = .proposed →
        s'.Dangling) := by
  induction cs generalizing s with
  | nil =>
    obtain rfl := Option.some.inj hrun
    exact ⟨hs.grows_self, fun _ hnamed => hnamed, fun c hc => absurd hc List.not_mem_nil⟩
  | cons c cs ih =>
    rw [runComparators] at hrun
    obtain ⟨hname, hnames⟩ := List.nodup_cons.mp hnames
    cases hone : runComparator thresholds envelope now c s with
    | none =>
      rw [hone] at hrun
      cases hrun
    | some ran =>
      obtain ⟨s₁, reply₁⟩ := ran
      rw [hone] at hrun
      obtain ⟨hgrows, hmatched, hothers, hkeeps, hbreaks⟩ := runComparator_spec hs hone
      obtain ⟨hgrows', hkeeps', hbreaks'⟩ := ih hnames hgrows.supplied hrun
      -- the comparators after it read what they would have read before it
      have hlater : ∀ c' ∈ cs,
          s₁.firstLinked thresholds envelope c' = s.firstLinked thresholds envelope c' := by
        intro c' hc'
        have hne : c'.name ≠ c.name := fun heq => hname (heq ▸ List.mem_map_of_mem hc')
        rw [firstLinked, firstLinked, hmatched]
        exact findSome?_congr fun m _ => hothers _ _ hne
      refine ⟨hgrows.trans hgrows', fun hdecided hnamed => ?_, fun c' hc' row hrow hopen => ?_⟩
      · refine hkeeps' (fun c' hc' => ?_) (hkeeps (hdecided c List.mem_cons_self) hnamed)
        rw [hlater c' hc']
        exact hdecided c' (List.mem_cons_of_mem c hc')
      · obtain rfl | hc' := List.mem_cons.mp hc'
        · exact (hbreaks row hrow hopen).grows hgrows'
        · exact hbreaks' c' hc' row (hlater c' hc' ▸ hrow) hopen

theorem comparatorRegistry_names : (comparatorRegistry.map Comparator.name).Nodup := by decide

/-- A decision keeps what a proposal names. -/
theorem grows_transition (hs : s.Supplied) (linkageId : Uuid) (target : LinkageState)
    (decidedBy : String) (notes : Option String) (now : ℤ) :
    Grows s { s with
      linkages := (s.linkages.transitionLinkage linkageId target decidedBy notes now).1 } := by
  obtain ⟨row, -, -, hreply⟩ | ⟨-, e, hreply⟩ :=
    LinkageTable.transitionLinkage_spec s.linkages linkageId target decidedBy notes now
  · rw [hreply]
    exact hs.grows_modify linkageId (LinkageTable.decided_link target decidedBy notes now)
  · rw [hreply]
    exact hs.grows_self

variable {a : LinkerStep}

/-- A step from named proposals leads to named proposals exactly when it meets no open linkage. -/
theorem named_step_iff (hs : s.Supplied) (hnamed : s.Named)
    (hstep : step thresholds s a = some s') :
    s'.Supplied ∧ (s'.Named ↔ Unopened thresholds s a) := by
  cases a with
  | profile envelope now =>
    obtain ⟨hgrows, hkeeps, hbreaks⟩ := runComparators_spec comparatorRegistry_names hs hstep
    refine ⟨hgrows.supplied, fun hnamed' c hc row hrow hopen => ?_, fun hdecided => ?_⟩
    · exact (hbreaks c hc row hrow hopen).not_named hnamed'
    · exact hkeeps hdecided hnamed
  | transition linkageId target decidedBy notes now =>
    obtain rfl := Option.some.inj hstep
    have hgrows := grows_transition hs linkageId target decidedBy notes now
    exact ⟨hgrows.supplied, fun _ => trivial, fun _ => hnamed.grows hgrows fun env => Or.inl⟩

/-- **Linkage ids.** In every run of profiles and decisions, all published proposals name the
linkage of their pair and method throughout exactly when no comparator of a profile, going through
its matches, meets a linkage that is still a proposal before it meets a decided one. -/
theorem named_iff_unopened (thresholds : LinkerThresholds) {uuids : List Uuid}
    (hfresh : uuids.Nodup) {as : List LinkerStep}
    (hrun : run (step thresholds) (init uuids) as = some s) :
    Throughout (step thresholds) Named (init uuids) as ↔
      Along (step thresholds) (Unopened thresholds) (init uuids) as := by
  have hinit : (init uuids).Supplied ∧ (init uuids).Named :=
    ⟨⟨hfresh, fun row hrow => absurd hrow (Table.not_mem_empty row)⟩,
      fun env henv => absurd henv List.not_mem_nil⟩
  refine throughout_iff_along (I := fun s => s.Supplied ∧ s.Named) (fun h => h.2) ?_ ?_ hinit hrun
  · intro s a s' h hunopened hstep
    obtain ⟨hs', hiff⟩ := named_step_iff h.1 h.2 hstep
    exact ⟨hs', hiff.mpr hunopened⟩
  · intro s a s' h hstep hnamed
    exact (named_step_iff h.1 h.2 hstep).2.mp hnamed

/-- A profile whose function words have the given simhash. -/
def functionWordProfile (actorId : Uuid) (value : String) : ProfileCurrentEnvelope :=
  { actorId
    version := 1
    roleSignal := none
    roleConfidence := 0
    stylometricSummary := [("function_word_simhash", ⟨some value, some "en"⟩)]
    lexicalSummary := []
    derivedAt := 0 }

/-- Two actors with similar function words are linked, and the profile of one comes again. -/
def repeatedProfile : List LinkerStep :=
  [.profile (functionWordProfile 1 "00000000000000ff") 5,
    .profile (functionWordProfile 2 "00000000000000fe") 6,
    .profile (functionWordProfile 2 "00000000000000fe") 7]

/-- The second proposal of an open linkage is published with an id that nothing has. -/
theorem second_proposal_unnamed :
    ∃ s, run (step {}) (init [100, 101]) repeatedProfile = some s ∧ ¬ s.Named := by
  decide +kernel

/-- The first two profiles keep the proposals named. -/
theorem named_first_proposal :
    Throughout (step {}) Named (init [100, 101]) (repeatedProfile.take 2) ↔
      Along (step {}) (Unopened {}) (init [100, 101]) (repeatedProfile.take 2) := by
  have hrun : ∃ s, run (step {}) (init [100, 101]) (repeatedProfile.take 2) = some s ∧ True := by
    decide +kernel
  obtain ⟨s, hs, -⟩ := hrun
  exact named_iff_unopened {} (by decide) hs

end Linker

end Eyenet
