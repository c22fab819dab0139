import Eyenet.Json
import Eyenet.PyJson
import Mathlib.Data.List.Chain

/-!
# What the interpreter encodes

`json.dumps` as the interpreter has it, compact or indented, with the keys of every dict in order.

* `PyJson.loads_dumps` — a value that was dumped is read back, up to the order of the keys.
* `PyJson.dumps_injective` — so the text determines the value up to this order.
-/

namespace Eyenet

open Framing

namespace PyJson

/-! ## String literals -/

/-- Text as the decoder sees it. -/
def chars (cs : List Char) : PyStr := cs.map .scalar

@[simp] theorem chars_nil : chars [] = [] := rfl

@[simp] theorem chars_cons (c : Char) (cs : List Char) : chars (c :: cs) = .scalar c :: chars cs :=
  rfl

@[simp] theorem chars_append (cs ds : List Char) : chars (cs ++ ds) = chars cs ++ chars ds :=
  List.map_append

namespace PyChar

/-- The code point. -/
def code : PyChar → ℕ
  | scalar c => c.toNat
  | surrogate n => 55296 + n

def IsHigh (c : PyChar) : Prop := 55296 ≤ c.code ∧ c.code < 56320

def IsLow (c : PyChar) : Prop := 56320 ≤ c.code ∧ c.code < 57344

instance (c : PyChar) : Decidable c.IsHigh := inferInstanceAs (Decidable (_ ∧ _))

instance (c : PyChar) : Decidable c.IsLow := inferInstanceAs (Decidable (_ ∧ _))

theorem not_isHigh_scalar (c : Char) : ¬ (scalar c).IsHigh := by
  have hc := Json.not_surrogate c
  rw [IsHigh, code]
  omega

theorem not_isLow_scalar (c : Char) : ¬ (scalar c).IsLow := by
  have hc := Json.not_surrogate c
  rw [IsLow, code]
  omega

theorem ofUnit_surrogate (n : Fin 2048) : ofUnit (55296 + n) = surrogate n := by
  have hn := n.isLt
  rw [ofUnit, dif_pos ⟨Nat.le_add_right _ _, by omega⟩]
  exact congrArg surrogate (Fin.ext (show 55296 + n.val - 55296 = n.val by omega))

theorem ofUnit_scalar (c : Char) : ofUnit c.toNat = scalar c := by
  have hc := Json.not_surrogate c
  rw [ofUnit, dif_neg (by omega), Char.ofNat_toNat]

end PyChar

/-- No two surrogates stand for one character. -/
def Joined (s : PyStr) : Prop := s.IsChain fun a b => ¬ (a.IsHigh ∧ b.IsLow)

/-- A character in a string literal, which is ASCII. -/
def escapeChar : PyChar → List Char
  | .scalar c => Json.escapeChar c
  | .surrogate n => Json.escapeUnit (55296 + n)

/-- A string literal. -/
def quote (s : PyStr) : List Char := '"' :: (s.flatMap escapeChar ++ ['"'])

theorem hex4_unit {n : ℕ} (h : n < 65536) (rest : PyStr) :
    hex4 (chars (numeral 16 Nat.digitChar 4 n) ++ rest) = some (n, rest) := by
  have hdigit (k : ℕ) : Eyenet.hexValue (Nat.digitChar (k % 16)) = some (k % 16) :=
    hexValue_digitChar _ (Nat.mod_lt _ (by decide))
  simp only [numeral, List.nil_append, List.cons_append, chars_cons, chars_nil, hex4,
    PyChar.hexValue, hdigit, Option.some.injEq, Prod.mk.injEq, and_true]
  omega

/-- A text that does not go on with the escape of a low surrogate. -/
def NotLow (rest : PyStr) : Prop :=
  ∀ cs, rest = .scalar '\\' :: .scalar 'u' :: cs →
    ∃ n rest', hex4 cs = some (n, rest') ∧ ¬ (56320 ≤ n ∧ n < 57344)

theorem unicodeEscape_unit {n : ℕ} (hn : n < 65536) (rest : PyStr)
    (hrest : 55296 ≤ n ∧ n < 56320 → NotLow rest) :
    unicodeEscape (chars (numeral 16 Nat.digitChar 4 n) ++ rest) =
      some (PyChar.ofUnit n, rest) := by
  rw [unicodeEscape, hex4_unit hn]
  dsimp only
  split_ifs with hhigh
  · split
    · next cs =>
      obtain ⟨m, rest', hm, hlow⟩ := hrest hhigh cs rfl
      rw [hm]
      dsimp only
      rw [if_neg hlow]
    · rfl
  · rfl

theorem unicodeEscape_pair {c : Char} (h : 65536 ≤ c.toNat) (rest : PyStr) :
    unicodeEscape (chars (numeral 16 Nat.digitChar 4 (55296 + (c.toNat - 65536) / 1024)) ++
      .scalar '\\' :: .scalar 'u' ::
        (chars (numeral 16 Nat.digitChar 4 (56320 + (c.toNat - 65536) % 1024)) ++ rest)) =
      some (.scalar c, rest) := by
  have hc := Json.not_surrogate c
  have hhigh : 55296 ≤ 55296 + (c.toNat - 65536) / 1024 ∧
      55296 + (c.toNat - 65536) / 1024 < 56320 := by
    omega
  have hlow : 56320 ≤ 56320 + (c.toNat - 65536) % 1024 ∧
      56320 + (c.toNat - 65536) % 1024 < 57344 := by
    omega
  have hvalue : 65536 + (55296 + (c.toNat - 65536) / 1024 - 55296) * 1024 +
      (56320 + (c.toNat - 65536) % 1024 - 56320) = c.toNat := by
    omega
  rw [unicodeEscape, hex4_unit (by omega)]
  simp only [if_pos hhigh]
  rw [hex4_unit (by omega)]
  simp only [if_pos hlow, hvalue, Char.ofNat_toNat]

theorem backslash_of_escapes : ∀ x ∈ Json.escapes, x.2 ≠ 'u' ∧
    backslash.lookup (.scalar x.2) = some (.scalar x.1) := by
  decide

/-- How a character is written: as it is, behind a backslash, or by its code units. -/
theorem escapeChar_cases (c : PyChar) :
    (∃ d, escapeChar c = [d] ∧ c = .scalar d ∧ d ≠ '"' ∧ d ≠ '\\' ∧ ' ' ≤ d) ∨
    (∃ e, escapeChar c = ['\\', e] ∧ e ≠ 'u' ∧ backslash.lookup (.scalar e) = some c) ∨
    (escapeChar c = Json.escapeUnit c.code ∧ c.code < 65536 ∧ PyChar.ofUnit c.code = c) ∨
    ∃ d, c = .scalar d ∧ 65536 ≤ d.toNat ∧
      escapeChar c = Json.escapeUnit (55296 + (d.toNat - 65536) / 1024) ++
        Json.escapeUnit (56320 + (d.toNat - 65536) % 1024) := by
  cases c with
  | surrogate n =>
    refine Or.inr (Or.inr (Or.inl ⟨rfl, ?_, PyChar.ofUnit_surrogate n⟩))
    have hn := n.isLt
    rw [PyChar.code]
    omega
  | scalar c =>
    rw [escapeChar, Json.escapeChar]
    cases hescape : Json.escapes.lookup c with
    | some e =>
      obtain ⟨l₁, l₂, hl, -⟩ := List.lookup_eq_some_iff.mp hescape
      have hmem : (c, e) ∈ Json.escapes := hl ▸ List.mem_append_right l₁ List.mem_cons_self
      obtain ⟨hunicode, hback⟩ := backslash_of_escapes _ hmem
      exact Or.inr (Or.inl ⟨e, rfl, hunicode, hback⟩)
    | none =>
      have hquote : c ≠ '"' := by
        rintro rfl
        exact absurd hescape (by decide)
      have hslash : c ≠ '\\' := by
        rintro rfl
        exact absurd hescape (by decide)
      dsimp only
      split_ifs with hprint hunit
      · exact Or.inl ⟨c, rfl, rfl, hquote, hslash, hprint.1⟩
      · exact Or.inr (Or.inr (Or.inl ⟨rfl, hunit, PyChar.ofUnit_scalar c⟩))
      · exact Or.inr (Or.inr (Or.inr ⟨c, rfl, not_lt.mp hunit, rfl⟩))

/-- An escaped character is read back. -/
theorem nextChar_escapeChar (c : PyChar) {rest : PyStr} (hrest : c.IsHigh → NotLow rest) :
    nextChar (chars (escapeChar c) ++ rest) = some (some c, rest) := by
  rcases escapeChar_cases c with ⟨d, hd, rfl, hquote, hslash, hprint⟩ | ⟨e, he, hunicode, hback⟩ |
    ⟨hunit, hcode, hof⟩ | ⟨d, rfl, hpair, hunits⟩
  · rw [hd]
    simp [nextChar, hquote, hslash, PyChar.isControl, Char.not_lt.mpr hprint]
  · rw [he]
    simp [nextChar, escape, hunicode, hback]
  · have hunicode := unicodeEscape_unit hcode rest hrest
    rw [hunit, Json.escapeUnit]
    simp [nextChar, escape, hunicode, hof]
  · have hunicode := unicodeEscape_pair hpair rest
    rw [hunits, Json.escapeUnit, Json.escapeUnit]
    simp [nextChar, escape, hunicode]

/-- What is written for a character other than a low surrogate is no escape of one. -/
theorem notLow_escapeChar {c : PyChar} (h : ¬ c.IsLow) (rest : PyStr) :
    NotLow (chars (escapeChar c) ++ rest) := by
  intro cs hcs
  rcases escapeChar_cases c with ⟨d, hd, -, -, hslash, -⟩ | ⟨e, he, hunicode, -⟩ |
    ⟨hunit, hcode, -⟩ | ⟨d, -, hpair, hunits⟩
  · rw [hd] at hcs
    exact absurd (PyChar.scalar.inj (List.cons.inj hcs).1) hslash
  · rw [he] at hcs
    exact absurd (PyChar.scalar.inj (List.cons.inj (List.cons.inj hcs).2).1) hunicode
  · rw [hunit] at hcs
    obtain rfl := (List.cons.inj (List.cons.inj hcs).2).2
    exact ⟨_, rest, hex4_unit hcode rest, h⟩
  · have hd := Json.not_surrogate d
    rw [hunits, chars_append, List.append_assoc] at hcs
    obtain rfl := (List.cons.inj (List.cons.inj hcs).2).2
    exact ⟨_, _, hex4_unit (by omega) _, by omega⟩

theorem notLow_quote (rest : PyStr) : NotLow (.scalar '"' :: rest) := by
  intro cs hcs
  exact absurd (PyChar.scalar.inj (List.cons.inj hcs).1) (by decide)

/-- What follows the opening quote of a literal is read back. -/
theorem scanString_escaped {s : PyStr} (h : Joined s) (rest : PyStr) :
    scanString (chars (s.flatMap escapeChar) ++ .scalar '"' :: rest) = some (s, rest) := by
  induction s with
  | nil => exact scanString_end (by simp [nextChar])
  | cons c s ih =>
    have htail := ih h.of_cons
    have hrest : c.IsHigh →
        NotLow (chars (s.flatMap escapeChar) ++ .scalar '"' :: rest) := by
      intro hhigh
      cases s with
      | nil => exact notLow_quote rest
      | cons d s =>
        have hd : ¬ d.IsLow := fun hlow => (List.isChain_cons_cons.mp h).1 ⟨hhigh, hlow⟩
        rw [List.flatMap_cons, chars_append, List.append_assoc]
        exact notLow_escapeChar hd _
    rw [List.flatMap_cons, chars_append, List.append_assoc,
      scanString_char (nextChar_escapeChar c hrest), htail]
    rfl

/-! ## Number literals -/

/-- The characters of number literals. -/
def isNumeric (c : PyChar) : Bool :=
  c.isDigit || c ∈ ([.scalar '.', .scalar 'e', .scalar 'E', .scalar '+', .scalar '-'] : PyStr)

/-- A text that does not prolong a number. -/
def Follows (rest : PyStr) : Prop := ∀ c ∈ rest.head?, isNumeric c = false

section Numbers

variable {limits : Limits} {cs rest : PyStr}

theorem follows_cons {c : PyChar} (h : isNumeric c = false) : Follows (c :: rest) := by
  rintro d hd
  obtain rfl := Option.some.inj hd
  exact h

theorem not_isDigit_of_isNumeric {c : PyChar} (h : isNumeric c = false) : c.isDigit = false :=
  (Bool.or_eq_false_iff.mp h).1

theorem takeWhile_append (h : Follows rest) (cs : PyStr) :
    (cs ++ rest).takeWhile PyChar.isDigit = cs.takeWhile PyChar.isDigit := by
  induction cs with
  | nil =>
    cases rest with
    | nil => rfl
    | cons c rest => simp [not_isDigit_of_isNumeric (h c rfl)]
  | cons c cs ih => simp only [List.cons_append, List.takeWhile_cons, ih]

theorem integer_append (h : Follows rest) (cs : PyStr) : integer (cs ++ rest) = integer cs := by
  cases cs with
  | nil =>
    cases rest with
    | nil => rfl
    | cons c rest =>
      have hdigit := not_isDigit_of_isNumeric (h c rfl)
      have hzero : c ≠ .scalar '0' := by
        rintro rfl
        exact absurd hdigit (by decide)
      simp [integer, hzero, hdigit]
  | cons c cs =>
    simp only [List.cons_append, integer]
    rw [← List.cons_append, takeWhile_append h]

theorem fraction_append (h : Follows rest) (cs : PyStr) : fraction (cs ++ rest) = fraction cs := by
  cases cs with
  | nil =>
    cases rest with
    | nil => rfl
    | cons c rest =>
      have hpoint : c ≠ .scalar '.' := by
        rintro rfl
        exact absurd (h _ rfl) (by decide)
      simp [fraction, hpoint]
  | cons c cs => simp only [List.cons_append, fraction, takeWhile_append h]

theorem sign_append (h : Follows rest) (cs : PyStr) : sign (cs ++ rest) = sign cs := by
  cases cs with
  | nil =>
    cases rest with
    | nil => rfl
    | cons c rest =>
      have hsign : ¬ (c = .scalar '-' ∨ c = .scalar '+') := by
        rintro (rfl | rfl)
        · exact absurd (h _ rfl) (by decide)
        · exact absurd (h _ rfl) (by decide)
      simp only [List.nil_append, sign, if_neg hsign]
  | cons c cs => rfl

theorem exponent_append (h : Follows rest) (cs : PyStr) : exponent (cs ++ rest) = exponent cs := by
  cases cs with
  | nil =>
    cases rest with
    | nil => rfl
    | cons c rest =>
      have hexp : ¬ (c = .scalar 'e' ∨ c = .scalar 'E') := by
        rintro (rfl | rfl)
        · exact absurd (h _ rfl) (by decide)
        · exact absurd (h _ rfl) (by decide)
      simp [exponent, hexp]
  | cons c cs =>
    have hle : (sign cs).length ≤ cs.length := (sign_isPrefix cs).length_le
    simp only [List.cons_append, exponent, sign_append h, List.drop_append_of_le_length hle,
      takeWhile_append h]

/-- What follows a number does not matter to it. -/
theorem scanNumber_append (h : Follows rest) (cs : PyStr) :
    scanNumber limits (cs ++ rest) =
      (scanNumber limits cs).map fun x => (x.1, x.2 ++ rest) := by
  have hminus : ((cs ++ rest).head? = some (.scalar '-')) ↔ cs.head? = some (.scalar '-') := by
    cases cs with
    | nil =>
      refine iff_of_false (fun hhead => ?_) (fun hhead => by cases hhead)
      exact absurd (h _ hhead) (by decide)
    | cons c cs => rfl
  simp only [scanNumber, hminus]
  generalize hm : (if cs.head? = some (.scalar '-') then [PyChar.scalar '-'] else []) = minus
  have hle : minus.length ≤ cs.length := by
    rw [← hm]
    split_ifs with hhead
    · obtain ⟨tail, rfl⟩ := List.head?_eq_some_iff.mp hhead
      exact Nat.succ_le_succ (Nat.zero_le _)
    · exact Nat.zero_le _
  rw [List.drop_append_of_le_length hle, integer_append h,
    List.drop_append_of_le_length (integer_isPrefix _).length_le, fraction_append h,
    List.drop_append_of_le_length (fraction_isPrefix _).length_le, exponent_append h,
    List.drop_append_of_le_length (exponent_isPrefix _).length_le]
  split_ifs <;> rfl

/-- A text that starts like a number. -/
def NumberHead (cs : PyStr) : Prop :=
  ∃ c tail, cs = c :: tail ∧
    (c.isDigit = true ∨ c = .scalar '-' ∧ ∃ d ∈ tail.head?, d.isDigit = true)

theorem NumberHead.append (h : NumberHead cs) (rest : PyStr) : NumberHead (cs ++ rest) := by
  obtain ⟨c, tail, rfl, hc | ⟨hc, d, hd, hdigit⟩⟩ := h
  · exact ⟨c, tail ++ rest, rfl, Or.inl hc⟩
  · refine ⟨c, tail ++ rest, rfl, Or.inr ⟨hc, d, ?_, hdigit⟩⟩
    obtain ⟨tail', rfl⟩ := List.head?_eq_some_iff.mp hd
    rfl

theorem isDigit_of_integer_ne_nil (h : integer cs ≠ []) : ∃ d ∈ cs.head?, d.isDigit = true := by
  cases cs with
  | nil => exact absurd rfl h
  | cons c cs =>
    refine ⟨c, rfl, ?_⟩
    rw [integer] at h
    split_ifs at h with hzero
    · rw [hzero]
      decide
    · by_contra hdigit
      exact h (List.takeWhile_cons_of_neg hdigit)

theorem numberHead_of_scanNumber {x : PyValue × PyStr} (h : scanNumber limits cs = .ok x) :
    NumberHead cs := by
  have hdigits : integer (cs.drop
      (if cs.head? = some (.scalar '-') then [PyChar.scalar '-'] else []).length) ≠ [] := by
    intro hnil
    simp only [scanNumber, if_pos hnil] at h
    cases h
  obtain ⟨d, hd, hdigit⟩ := isDigit_of_integer_ne_nil hdigits
  split_ifs at hd with hhead
  · obtain ⟨tail, rfl⟩ := List.head?_eq_some_iff.mp hhead
    exact ⟨_, tail, rfl, Or.inr ⟨rfl, d, hd, hdigit⟩⟩
  · obtain ⟨tail, rfl⟩ := List.head?_eq_some_iff.mp hd
    exact ⟨d, tail, rfl, Or.inl hdigit⟩

theorem numberHead_cons_cons {c d : PyChar} {tail : PyStr} : NumberHead (c :: d :: tail) ↔
    c.isDigit = true ∨ c = .scalar '-' ∧ d.isDigit = true := by
  constructor
  · rintro ⟨c, tail, h, hc⟩
    obtain ⟨rfl, rfl⟩ := List.cons.inj h
    refine hc.imp_right fun ⟨hminus, d, hd, hdigit⟩ => ⟨hminus, ?_⟩
    exact Option.some.inj hd ▸ hdigit
  · intro h
    exact ⟨c, _, rfl, h.imp_right fun ⟨hminus, hdigit⟩ => ⟨hminus, d, rfl, hdigit⟩⟩

/-- What starts like a number is no constant. -/
theorem scanScalar_of_numberHead (h : NumberHead cs) :
    scanScalar limits cs = scanNumber limits cs := by
  have hconstants : ∀ p ∈ constants, ∃ c d tail, p.1 = c :: d :: tail ∧
      ¬ (c.isDigit = true ∨ c = .scalar '-' ∧ d.isDigit = true) := by
    simp only [constants, List.forall_mem_cons]
    exact ⟨⟨_, _, _, rfl, by decide⟩, ⟨_, _, _, rfl, by decide⟩, ⟨_, _, _, rfl, by decide⟩,
      ⟨_, _, _, rfl, by decide⟩, ⟨_, _, _, rfl, by decide⟩, ⟨_, _, _, rfl, by decide⟩, by simp⟩
  have hnone : (constants.find? fun p => p.1.isPrefixOf cs) = none := by
    rw [List.find?_eq_none]
    intro p hp hfront
    obtain ⟨rest, rfl⟩ := List.isPrefixOf_iff_prefix.mp hfront
    obtain ⟨c, d, tail, hp, hnot⟩ := hconstants p hp
    rw [hp] at h
    exact hnot (numberHead_cons_cons.mp h)
  rw [scanScalar, hnone]

end Numbers

/-! ## Integers -/

theorem digitsValue_append (cs : PyStr) (c : PyChar) :
    digitsValue (cs ++ [c]) = 10 * digitsValue cs + c.hexValue.getD 0 := by
  rw [digitsValue, List.foldl_append]
  rfl

theorem hexValue_digitChar (n : ℕ) (h : n < 10) :
    (PyChar.scalar (Nat.digitChar n)).hexValue.getD 0 = n := by
  rw [PyChar.hexValue, Eyenet.hexValue_digitChar n (by omega), Option.getD_some]

theorem digitsValue_toDigits (n : ℕ) : digitsValue (chars (Nat.toDigits 10 n)) = n := by
  induction n using Nat.strong_induction_on with
  | _ n ih =>
    by_cases hn : n < 10
    · rw [Nat.toDigits_of_lt_base hn, ← List.nil_append [Nat.digitChar n], chars_append,
        chars_nil, chars_cons, chars_nil, digitsValue_append, hexValue_digitChar n hn]
      simp [digitsValue]
    · rw [Nat.toDigits_of_base_le (by decide) (not_lt.mp hn), chars_append, chars_cons, chars_nil,
        digitsValue_append, ih (n / 10) (by omega), hexValue_digitChar _ (by omega)]
      omega

theorem isDigit_of_mem_toDigits {n : ℕ} {c : PyChar} (h : c ∈ chars (Nat.toDigits 10 n)) :
    c.isDigit = true := by
  obtain ⟨d, hd, rfl⟩ := List.mem_map.mp h
  exact Nat.isDigit_of_mem_toDigits (by decide) (le_refl 10) hd

theorem integer_toDigits (n : ℕ) :
    integer (chars (Nat.toDigits 10 n)) = chars (Nat.toDigits 10 n) := by
  cases hdigits : Nat.toDigits 10 n with
  | nil => exact absurd hdigits Nat.toDigits_ne_nil
  | cons c cs =>
    rw [chars_cons, integer]
    split_ifs with hzero
    · have hall := Json.toDigits_head n (by rw [hdigits, PyChar.scalar.inj hzero]; rfl)
      rw [hdigits] at hall
      rw [(List.cons.inj hall).2]
      rfl
    · rw [← chars_cons, ← hdigits]
      exact List.takeWhile_eq_self_iff.mpr fun d hd => isDigit_of_mem_toDigits hd

theorem scanNumber_intText (n : ℤ) :
    scanNumber unlimited (chars (Json.intText n)) = .ok (.int n, []) := by
  have hne : chars (Nat.toDigits 10 n.natAbs) ≠ [] := fun h =>
    Nat.toDigits_ne_nil (List.map_eq_nil_iff.mp h)
  have hdrop : (chars (Nat.toDigits 10 n.natAbs)).drop
      (chars (Nat.toDigits 10 n.natAbs)).length = [] := List.drop_length
  rw [Json.intText]
  split_ifs with hneg
  · simp only [scanNumber, chars_cons, List.head?_cons, if_true, List.length_cons,
      List.length_nil, List.drop_succ_cons, List.drop_zero, integer_toDigits, if_neg hne, hdrop,
      digitsValue_toDigits]
    simp only [fraction, exponent, List.length_nil, List.drop_nil, List.append_nil, ↓reduceIte,
      isOver, unlimited, Bool.false_eq_true, List.cons_ne_self, Except.ok.injEq, Prod.mk.injEq,
      PyValue.int.injEq, and_true]
    omega
  · have hhead : ¬ (chars (Nat.toDigits 10 n.natAbs)).head? = some (.scalar '-') := by
      intro hhead
      exact absurd (isDigit_of_mem_toDigits (List.mem_of_head? hhead)) (by decide)
    simp only [scanNumber, if_neg hhead, List.length_nil, List.drop_zero, integer_toDigits,
      if_neg hne, hdrop, digitsValue_toDigits]
    simp only [fraction, exponent, List.length_nil, List.drop_nil, List.append_nil, ↓reduceIte,
      isOver, unlimited, Bool.false_eq_true, Except.ok.injEq, Prod.mk.injEq, PyValue.int.injEq,
      and_true]
    omega

/-! ## Floats -/

/-- What `float.__repr__`, or the name of a number that is none, writes in a JSON text. -/
def IsFloatLiteral (literal : PyStr) : Prop :=
  ∃ cs, literal = chars cs ∧
    (literal ∈ [py "NaN", py "Infinity", py "-Infinity"] ∨
      scanNumber unlimited literal = .ok (.float literal, []))

theorem scanScalar_float {literal rest : PyStr} (h : IsFloatLiteral literal)
    (hrest : Follows rest) :
    scanScalar unlimited (literal ++ rest) = .ok (.float literal, rest) := by
  obtain ⟨cs, -, hnamed | hnumber⟩ := h
  · simp only [List.mem_cons, List.not_mem_nil, or_false] at hnamed
    rcases hnamed with rfl | rfl | rfl
    · rfl
    · rfl
    · rfl
  · rw [scanScalar_of_numberHead ((numberHead_of_scanNumber hnumber).append rest),
      scanNumber_append hrest, hnumber]
    rfl

theorem scanScalar_int (n : ℤ) {rest : PyStr} (hrest : Follows rest) :
    scanScalar unlimited (chars (Json.intText n) ++ rest) = .ok (.int n, rest) := by
  have hnumber := scanNumber_intText n
  rw [scanScalar_of_numberHead ((numberHead_of_scanNumber hnumber).append rest),
    scanNumber_append hrest, hnumber]
  rfl

/-! ## Texts -/

/-- How items are set: what stands at a line break, by the depth, and what stands behind a colon. -/
structure Layout where
  newline : ℕ → List Char
  gap : List Char
  newline_blank : ∀ depth, ∀ c ∈ newline depth, isSpace (.scalar c) = true
  gap_blank : ∀ c ∈ gap, isSpace (.scalar c) = true

/-- `separators=(",", ":")` -/
def Layout.compact : Layout where
  newline _ := []
  gap := []
  newline_blank _ _ hc := absurd hc List.not_mem_nil
  gap_blank _ hc := absurd hc List.not_mem_nil

/-- `indent=n, separators=(",", ": ")` -/
def Layout.indented (n : ℕ) : Layout where
  newline depth := '\n' :: List.replicate (n * depth) ' '
  gap := [' ']
  newline_blank depth := List.forall_mem_cons.mpr
    ⟨by decide, fun _ hc => by rw [List.eq_of_mem_replicate hc]; decide⟩
  gap_blank := List.forall_mem_singleton.mpr (by decide)

mutual

/-- The text of a value at a depth. -/
def text (layout : Layout) (depth : ℕ) : PyValue → List Char
  | .none => ['n', 'u', 'l', 'l']
  | .bool true => ['t', 'r', 'u', 'e']
  | .bool false => ['f', 'a', 'l', 's', 'e']
  | .int n => Json.intText n
  | .float literal => literal.filterMap PyChar.toChar
  | .str s => quote s
  | .list [] => ['[', ']']
  | .list (x :: xs) =>
    '[' :: (layout.newline (depth + 1) ++
      (text layout (depth + 1) x ++ textElements layout depth xs))
  | .dict [] => ['\x7b', '\x7d']
  | .dict ((k, v) :: items) =>
    '\x7b' :: (layout.newline (depth + 1) ++ (quote k ++ ':' :: (layout.gap ++
      (text layout (depth + 1) v ++ textItems layout depth items))))

/-- The elements of a list after one of them, and its end. -/
def textElements (layout : Layout) (depth : ℕ) : List PyValue → List Char
  | [] => layout.newline depth ++ [']']
  | x :: xs =>
    ',' :: (layout.newline (depth + 1) ++
      (text layout (depth + 1) x ++ textElements layout depth xs))

/-- The items of a dict after one of them, and its end. -/
def textItems (layout : Layout) (depth : ℕ) : List (PyStr × PyValue) → List Char
  | [] => layout.newline depth ++ ['\x7d']
  | (k, v) :: items =>
    ',' :: (layout.newline (depth + 1) ++ (quote k ++ ':' :: (layout.gap ++
      (text layout (depth + 1) v ++ textItems layout depth items))))

end

/-- The floats: how the float of a literal is written, and the float of an integer, unless it is too
large. What is written for a float is read as this float. -/
structure Floats where
  canon : PyStr → PyStr
  ofInt : ℤ → Option PyStr
  canon_repr : ∀ literal, IsFloatLiteral (canon literal) ∧ canon (canon literal) = canon literal
  ofInt_repr : ∀ n literal, ofInt n = some literal →
    IsFloatLiteral literal ∧ canon literal = literal

/-- What is written for a float. -/
def Floats.IsRepr (floats : Floats) (literal : PyStr) : Prop :=
  IsFloatLiteral literal ∧ floats.canon literal = literal

/-- A value that a text can hold. -/
inductive Readable (floats : Floats) : PyValue → Prop
  | none : Readable floats .none
  | bool (b : Bool) : Readable floats (.bool b)
  | int (n : ℤ) : Readable floats (.int n)
  | float {literal : PyStr} (h : floats.IsRepr literal) : Readable floats (.float literal)
  | str {s : PyStr} (h : Joined s) : Readable floats (.str s)
  | list {xs : List PyValue} (h : ∀ x ∈ xs, Readable floats x) : Readable floats (.list xs)
  | dict {items : List (PyStr × PyValue)} (hkeys : (items.map Prod.fst).Nodup)
      (hjoined : ∀ p ∈ items, Joined p.1) (h : ∀ p ∈ items, Readable floats p.2) :
      Readable floats (.dict items)

theorem Readable.of_mem_list {floats : Floats} {xs : List PyValue} {x : PyValue}
    (h : Readable floats (.list xs)) (hx : x ∈ xs) : Readable floats x := by
  cases h with
  | list hxs => exact hxs x hx

theorem Readable.of_mem_dict {floats : Floats} {d : List (PyStr × PyValue)} {p : PyStr × PyValue}
    (h : Readable floats (.dict d)) (hp : p ∈ d) : Readable floats p.2 := by
  cases h with
  | dict hkeys hjoined hvalues => exact hvalues p hp

section Read

variable {layout : Layout} {floats : Floats} {steps depth level : ℕ} {rest : PyStr}

theorem skipSpace_cons {c : PyChar} (h : isSpace c = false) :
    skipSpace (c :: rest) = c :: rest := by
  simp [skipSpace, h]

theorem skipSpace_blank {cs : List Char} (h : ∀ c ∈ cs, isSpace (.scalar c) = true)
    (rest : PyStr) :
    skipSpace (chars cs ++ rest) = skipSpace rest := by
  induction cs with
  | nil => rfl
  | cons c cs ih =>
    obtain ⟨hc, hcs⟩ := List.forall_mem_cons.mp h
    rw [chars_cons, List.cons_append, skipSpace, List.dropWhile_cons_of_pos hc]
    exact ih hcs

theorem filterMap_chars (cs : List Char) : (chars cs).filterMap PyChar.toChar = cs := by
  induction cs with
  | nil => rfl
  | cons c cs ih => rw [chars_cons, List.filterMap_cons_some (f := PyChar.toChar) rfl, ih]

theorem chars_text_float {literal : PyStr} (h : IsFloatLiteral literal) :
    chars (text layout level (.float literal)) = literal := by
  obtain ⟨cs, rfl, -⟩ := h
  rw [text, filterMap_chars]

/-- A character of a number is no blank, and starts nothing else. -/
theorem of_isNumeric {c : PyChar} (h : isNumeric c = true) : isSpace c = false ∧
    c ∉ ([.scalar '"', .scalar '\x7b', .scalar '[', .scalar ']'] : PyStr) := by
  have hspace : ∀ d ∈ ([.scalar ' ', .scalar '\t', .scalar '\n', .scalar '\r'] : PyStr),
      isNumeric d = false := by
    decide
  have hother : ∀ d ∈ ([.scalar '"', .scalar '\x7b', .scalar '[', .scalar ']'] : PyStr),
      isNumeric d = false := by
    decide
  constructor
  · refine decide_eq_false fun hmem => ?_
    rw [hspace c hmem] at h
    cases h
  · intro hmem
    rw [hother c hmem] at h
    cases h

theorem NumberHead.isNumeric {cs : PyStr} (h : NumberHead cs) :
    ∃ c tail, cs = c :: tail ∧ isNumeric c = true := by
  obtain ⟨c, tail, rfl, hdigit | ⟨rfl, -⟩⟩ := h
  · exact ⟨c, tail, rfl, by rw [PyJson.isNumeric, hdigit, Bool.true_or]⟩
  · exact ⟨_, tail, rfl, by decide⟩

/-- A scalar starts with a character that is no blank and starts nothing else. -/
def ScalarHead (cs : PyStr) : Prop :=
  ∃ c tail, cs = c :: tail ∧ isSpace c = false ∧
    c ∉ ([.scalar '"', .scalar '\x7b', .scalar '[', .scalar ']'] : PyStr)

theorem NumberHead.scalarHead {cs : PyStr} (h : NumberHead cs) : ScalarHead cs := by
  obtain ⟨c, tail, rfl, hc⟩ := h.isNumeric
  exact ⟨c, tail, rfl, of_isNumeric hc⟩

theorem scalarHead_float {literal : PyStr} (h : IsFloatLiteral literal) : ScalarHead literal := by
  obtain ⟨cs, -, hnamed | hnumber⟩ := h
  · simp only [List.mem_cons, List.not_mem_nil, or_false] at hnamed
    rcases hnamed with rfl | rfl | rfl
    · exact ⟨_, _, rfl, by decide⟩
    · exact ⟨_, _, rfl, by decide⟩
    · exact ⟨_, _, rfl, by decide⟩
  · exact (numberHead_of_scanNumber hnumber).scalarHead

theorem scanOnce_scalar {cs : PyStr} (h : ScalarHead cs) :
    scanOnce unlimited (steps + 1) depth (cs ++ rest) = scanScalar unlimited (cs ++ rest) := by
  obtain ⟨c, tail, rfl, -, hc⟩ := h
  simp only [List.mem_cons, List.not_mem_nil, or_false, not_or] at hc
  obtain ⟨hquote, hbrace, hbracket, -⟩ := hc
  rw [List.cons_append, scanOnce, if_neg hquote, if_neg hbrace, if_neg hbracket]

theorem chars_quote (s : PyStr) (rest : PyStr) : chars (quote s) ++ rest =
    .scalar '"' :: (chars (s.flatMap escapeChar) ++ .scalar '"' :: rest) := by
  simp [quote]

/-- A value starts with a character that is neither a blank nor the end of a list. -/
theorem text_head (layout : Layout) (level : ℕ) {v : PyValue} (h : Readable floats v) : ∃ c tail,
    chars (text layout level v) = c :: tail ∧ isSpace c = false ∧ c ≠ .scalar ']' := by
  have hscalar : ∀ {cs}, ScalarHead cs → ∃ c tail, cs = c :: tail ∧ isSpace c = false ∧
      c ≠ .scalar ']' := by
    rintro _ ⟨c, tail, rfl, hspace, hc⟩
    simp only [List.mem_cons, List.not_mem_nil, or_false, not_or] at hc
    exact ⟨c, tail, rfl, hspace, hc.2.2.2⟩
  cases h with
  | none => exact ⟨_, _, rfl, by decide, by decide⟩
  | bool b => cases b <;> exact ⟨_, _, rfl, by decide, by decide⟩
  | int n => exact hscalar (numberHead_of_scanNumber (scanNumber_intText n)).scalarHead
  | float hrepr =>
    rw [chars_text_float hrepr.1]
    exact hscalar (scalarHead_float hrepr.1)
  | str => exact ⟨_, _, rfl, by decide, by decide⟩
  | @list xs => cases xs <;> exact ⟨_, _, rfl, by decide, by decide⟩
  | @dict items => cases items <;> exact ⟨_, _, rfl, by decide, by decide⟩

theorem follows_blank {cs : List Char} (h : ∀ c ∈ cs, isSpace (.scalar c) = true) {c : PyChar}
    (hc : isNumeric c = false) : Follows (chars cs ++ c :: rest) := by
  cases cs with
  | nil => exact follows_cons hc
  | cons d cs =>
    apply follows_cons
    by_contra hd
    have hspace := h d List.mem_cons_self
    rw [(of_isNumeric ((Bool.not_eq_false _).mp hd)).1] at hspace
    cases hspace

end Read

/-! ## Reading what was written -/

/-- What is read in some steps is what was written. -/
structure StepsRead (floats : Floats) (layout : Layout) (steps : ℕ) : Prop where
  once : ∀ {v rest} (depth level : ℕ), Readable floats v →
    (text layout level v).length ≤ steps → Follows rest →
    scanOnce unlimited steps depth (chars (text layout level v) ++ rest) = .ok (v, rest)
  items : ∀ {k v items} (depth level : ℕ) (rest : PyStr), Joined k → Readable floats v →
    (∀ p ∈ items, Joined p.1) → (∀ p ∈ items, Readable floats p.2) →
    (text layout (level + 1) v ++ textItems layout level items).length + 2 ≤ steps →
    scanItems unlimited steps depth (chars (quote k) ++ .scalar ':' :: (chars layout.gap ++
      (chars (text layout (level + 1) v) ++ (chars (textItems layout level items) ++ rest)))) =
      .ok ((k, v) :: items, rest)
  elements : ∀ {x xs} (depth level : ℕ) (rest : PyStr), Readable floats x →
    (∀ y ∈ xs, Readable floats y) →
    (text layout (level + 1) x ++ textElements layout level xs).length ≤ steps →
    scanElements unlimited steps depth (chars (text layout (level + 1) x) ++
      (chars (textElements layout level xs) ++ rest)) = .ok (x :: xs, rest)

section StepsRead

variable {floats : Floats} {layout : Layout} {steps depth level : ℕ} {rest : PyStr}

theorem not_isOver_unlimited (n : ℕ) : ¬ isOver unlimited.maxDepth n = true := Bool.false_ne_true

theorem length_quote (s : PyStr) : 2 ≤ (quote s).length := by
  rw [quote, List.length_cons, List.length_append, List.length_singleton]
  omega

theorem skipSpace_quote (s : PyStr) (rest : PyStr) :
    skipSpace (chars (quote s) ++ rest) = chars (quote s) ++ rest := by
  rw [chars_quote]
  exact skipSpace_cons (by decide)

theorem skipSpace_text {v : PyValue} (h : Readable floats v) (rest : PyStr) :
    skipSpace (chars (text layout level v) ++ rest) = chars (text layout level v) ++ rest := by
  obtain ⟨c, tail, htext, hspace, -⟩ := text_head layout level h
  rw [htext]
  exact skipSpace_cons hspace

/-- The key of an item, and its colon. -/
theorem scanKey_quote {k : PyStr} (hk : Joined k) {v : PyValue} (hv : Readable floats v)
    (rest : PyStr) : scanKey (chars (quote k) ++ .scalar ':' :: (chars layout.gap ++
      (chars (text layout level v) ++ rest))) = some (k, chars (text layout level v) ++ rest) := by
  rw [chars_quote, scanKey, if_pos rfl, scanString_escaped hk]
  dsimp only
  rw [skipSpace_cons (by decide)]
  change some (k, skipSpace (chars layout.gap ++ _)) = _
  rw [skipSpace_blank layout.gap_blank, skipSpace_text hv]

theorem follows_textItems (layout : Layout) (level : ℕ) (items : List (PyStr × PyValue))
    (rest : PyStr) : Follows (chars (textItems layout level items) ++ rest) := by
  cases items with
  | nil =>
    rw [textItems, chars_append, List.append_assoc]
    exact follows_blank (layout.newline_blank level) (by decide)
  | cons p items => exact follows_cons (by decide)

theorem follows_textElements (layout : Layout) (level : ℕ) (xs : List PyValue) (rest : PyStr) :
    Follows (chars (textElements layout level xs) ++ rest) := by
  cases xs with
  | nil =>
    rw [textElements, chars_append, List.append_assoc]
    exact follows_blank (layout.newline_blank level) (by decide)
  | cons x xs => exact follows_cons (by decide)

theorem items_read (ih : StepsRead floats layout steps) {k : PyStr} {v : PyValue}
    {items : List (PyStr × PyValue)} (hk : Joined k) (hv : Readable floats v)
    (hjoined : ∀ p ∈ items, Joined p.1) (hitems : ∀ p ∈ items, Readable floats p.2)
    (hsteps : (text layout (level + 1) v ++ textItems layout level items).length + 2 ≤ steps + 1) :
    scanItems unlimited (steps + 1) depth (chars (quote k) ++ .scalar ':' :: (chars layout.gap ++
      (chars (text layout (level + 1) v) ++ (chars (textItems layout level items) ++ rest)))) =
      .ok ((k, v) :: items, rest) := by
  rw [List.length_append] at hsteps
  have hvalue := ih.once depth (level + 1) hv (by omega)
    (follows_textItems layout level items rest)
  rw [scanItems, scanKey_quote hk hv, orDecodeError, Except.bind, hvalue, Except.bind]
  cases items with
  | nil =>
    rw [textItems, chars_append, List.append_assoc]
    dsimp only
    rw [skipSpace_blank (layout.newline_blank level)]
    rfl
  | cons p items =>
    obtain ⟨k', v'⟩ := p
    obtain ⟨hk', hjoined⟩ := List.forall_mem_cons.mp hjoined
    obtain ⟨hv', hitems⟩ := List.forall_mem_cons.mp hitems
    have hlen := length_quote k'
    simp only [textItems, List.length_cons, List.length_append] at hsteps
    have hrest := ih.items (v := v') depth level rest hk' hv' hjoined hitems
      (by rw [List.length_append]; omega)
    simp only [textItems, chars_cons, chars_append, List.cons_append, List.append_assoc]
    rw [skipSpace_cons (by decide)]
    change Except.map _ (scanItems unlimited steps depth (skipSpace _)) = _
    rw [skipSpace_blank (layout.newline_blank (level + 1)), skipSpace_quote, hrest]
    rfl

theorem elements_read (ih : StepsRead floats layout steps) {x : PyValue} {xs : List PyValue}
    (hx : Readable floats x) (hxs : ∀ y ∈ xs, Readable floats y)
    (hsteps : (text layout (level + 1) x ++ textElements layout level xs).length ≤ steps + 1) :
    scanElements unlimited (steps + 1) depth (chars (text layout (level + 1) x) ++
      (chars (textElements layout level xs) ++ rest)) = .ok (x :: xs, rest) := by
  rw [List.length_append] at hsteps
  have hend : 0 < (textElements layout level xs).length := by
    cases xs <;> simp [textElements]
  have hvalue := ih.once depth (level + 1) hx (by omega)
    (follows_textElements layout level xs rest)
  rw [scanElements, hvalue, Except.bind]
  cases xs with
  | nil =>
    rw [textElements, chars_append, List.append_assoc]
    dsimp only
    rw [skipSpace_blank (layout.newline_blank level)]
    rfl
  | cons y ys =>
    obtain ⟨hy, hys⟩ := List.forall_mem_cons.mp hxs
    simp only [textElements, List.length_cons, List.length_append] at hsteps
    have hrest := ih.elements depth level rest hy hys
      (by rw [List.length_append]; omega)
    simp only [textElements, chars_cons, chars_append, List.cons_append, List.append_assoc]
    rw [skipSpace_cons (by decide)]
    change Except.map _ (scanElements unlimited steps depth (skipSpace _)) = _
    rw [skipSpace_blank (layout.newline_blank (level + 1)), skipSpace_text hy, hrest]
    rfl

theorem once_read (ih : StepsRead floats layout steps) {v : PyValue} (hv : Readable floats v)
    (hsteps : (text layout level v).length ≤ steps + 1) (hrest : Follows rest) :
    scanOnce unlimited (steps + 1) depth (chars (text layout level v) ++ rest) =
      .ok (v, rest) := by
  cases hv with
  | none => rfl
  | bool b => cases b <;> rfl
  | int n =>
    have hhead := (numberHead_of_scanNumber (scanNumber_intText n)).scalarHead
    rw [text, scanOnce_scalar hhead, scanScalar_int n hrest]
  | float hrepr =>
    rw [chars_text_float hrepr.1, scanOnce_scalar (scalarHead_float hrepr.1),
      scanScalar_float hrepr.1 hrest]
  | str hs =>
    rw [text, chars_quote, scanOnce, if_pos rfl, scanString_escaped hs]
    rfl
  | @list xs hxs =>
    cases xs with
    | nil => rfl
    | cons x xs =>
      obtain ⟨hx, hxs⟩ := List.forall_mem_cons.mp hxs
      simp only [text, List.length_cons, List.length_append] at hsteps
      have hinner := ih.elements (depth + 1) level rest hx hxs
        (by rw [List.length_append]; omega)
      simp only [text, chars_cons, chars_append, List.cons_append, List.append_assoc]
      rw [scanOnce, if_neg (by decide), if_neg (by decide), if_pos rfl,
        if_neg (not_isOver_unlimited _), skipSpace_blank (layout.newline_blank (level + 1)),
        skipSpace_text hx]
      obtain ⟨c, tail, htext, -, hclose⟩ := text_head layout (level + 1) hx
      rw [htext] at hinner ⊢
      rw [List.cons_append] at hinner ⊢
      split
      · next heq => exact absurd (List.cons.inj heq).1 hclose
      · rw [hinner]
        rfl
  | @dict items hkeys hjoined hitems =>
    cases items with
    | nil => rfl
    | cons p items =>
      obtain ⟨k, v⟩ := p
      obtain ⟨hk, hjoined⟩ := List.forall_mem_cons.mp hjoined
      obtain ⟨hv, hitems⟩ := List.forall_mem_cons.mp hitems
      have hlen := length_quote k
      simp only [text, List.length_cons, List.length_append] at hsteps
      have hinner := ih.items (v := v) (depth + 1) level rest hk hv hjoined hitems
        (by rw [List.length_append]; omega)
      simp only [text, chars_cons, chars_append, List.cons_append, List.append_assoc]
      rw [scanOnce, if_neg (by decide), if_pos rfl, if_neg (not_isOver_unlimited _),
        skipSpace_blank (layout.newline_blank (level + 1)), skipSpace_quote]
      rw [chars_quote] at hinner ⊢
      split
      · next heq => exact absurd (List.cons.inj heq).1 (by decide)
      · rw [hinner]
        exact congrArg (fun items => Except.ok (PyValue.dict items, rest))
          (Dict.ofPairs_eq_self hkeys)

theorem length_text_pos (layout : Layout) (level : ℕ) {v : PyValue} (h : Readable floats v) :
    0 < (text layout level v).length := by
  obtain ⟨c, tail, htext, -⟩ := text_head layout level h
  have hlen := congrArg List.length htext
  rw [chars, List.length_map, List.length_cons] at hlen
  omega

end StepsRead

/-- There are steps enough. -/
theorem stepsRead (floats : Floats) (layout : Layout) (steps : ℕ) :
    StepsRead floats layout steps := by
  induction steps with
  | zero =>
    refine ⟨fun _ level hv hlen => ?_, fun _ _ _ _ _ _ _ hlen => ?_,
      fun _ level _ hx _ hlen => ?_⟩
    · exact absurd hlen (Nat.not_le.mpr (length_text_pos layout level hv))
    · omega
    · rw [List.length_append] at hlen
      have hpos := length_text_pos layout (level + 1) hx
      omega
  | succ steps ih =>
    exact ⟨fun _ _ => once_read ih, fun _ _ _ => items_read ih, fun _ _ _ => elements_read ih⟩

/-! ## Sorted keys -/

/-- Keys by their code points. -/
def keyLe {α : Type} (p q : PyStr × α) : Prop := p.1.map PyChar.code ≤ q.1.map PyChar.code

instance {α : Type} : DecidableRel (keyLe (α := α)) := fun p q =>
  inferInstanceAs (Decidable (p.1.map PyChar.code ≤ q.1.map PyChar.code))

instance {α : Type} : Std.Total (keyLe (α := α)) := ⟨fun _ _ => le_total _ _⟩

instance {α : Type} : IsTrans (PyStr × α) keyLe := ⟨fun _ _ _ => le_trans⟩

/-- `sorted(items)` -/
def sortItems {α : Type} (items : List (PyStr × α)) : List (PyStr × α) :=
  items.insertionSort keyLe

theorem sortItems_perm {α : Type} (items : List (PyStr × α)) : (sortItems items).Perm items :=
  List.perm_insertionSort _ _

theorem sortItems_sortItems {α : Type} (items : List (PyStr × α)) :
    sortItems (sortItems items) = sortItems items :=
  (List.pairwise_insertionSort keyLe items).insertionSort_eq

mutual

/-- The value with the keys of its dicts in order, as `sort_keys` writes it. -/
def sortKeys : PyValue → PyValue
  | .list xs => .list (sortKeysAll xs)
  | .dict items => .dict (sortItems (sortKeysIn items))
  | .none => .none
  | .bool b => .bool b
  | .int n => .int n
  | .float literal => .float literal
  | .str s => .str s

def sortKeysAll : List PyValue → List PyValue
  | [] => []
  | x :: xs => sortKeys x :: sortKeysAll xs

def sortKeysIn : List (PyStr × PyValue) → List (PyStr × PyValue)
  | [] => []
  | (k, v) :: items => (k, sortKeys v) :: sortKeysIn items

end

theorem sortKeysAll_eq_map (xs : List PyValue) : sortKeysAll xs = xs.map sortKeys := by
  induction xs with
  | nil => rfl
  | cons x xs ih => rw [sortKeysAll, ih, List.map_cons]

theorem sortKeysIn_eq_map (items : List (PyStr × PyValue)) :
    sortKeysIn items = items.map fun p => (p.1, sortKeys p.2) := by
  induction items with
  | nil => rfl
  | cons p items ih => rw [sortKeysIn, ih, List.map_cons]

theorem keys_sortKeysIn (items : List (PyStr × PyValue)) :
    (sortKeysIn items).map Prod.fst = items.map Prod.fst := by
  rw [sortKeysIn_eq_map, List.map_map]
  rfl

theorem mem_sortKeysIn {items : List (PyStr × PyValue)} {p : PyStr × PyValue} :
    p ∈ sortItems (sortKeysIn items) ↔ ∃ q ∈ items, (q.1, sortKeys q.2) = p := by
  rw [(sortItems_perm _).mem_iff, sortKeysIn_eq_map, List.mem_map]

theorem sortKeysIn_sortItems (items : List (PyStr × PyValue)) :
    sortKeysIn (sortItems items) = sortItems (sortKeysIn items) := by
  rw [sortKeysIn_eq_map, sortKeysIn_eq_map, sortItems, sortItems]
  exact List.map_insertionSort _ _ _ _ fun _ _ _ _ => Iff.rfl

variable {floats : Floats} {layout : Layout} {v w : PyValue}

theorem nodup_keys_sorted {items : List (PyStr × PyValue)} (h : (items.map Prod.fst).Nodup) :
    ((sortItems (sortKeysIn items)).map Prod.fst).Nodup := by
  rw [((sortItems_perm _).map Prod.fst).nodup_iff, keys_sortKeysIn]
  exact h

/-- What is sorted can be written. -/
theorem Readable.sortKeys (h : Readable floats v) : Readable floats (sortKeys v) := by
  induction h with
  | none => exact .none
  | bool b => exact .bool b
  | int n => exact .int n
  | float h => exact .float h
  | str h => exact .str h
  | list h ih =>
    rw [PyJson.sortKeys, sortKeysAll_eq_map]
    exact .list (List.forall_mem_map.mpr ih)
  | dict hkeys hjoined h ih =>
    rw [PyJson.sortKeys]
    refine .dict (nodup_keys_sorted hkeys) (fun p hp => ?_) (fun p hp => ?_)
    · obtain ⟨q, hq, rfl⟩ := mem_sortKeysIn.mp hp
      exact hjoined q hq
    · obtain ⟨q, hq, rfl⟩ := mem_sortKeysIn.mp hp
      exact ih q hq

/-- What is in order stays as it is. -/
theorem sortKeys_sortKeys (h : Readable floats v) : sortKeys (sortKeys v) = sortKeys v := by
  induction h with
  | none => rfl
  | bool b => rfl
  | int n => rfl
  | float h => rfl
  | str h => rfl
  | list h ih =>
    rw [sortKeys, sortKeys, sortKeysAll_eq_map, sortKeysAll_eq_map, List.map_map]
    exact congrArg PyValue.list (List.map_congr_left ih)
  | @dict items hkeys hjoined h ih =>
    have hsame : sortKeysIn (sortKeysIn items) = sortKeysIn items := by
      rw [sortKeysIn_eq_map, sortKeysIn_eq_map, List.map_map]
      exact List.map_congr_left fun p hp => Prod.ext rfl (ih p hp)
    rw [sortKeys, sortKeys, sortKeysIn_sortItems, hsame, sortItems_sortItems]

/-! ## `json.dumps` and `json.loads` -/

/-- `json.dumps(.., sort_keys=True)` -/
def dumps (layout : Layout) (v : PyValue) : String := String.ofList (text layout 0 (sortKeys v))

mutual

/-- The value with the floats of its literals. -/
def Floats.round (floats : Floats) : PyValue → PyValue
  | .list xs => .list (floats.roundAll xs)
  | .dict items => .dict (floats.roundIn items)
  | .none => .none
  | .bool b => .bool b
  | .int n => .int n
  | .float literal => .float (floats.canon literal)
  | .str s => .str s

def Floats.roundAll (floats : Floats) : List PyValue → List PyValue
  | [] => []
  | x :: xs => floats.round x :: floats.roundAll xs

def Floats.roundIn (floats : Floats) : List (PyStr × PyValue) → List (PyStr × PyValue)
  | [] => []
  | (k, v) :: items => (k, floats.round v) :: floats.roundIn items

end

/-- `json.loads` of a file's text. -/
def Floats.loads (floats : Floats) (s : String) : Except Raised PyValue :=
  (PyJson.loads unlimited (py s)).map floats.round

theorem Floats.roundAll_eq_self {xs : List PyValue} (h : ∀ x ∈ xs, floats.round x = x) :
    floats.roundAll xs = xs := by
  induction xs with
  | nil => rfl
  | cons x xs ih =>
    obtain ⟨hx, hxs⟩ := List.forall_mem_cons.mp h
    rw [roundAll, hx, ih hxs]

theorem Floats.roundIn_eq_self {items : List (PyStr × PyValue)}
    (h : ∀ p ∈ items, floats.round p.2 = p.2) : floats.roundIn items = items := by
  induction items with
  | nil => rfl
  | cons p items ih =>
    obtain ⟨hp, hitems⟩ := List.forall_mem_cons.mp h
    rw [roundIn, hp, ih hitems]

/-- Numbers are read as they were written. -/
theorem Readable.round (h : Readable floats v) : floats.round v = v := by
  induction h with
  | none => rw [Floats.round]
  | bool b => rw [Floats.round]
  | int n => rw [Floats.round]
  | float h => rw [Floats.round, h.2]
  | str h => rw [Floats.round]
  | list h ih => rw [Floats.round, Floats.roundAll_eq_self ih]
  | dict hkeys hjoined h ih => rw [Floats.round, Floats.roundIn_eq_self ih]

theorem loads_text (layout : Layout) (h : Readable floats v) {blanks : List Char}
    (hblanks : ∀ c ∈ blanks, isSpace (.scalar c) = true) :
    loads unlimited (chars (text layout 0 v) ++ chars blanks) = .ok v := by
  have hfollows : Follows (chars blanks) := by
    cases blanks with
    | nil => rintro c ⟨⟩
    | cons c cs =>
      apply follows_cons
      by_contra hc
      have hspace := hblanks c List.mem_cons_self
      rw [(of_isNumeric ((Bool.not_eq_false _).mp hc)).1] at hspace
      cases hspace
  have hend : skipSpace (chars blanks) = [] := by
    have hskip := skipSpace_blank hblanks []
    rwa [List.append_nil] at hskip
  have hread := (stepsRead floats layout
    (2 * (chars (text layout 0 v) ++ chars blanks).length + 2)).once 0 0 h (by
      rw [List.length_append, chars, List.length_map]
      omega) hfollows
  rw [loads, skipSpace_text h, hread]
  dsimp only
  rw [if_pos hend]

/-- **A value that was dumped is read back**, with its keys in order. -/
theorem loads_dumps (layout : Layout) (h : Readable floats v) {blanks : String}
    (hblanks : ∀ c ∈ blanks.toList, isSpace (.scalar c) = true) :
    floats.loads (dumps layout v ++ blanks) = .ok (sortKeys v) := by
  have hread := loads_text layout h.sortKeys hblanks
  have htext : py (dumps layout v ++ blanks) =
      chars (text layout 0 (sortKeys v)) ++ chars blanks.toList := by
    rw [py, dumps, String.toList_append, String.toList_ofList]
    exact chars_append _ _
  rw [Floats.loads, htext, hread]
  exact congrArg Except.ok h.sortKeys.round

/-- The text determines the value, up to the order of the keys. -/
theorem dumps_injective (hv : Readable floats v) (hw : Readable floats w)
    (h : dumps layout v = dumps layout w) : sortKeys v = sortKeys w := by
  have hnone : ∀ c ∈ "".toList, isSpace (.scalar c) = true := fun c hc => absurd hc List.not_mem_nil
  have hread := loads_dumps layout hv hnone
  rw [h, loads_dumps layout hw hnone] at hread
  exact (Except.ok.inj hread).symm

/-! ## Texts with the same parts -/

theorem textItems_congr {depth : ℕ} {items items' : List (PyStr × PyValue)}
    (h : (items.map fun p => (p.1, text layout (depth + 1) p.2)) =
      items'.map fun p => (p.1, text layout (depth + 1) p.2)) :
    textItems layout depth items = textItems layout depth items' := by
  induction items generalizing items' with
  | nil => rw [List.map_eq_nil_iff.mp h.symm]
  | cons p items ih =>
    obtain ⟨q, qs, rfl, hq, hqs⟩ := List.map_eq_cons_iff.mp h.symm
    obtain ⟨hkey, hvalue⟩ := Prod.mk.inj hq
    rw [textItems, textItems, hkey, hvalue, ih hqs.symm]

theorem text_dict_congr {depth : ℕ} {items items' : List (PyStr × PyValue)}
    (h : (items.map fun p => (p.1, text layout (depth + 1) p.2)) =
      items'.map fun p => (p.1, text layout (depth + 1) p.2)) :
    text layout depth (.dict items) = text layout depth (.dict items') := by
  cases items with
  | nil => rw [List.map_eq_nil_iff.mp h.symm]
  | cons p items =>
    obtain ⟨q, qs, rfl, hq, hqs⟩ := List.map_eq_cons_iff.mp h.symm
    obtain ⟨hkey, hvalue⟩ := Prod.mk.inj hq
    rw [text, text, hkey, hvalue, textItems_congr hqs.symm]

/-- The text of a dict is made of its keys and of the texts of its values. -/
theorem dumps_dict_congr {items items' : List (PyStr × PyValue)}
    (h : (items.map fun p => (p.1, text layout 1 (sortKeys p.2))) =
      items'.map fun p => (p.1, text layout 1 (sortKeys p.2))) :
    dumps layout (.dict items) = dumps layout (.dict items') := by
  have hsorted (l : List (PyStr × PyValue)) :
      ((sortItems (sortKeysIn l)).map fun p => (p.1, text layout 1 p.2)) =
        sortItems (l.map fun p => (p.1, text layout 1 (sortKeys p.2))) := by
    rw [sortItems, List.map_insertionSort keyLe keyLe
      (fun p : PyStr × PyValue => (p.1, text layout 1 p.2)) _ fun _ _ _ _ => Iff.rfl,
      sortKeysIn_eq_map, List.map_map]
    rfl
  rw [dumps, dumps, sortKeys, sortKeys]
  exact congrArg String.ofList (text_dict_congr (by rw [hsorted, hsorted, h]))

end PyJson

end Eyenet
