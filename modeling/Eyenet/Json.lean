import Eyenet.Framing
import Mathlib.Data.List.Sort
import Mathlib.Data.List.TakeWhile

/-!
# JSON texts

JSON values, the text that `json.dumps` gives them, and the value that `json.loads` reads off a
text. An object is the list of its items, and a float is the text that `repr` gives it; strings
have no lone surrogates.

* `Json.loads_dumps` — a text that was dumped is read back as the value it came from.
* `Json.dumps_injective` — so the text determines the value.
* `Json.sortItems_inj` — items under known keys are determined by their sorted list.
-/

namespace Eyenet

open Framing

namespace Json

/-! ## Numbers -/

/-- What a number is made of. -/
def isNumberChar (c : Char) : Bool := c.isDigit || c ∈ ['-', '+', '.', 'e', 'E']

/-- A natural number in decimal, without leading zeros. -/
def readNat (ds : List Char) : Option ℕ :=
  if ds ≠ [] ∧ ds.all Char.isDigit ∧ (ds.head? = some '0' → ds = ['0']) then
    some (Nat.ofDigitChars 10 ds 0)
  else none

/-- An integer in decimal. -/
def readInt : List Char → Option ℤ
  | '-' :: ds => (readNat ds).map fun n : ℕ => -(n : ℤ)
  | ds => (readNat ds).map Int.ofNat

/-- `[eE][-+]?[0-9]+`, or nothing. -/
def isExponent : List Char → Bool
  | [] => true
  | e :: cs =>
    let digits := if cs.head? = some '-' ∨ cs.head? = some '+' then cs.tail else cs
    (e == 'e' || e == 'E') && !digits.isEmpty && digits.all Char.isDigit

/-- `(\.[0-9]+)?`, and an exponent. -/
def isFraction : List Char → Bool
  | '.' :: cs => !(cs.takeWhile Char.isDigit).isEmpty && isExponent (cs.dropWhile Char.isDigit)
  | cs => isExponent cs

/-- A number with a fraction or an exponent. -/
def isFloat (cs : List Char) : Bool :=
  let unsigned := if cs.head? = some '-' then cs.tail else cs
  (readNat (unsigned.takeWhile Char.isDigit)).isSome &&
    !(unsigned.dropWhile Char.isDigit).isEmpty && isFraction (unsigned.dropWhile Char.isDigit)

/-- The text of a finite float. -/
structure FloatText where
  chars : List Char
  isFloat : isFloat chars = true

/-- `str` of an integer. -/
def intText (n : ℤ) : List Char :=
  if n < 0 then '-' :: Nat.toDigits 10 n.natAbs else Nat.toDigits 10 n.natAbs

theorem toDigits_head (n : ℕ) (h : (Nat.toDigits 10 n).head? = some '0') :
    Nat.toDigits 10 n = ['0'] := by
  induction n using Nat.strong_induction_on with
  | _ n ih =>
    by_cases hn : n < 10
    · rw [Nat.toDigits_of_lt_base hn] at h ⊢
      simpa using h
    · have hstep := Nat.toDigits_of_base_le (by decide) (not_lt.mp hn)
      rw [hstep] at h ⊢
      have hhead : (Nat.toDigits 10 (n / 10)).head? = some '0' := by
        rw [List.head?_append_of_ne_nil _ Nat.toDigits_ne_nil] at h
        exact h
      have hzero := ih (n / 10) (by omega) hhead
      have hvalue := Nat.ofDigitChars_toDigits (n := n / 10) (by decide) (le_refl 10)
      rw [hzero] at hvalue
      have hpos : 0 < n / 10 := by omega
      simp [Nat.ofDigitChars] at hvalue
      omega

theorem readNat_toDigits (n : ℕ) : readNat (Nat.toDigits 10 n) = some n := by
  rw [readNat, if_pos]
  · rw [Nat.ofDigitChars_toDigits (by decide) (le_refl 10)]
  · refine ⟨Nat.toDigits_ne_nil, ?_, toDigits_head n⟩
    rw [List.all_eq_true]
    exact fun c hc => Nat.isDigit_of_mem_toDigits (by decide) (le_refl 10) hc

theorem readInt_of_head_ne {cs : List Char} (h : cs.head? ≠ some '-') :
    readInt cs = (readNat cs).map Int.ofNat := by
  rw [readInt]
  rintro ds rfl
  exact h rfl

theorem readInt_intText (n : ℤ) : readInt (intText n) = some n := by
  rw [intText]
  split_ifs with hneg
  · rw [readInt, readNat_toDigits, Option.map_some]
    congr 1
    omega
  · rw [readInt_of_head_ne, readNat_toDigits, Option.map_some]
    · congr 1
      exact Int.natAbs_of_nonneg (not_lt.mp hneg)
    · intro hhead
      have hdigit := Nat.isDigit_of_mem_toDigits (by decide) (le_refl 10) (List.mem_of_head? hhead)
      exact absurd hdigit (by decide)

theorem isNumberChar_of_isDigit {c : Char} (h : c.isDigit = true) : isNumberChar c = true := by
  rw [isNumberChar, h, Bool.true_or]

theorem intText_number (n : ℤ) : ∀ c ∈ intText n, isNumberChar c = true := by
  have hdigits : ∀ c ∈ Nat.toDigits 10 n.natAbs, isNumberChar c = true := fun c hc =>
    isNumberChar_of_isDigit (Nat.isDigit_of_mem_toDigits (by decide) (le_refl 10) hc)
  rw [intText]
  split_ifs
  · exact List.forall_mem_cons.mpr ⟨by decide, hdigits⟩
  · exact hdigits

theorem isExponent_number {cs : List Char} (h : isExponent cs = true) :
    ∀ c ∈ cs, isNumberChar c = true := by
  cases cs with
  | nil => exact fun _ hc => absurd hc List.not_mem_nil
  | cons e cs =>
    simp only [isExponent, Bool.and_eq_true, Bool.or_eq_true, beq_iff_eq] at h
    obtain ⟨⟨he, -⟩, hall⟩ := h
    have hexp : isNumberChar e = true := by
      rcases he with rfl | rfl
      · decide
      · decide
    refine List.forall_mem_cons.mpr ⟨hexp, ?_⟩
    split_ifs at hall with hsign
    · cases cs with
      | nil => exact fun _ hc => absurd hc List.not_mem_nil
      | cons sign ds =>
        have hs : isNumberChar sign = true := by
          rcases hsign with hsign | hsign <;> obtain rfl := Option.some.inj hsign
          · decide
          · decide
        refine List.forall_mem_cons.mpr ⟨hs, fun c hc => ?_⟩
        exact isNumberChar_of_isDigit (List.all_eq_true.mp hall c hc)
    · exact fun c hc => isNumberChar_of_isDigit (List.all_eq_true.mp hall c hc)

/-- Digits, and then number characters. -/
theorem number_of_dropWhile {cs : List Char}
    (h : ∀ c ∈ cs.dropWhile Char.isDigit, isNumberChar c = true) :
    ∀ c ∈ cs, isNumberChar c = true := by
  rw [← List.takeWhile_append_dropWhile (p := Char.isDigit) (l := cs)]
  intro c hc
  rcases List.mem_append.mp hc with hc | hc
  · exact isNumberChar_of_isDigit (List.mem_takeWhile_imp hc)
  · exact h c hc

theorem isFraction_number {cs : List Char} (h : isFraction cs = true) :
    ∀ c ∈ cs, isNumberChar c = true := by
  rw [isFraction.eq_def] at h
  split at h
  · next cs =>
    rw [Bool.and_eq_true] at h
    exact List.forall_mem_cons.mpr ⟨by decide, number_of_dropWhile (isExponent_number h.2)⟩
  · exact isExponent_number h

/-- The sign of a number is a number character. -/
theorem number_of_unsigned {cs : List Char}
    (h : ∀ c ∈ if cs.head? = some '-' then cs.tail else cs, isNumberChar c = true) :
    ∀ c ∈ cs, isNumberChar c = true := by
  split_ifs at h with hsign
  · cases cs with
    | nil => exact h
    | cons sign ds =>
      obtain rfl := Option.some.inj hsign
      exact List.forall_mem_cons.mpr ⟨by decide, h⟩
  · exact h

theorem FloatText.number (t : FloatText) : ∀ c ∈ t.chars, isNumberChar c = true := by
  have h := t.isFloat
  simp only [Json.isFloat, Bool.and_eq_true] at h
  exact number_of_unsigned (number_of_dropWhile (isFraction_number h.2))

/-- A float does not read as an integer. -/
theorem FloatText.readInt_eq_none (t : FloatText) : readInt t.chars = none := by
  have h := t.isFloat
  simp only [Json.isFloat, Bool.and_eq_true] at h
  obtain ⟨⟨-, hrest⟩, -⟩ := h
  have hnat : ∀ cs : List Char, (!(cs.dropWhile Char.isDigit).isEmpty) = true →
      readNat cs = none := by
    intro cs hcs
    rw [readNat, if_neg]
    rintro ⟨-, hall, -⟩
    rw [List.all_eq_true] at hall
    rw [List.dropWhile_eq_nil_iff.mpr hall] at hcs
    cases hcs
  split_ifs at hrest with hsign
  · obtain ⟨ds, hds⟩ : ∃ ds, t.chars = '-' :: ds := List.head?_eq_some_iff.mp hsign
    rw [hds] at hrest ⊢
    rw [readInt, hnat ds hrest, Option.map_none]
  · rw [readInt_of_head_ne hsign, hnat _ hrest, Option.map_none]

theorem FloatText.ne_nil (t : FloatText) : t.chars ≠ [] := by
  intro h
  have hfloat := t.isFloat
  rw [h] at hfloat
  exact absurd hfloat (by decide)

/-! ## Strings -/

/-- `ESCAPE_DCT`, less its backslashes. -/
def escapes : List (Char × Char) :=
  [('\\', '\\'), ('"', '"'), ('\x08', 'b'), ('\x0c', 'f'), ('\n', 'n'), ('\r', 'r'), ('\t', 't')]

/-- `BACKSLASH` -/
def backslash : List (Char × Char) :=
  [('"', '"'), ('\\', '\\'), ('/', '/'), ('b', '\x08'), ('f', '\x0c'), ('n', '\n'), ('r', '\r'),
    ('t', '\t')]

/-- A code unit as an escape. -/
def escapeUnit (n : ℕ) : List Char := '\\' :: 'u' :: numeral 16 Nat.digitChar 4 n

/-- A character in a string literal, which is ASCII. -/
def escapeChar (c : Char) : List Char :=
  match escapes.lookup c with
  | some e => ['\\', e]
  | none =>
    if ' ' ≤ c ∧ c ≤ '~' then [c]
    else if c.toNat < 65536 then escapeUnit c.toNat
    else
      -- a surrogate pair
      escapeUnit (55296 + (c.toNat - 65536) / 1024) ++ escapeUnit (56320 + (c.toNat - 65536) % 1024)

/-- A string literal. -/
def quote (s : String) : List Char := '"' :: (s.toList.flatMap escapeChar ++ ['"'])

/-- Four hex digits. -/
def parseUnit : List Char → Option (ℕ × List Char)
  | a :: b :: c :: d :: rest =>
    match hexValue a, hexValue b, hexValue c, hexValue d with
    | some a, some b, some c, some d => some (((a * 16 + b) * 16 + c) * 16 + d, rest)
    | _, _, _, _ => none
  | _ => none

/-- A character escaped by one code unit or by two. -/
def parseUnicode (cs : List Char) : Option (Char × List Char) :=
  match parseUnit cs with
  | none => none
  | some (n, rest) =>
    if 55296 ≤ n ∧ n < 56320 then
      match rest with
      | '\\' :: 'u' :: cs =>
        match parseUnit cs with
        | none => none
        | some (m, rest) =>
          if 56320 ≤ m ∧ m < 57344 then
            some (Char.ofNat (65536 + (n - 55296) * 1024 + (m - 56320)), rest)
          else none
      | _ => none
    else if 56320 ≤ n ∧ n < 57344 then none
    else some (Char.ofNat n, rest)

/-- The next character of a string literal, or its end. -/
def parseChar : List Char → Option (Option Char × List Char)
  | [] => none
  | c :: cs =>
    if c = '"' then some (none, cs)
    else if c = '\\' then
      match cs with
      | 'u' :: cs => (parseUnicode cs).map fun x => (some x.1, x.2)
      | e :: cs => (backslash.lookup e).map fun c => (some c, cs)
      | [] => none
    else if c < ' ' then none
    else some (some c, cs)

/-- A string literal after its opening quote. -/
def parseString : ℕ → List Char → Option (List Char × List Char)
  | 0, _ => none
  | n + 1, cs =>
    match parseChar cs with
    | none => none
    | some (none, rest) => some ([], rest)
    | some (some c, rest) => (parseString n rest).map fun x => (c :: x.1, x.2)

theorem parseUnit_numeral {n : ℕ} (h : n < 65536) (rest : List Char) :
    parseUnit (numeral 16 Nat.digitChar 4 n ++ rest) = some (n, rest) := by
  have hdigit (k : ℕ) : hexValue (Nat.digitChar (k % 16)) = some (k % 16) :=
    hexValue_digitChar _ (Nat.mod_lt _ (by decide))
  simp only [numeral, List.nil_append, List.cons_append, parseUnit, hdigit, Option.some.injEq,
    Prod.mk.injEq, and_true]
  omega

/-- A character is no surrogate. -/
theorem not_surrogate (c : Char) : c.toNat < 55296 ∨ 57343 < c.toNat ∧ c.toNat < 1114112 := by
  exact c.valid

theorem parseUnicode_unit {c : Char} (h : c.toNat < 65536) (rest : List Char) :
    parseUnicode (numeral 16 Nat.digitChar 4 c.toNat ++ rest) = some (c, rest) := by
  have hc := not_surrogate c
  rw [parseUnicode, parseUnit_numeral h]
  dsimp only
  rw [if_neg (by omega), if_neg (by omega), Char.ofNat_toNat]

theorem parseUnicode_pair {c : Char} (h : 65536 ≤ c.toNat) (rest : List Char) :
    parseUnicode (numeral 16 Nat.digitChar 4 (55296 + (c.toNat - 65536) / 1024) ++
      '\\' :: 'u' :: (numeral 16 Nat.digitChar 4 (56320 + (c.toNat - 65536) % 1024) ++ rest)) =
      some (c, rest) := by
  have hc := not_surrogate c
  have hhigh : 55296 ≤ 55296 + (c.toNat - 65536) / 1024 ∧
      55296 + (c.toNat - 65536) / 1024 < 56320 := by
    omega
  have hlow : 56320 ≤ 56320 + (c.toNat - 65536) % 1024 ∧
      56320 + (c.toNat - 65536) % 1024 < 57344 := by
    omega
  have hvalue : 65536 + (55296 + (c.toNat - 65536) / 1024 - 55296) * 1024 +
      (56320 + (c.toNat - 65536) % 1024 - 56320) = c.toNat := by
    omega
  rw [parseUnicode, parseUnit_numeral (by omega)]
  simp only [if_pos hhigh]
  rw [parseUnit_numeral (by omega)]
  simp only [if_pos hlow, hvalue, Char.ofNat_toNat]

theorem backslash_of_escapes : ∀ x ∈ escapes, x.2 ≠ 'u' ∧ backslash.lookup x.2 = some x.1 := by
  decide

/-- An escaped character is read back. -/
theorem parseChar_escapeChar (c : Char) (rest : List Char) :
    parseChar (escapeChar c ++ rest) = some (some c, rest) := by
  rw [escapeChar]
  cases hescape : escapes.lookup c with
  | some e =>
    obtain ⟨l₁, l₂, hl, -⟩ := List.lookup_eq_some_iff.mp hescape
    have hmem : (c, e) ∈ escapes := hl ▸ List.mem_append_right l₁ List.mem_cons_self
    obtain ⟨hunicode, hback⟩ := backslash_of_escapes _ hmem
    simp [parseChar, hback]
  | none =>
    have hquote : c ≠ '"' := by
      rintro rfl
      exact absurd hescape (by decide)
    have hslash : c ≠ '\\' := by
      rintro rfl
      exact absurd hescape (by decide)
    dsimp only
    split_ifs with hprint hunit
    · simp [parseChar, hquote, hslash, Char.not_lt.mpr hprint.1]
    · simp [parseChar, escapeUnit, parseUnicode_unit hunit]
    · simp [parseChar, escapeUnit, parseUnicode_pair (not_lt.mp hunit)]

theorem parseString_escaped (cs rest : List Char) {n : ℕ} (h : cs.length < n) :
    parseString n (cs.flatMap escapeChar ++ '"' :: rest) = some (cs, rest) := by
  induction cs generalizing n with
  | nil =>
    obtain ⟨n, rfl⟩ := Nat.exists_eq_succ_of_ne_zero (Nat.ne_of_gt h)
    simp [parseString, parseChar]
  | cons c cs ih =>
    obtain ⟨n, rfl⟩ := Nat.exists_eq_succ_of_ne_zero (Nat.ne_of_gt (Nat.zero_lt_of_lt h))
    rw [List.flatMap_cons, List.append_assoc, parseString, parseChar_escapeChar]
    dsimp only
    rw [ih (Nat.lt_of_succ_lt_succ h)]
    rfl

end Json

/-! ## Values -/

/-- A JSON value. -/
inductive Json where
  | null
  | bool (b : Bool)
  | int (n : ℤ)
  | float (t : Json.FloatText)
  | str (s : String)
  | arr (items : List Json)
  | obj (fields : List (String × Json))

namespace Json

/-- What follows a comma or a colon: a space, unless the separators are compact. -/
def gap (spaced : Bool) : List Char := if spaced then [' '] else []

mutual

/-- The text of a value, with the default separators or compact ones. -/
def text (spaced : Bool) : Json → List Char
  | null => ['n', 'u', 'l', 'l']
  | bool true => ['t', 'r', 'u', 'e']
  | bool false => ['f', 'a', 'l', 's', 'e']
  | int n => intText n
  | float t => t.chars
  | str s => quote s
  | arr [] => ['[', ']']
  | arr (x :: xs) => '[' :: (text spaced x ++ textItems spaced xs)
  | obj [] => ['\x7b', '\x7d']
  | obj ((k, v) :: fs) =>
    '\x7b' :: (quote k ++ ':' :: (gap spaced ++ (text spaced v ++ textFields spaced fs)))

/-- The items of an array after one of them, and its end. -/
def textItems (spaced : Bool) : List Json → List Char
  | [] => [']']
  | x :: xs => ',' :: (gap spaced ++ (text spaced x ++ textItems spaced xs))

/-- The items of an object after one of them, and its end. -/
def textFields (spaced : Bool) : List (String × Json) → List Char
  | [] => ['\x7d']
  | (k, v) :: fs =>
    ',' :: (gap spaced ++
      (quote k ++ ':' :: (gap spaced ++ (text spaced v ++ textFields spaced fs))))

end

/-- `json.dumps` -/
def dumps (spaced : Bool) (v : Json) : String := String.ofList (text spaced v)

def isSpace (c : Char) : Bool := c ∈ [' ', '\t', '\n', '\r']

def skipSpace (cs : List Char) : List Char := cs.dropWhile isSpace

/-- A number, an integer unless it has a fraction or an exponent. -/
def parseNumber (cs : List Char) : Option (Json × List Char) :=
  let number := cs.takeWhile isNumberChar
  let rest := cs.dropWhile isNumberChar
  match readInt number with
  | some n => some (int n, rest)
  | none => if h : isFloat number = true then some (float ⟨number, h⟩, rest) else none

/-- A value that is neither a string, an array nor an object. -/
def parseScalar : List Char → Option (Json × List Char)
  | 'n' :: 'u' :: 'l' :: 'l' :: rest => some (null, rest)
  | 't' :: 'r' :: 'u' :: 'e' :: rest => some (bool true, rest)
  | 'f' :: 'a' :: 'l' :: 's' :: 'e' :: rest => some (bool false, rest)
  | cs => parseNumber cs

/-- The key of an item, and its colon. -/
def parseKey : List Char → Option (String × List Char)
  | '"' :: cs =>
    match parseString (cs.length + 1) cs with
    | none => none
    | some (k, rest) =>
      match skipSpace rest with
      | ':' :: rest => some (String.ofList k, skipSpace rest)
      | _ => none
  | _ => none

mutual

/-- A value at the front of a text. -/
def parseValue : ℕ → List Char → Option (Json × List Char)
  | 0, _ => none
  | _ + 1, [] => none
  | n + 1, c :: cs =>
    if c = '"' then (parseString (cs.length + 1) cs).map fun x => (str (String.ofList x.1), x.2)
    else if c = '[' then
      match skipSpace cs with
      | ']' :: rest => some (arr [], rest)
      | cs =>
        match parseValue n cs with
        | none => none
        | some (x, rest) => (parseItems n rest).map fun xs => (arr (x :: xs.1), xs.2)
    else if c = '\x7b' then
      match skipSpace cs with
      | '\x7d' :: rest => some (obj [], rest)
      | cs =>
        match parseKey cs with
        | none => none
        | some (k, rest) =>
          match parseValue n rest with
          | none => none
          | some (v, rest) => (parseFields n rest).map fun fs => (obj ((k, v) :: fs.1), fs.2)
    else parseScalar (c :: cs)

/-- The items of an array after one of them. -/
def parseItems : ℕ → List Char → Option (List Json × List Char)
  | 0, _ => none
  | n + 1, cs =>
    match skipSpace cs with
    | ']' :: rest => some ([], rest)
    | ',' :: rest =>
      match parseValue n (skipSpace rest) with
      | none => none
      | some (x, rest) => (parseItems n rest).map fun xs => (x :: xs.1, xs.2)
    | _ => none

/-- The items of an object after one of them. -/
def parseFields : ℕ → List Char → Option (List (String × Json) × List Char)
  | 0, _ => none
  | n + 1, cs =>
    match skipSpace cs with
    | '\x7d' :: rest => some ([], rest)
    | ',' :: rest =>
      match parseKey (skipSpace rest) with
      | none => none
      | some (k, rest) =>
        match parseValue n rest with
        | none => none
        | some (v, rest) => (parseFields n rest).map fun fs => ((k, v) :: fs.1, fs.2)
    | _ => none

end

/-- `json.loads` -/
def loads (s : String) : Option Json :=
  match parseValue (s.toList.length + 1) (skipSpace s.toList) with
  | none => none
  | some (v, rest) => if skipSpace rest = [] then some v else none

/-! ## Reading what was written -/

variable {spaced : Bool} {c : Char} {cs rest : List Char}

theorem skipSpace_cons (h : isSpace c = false) : skipSpace (c :: cs) = c :: cs := by
  simp [skipSpace, h]

theorem skipSpace_gap (h : isSpace c = false) : skipSpace (gap spaced ++ c :: cs) = c :: cs := by
  cases spaced with
  | false => exact skipSpace_cons h
  | true =>
    change skipSpace (' ' :: c :: cs) = c :: cs
    rw [skipSpace, List.dropWhile_cons_of_pos (by decide)]
    exact skipSpace_cons h

/-- The text behind a number does not prolong it. -/
def Follows (rest : List Char) : Prop := ∀ c ∈ rest.head?, isNumberChar c = false

theorem follows_cons (h : isNumberChar c = false) : Follows (c :: rest) := by
  rintro d hd
  obtain rfl := Option.some.inj hd
  exact h

/-- A number character starts no other value, and is no separator. -/
theorem of_isNumberChar (h : isNumberChar c = true) : isSpace c = false ∧
    c ∉ ['"', '[', ']', '\x7b', '\x7d', 'n', 't', 'f'] := by
  have hspace : ∀ d, isSpace d = true → isNumberChar d = false := by
    intro d hd
    simp only [isSpace, decide_eq_true_eq, List.mem_cons, List.not_mem_nil, or_false] at hd
    rcases hd with rfl | rfl | rfl | rfl <;> decide
  have hother : ∀ d ∈ ['"', '[', ']', '\x7b', '\x7d', 'n', 't', 'f'], isNumberChar d = false := by
    intro d hd
    simp only [List.mem_cons, List.not_mem_nil, or_false] at hd
    rcases hd with rfl | rfl | rfl | rfl | rfl | rfl | rfl | rfl <;> decide
  refine ⟨?_, fun hmem => ?_⟩
  · cases hc : isSpace c with
    | false => rfl
    | true => exact absurd (hspace c hc) (by simp [h])
  · exact absurd (hother c hmem) (by simp [h])

theorem takeWhile_number {number : List Char} (h : ∀ c ∈ number, isNumberChar c = true)
    (hrest : Follows rest) : (number ++ rest).takeWhile isNumberChar = number ∧
      (number ++ rest).dropWhile isNumberChar = rest := by
  rw [List.takeWhile_append_of_pos h, List.dropWhile_append_of_pos h]
  cases rest with
  | nil => simp
  | cons c rest => simp [hrest c rfl]

theorem parseNumber_intText (n : ℤ) (h : Follows rest) :
    parseNumber (intText n ++ rest) = some (int n, rest) := by
  obtain ⟨htake, hdrop⟩ := takeWhile_number (intText_number n) h
  simp only [parseNumber, htake, hdrop, readInt_intText]

theorem parseNumber_floatText (t : FloatText) (h : Follows rest) :
    parseNumber (t.chars ++ rest) = some (float t, rest) := by
  obtain ⟨htake, hdrop⟩ := takeWhile_number t.number h
  simp only [parseNumber, htake, hdrop, t.readInt_eq_none, dif_pos t.isFloat]

theorem intText_ne_nil (n : ℤ) : intText n ≠ [] := by
  rw [intText]
  split_ifs
  · exact List.cons_ne_nil _ _
  · exact Nat.toDigits_ne_nil

/-- A text that starts like a number is read as one. -/
theorem parseValue_number {number : List Char} (hne : number ≠ [])
    (h : ∀ c ∈ number, isNumberChar c = true) (n : ℕ) :
    parseValue (n + 1) (number ++ rest) = parseNumber (number ++ rest) := by
  obtain ⟨c, cs, rfl⟩ := List.exists_cons_of_ne_nil hne
  obtain ⟨-, hc⟩ := of_isNumberChar (h c List.mem_cons_self)
  simp only [List.mem_cons, List.not_mem_nil, or_false, not_or] at hc
  obtain ⟨hquote, harr, -, hobj, -, hn, ht, hf⟩ := hc
  rw [List.cons_append, parseValue, if_neg hquote, if_neg harr, if_neg hobj, parseScalar.eq_def]
  split
  · next hcons => exact absurd (List.cons.inj hcons).1 hn
  · next hcons => exact absurd (List.cons.inj hcons).1 ht
  · next hcons => exact absurd (List.cons.inj hcons).1 hf
  · rfl

/-- A value starts with a character that is neither space nor a closing bracket. -/
theorem text_head (v : Json) : ∃ c cs, text spaced v = c :: cs ∧ isSpace c = false ∧ c ≠ ']' := by
  have hnumber : ∀ number : List Char, number ≠ [] → (∀ c ∈ number, isNumberChar c = true) →
      ∃ c cs, number = c :: cs ∧ isSpace c = false ∧ c ≠ ']' := by
    intro number hne h
    obtain ⟨c, cs, rfl⟩ := List.exists_cons_of_ne_nil hne
    obtain ⟨hspace, hc⟩ := of_isNumberChar (h c List.mem_cons_self)
    refine ⟨c, cs, rfl, hspace, ?_⟩
    rintro rfl
    exact hc (by decide)
  cases v with
  | null => exact ⟨_, _, rfl, by decide, by decide⟩
  | bool b => cases b <;> exact ⟨_, _, rfl, by decide, by decide⟩
  | int n => exact hnumber _ (intText_ne_nil n) (intText_number n)
  | float t => exact hnumber _ t.ne_nil t.number
  | str s => exact ⟨_, _, rfl, by decide, by decide⟩
  | arr xs => cases xs <;> exact ⟨_, _, rfl, by decide, by decide⟩
  | obj fs =>
    cases fs with
    | nil => exact ⟨_, _, rfl, by decide, by decide⟩
    | cons f fs => exact ⟨_, _, rfl, by decide, by decide⟩

theorem escapeChar_ne_nil (c : Char) : escapeChar c ≠ [] := by
  rw [escapeChar]
  split
  · exact List.cons_ne_nil _ _
  · split_ifs <;> exact List.cons_ne_nil _ _

theorem length_le_escaped (cs : List Char) : cs.length ≤ (cs.flatMap escapeChar).length := by
  induction cs with
  | nil => exact le_rfl
  | cons c cs ih =>
    have hc := List.length_pos_of_ne_nil (escapeChar_ne_nil c)
    rw [List.flatMap_cons, List.length_append, List.length_cons]
    omega

/-- What follows the opening quote of a literal is read back. -/
theorem parseString_quote (s : String) (rest : List Char) :
    let cs := s.toList.flatMap escapeChar ++ '"' :: rest
    parseString (cs.length + 1) cs = some (s.toList, rest) := by
  intro cs
  apply parseString_escaped
  have hle := length_le_escaped s.toList
  simp only [cs, List.length_append]
  omega

theorem quote_append (s : String) (rest : List Char) :
    quote s ++ rest = '"' :: (s.toList.flatMap escapeChar ++ '"' :: rest) := by
  simp [quote]

theorem parseKey_quote (k : String) (h : isSpace c = false) :
    parseKey (quote k ++ ':' :: (gap spaced ++ c :: cs)) = some (k, c :: cs) := by
  rw [quote_append, parseKey, parseString_quote]
  simp only [skipSpace_cons (show isSpace ':' = false by decide), skipSpace_gap h,
    String.ofList_toList]

theorem skipSpace_text (v : Json) (rest : List Char) :
    skipSpace (text spaced v ++ rest) = text spaced v ++ rest := by
  obtain ⟨c, cs, htext, hspace, -⟩ : ∃ c cs, text spaced v = c :: cs ∧ _ := text_head v
  rw [htext]
  exact skipSpace_cons hspace

theorem skipSpace_gap_text (v : Json) (rest : List Char) :
    skipSpace (gap spaced ++ (text spaced v ++ rest)) = text spaced v ++ rest := by
  obtain ⟨c, cs, htext, hspace, -⟩ : ∃ c cs, text spaced v = c :: cs ∧ _ := text_head v
  rw [htext]
  exact skipSpace_gap hspace

/-- An array that is not empty. -/
theorem parseValue_arr {n : ℕ} {ds : List Char} (hskip : skipSpace cs = ds)
    (h : ds.head? ≠ some ']') :
    parseValue (n + 1) ('[' :: cs) = (parseValue n ds).bind fun x =>
      (parseItems n x.2).map fun xs => (arr (x.1 :: xs.1), xs.2) := by
  rw [parseValue, if_neg (by decide), if_pos rfl, hskip]
  split
  · exact absurd rfl h
  · cases parseValue n ds <;> rfl

/-- An object that is not empty. -/
theorem parseValue_obj {n : ℕ} {ds : List Char} (hskip : skipSpace cs = ds)
    (h : ds.head? ≠ some '\x7d') :
    parseValue (n + 1) ('\x7b' :: cs) = (parseKey ds).bind fun k => (parseValue n k.2).bind fun v =>
      (parseFields n v.2).map fun fs => (obj ((k.1, v.1) :: fs.1), fs.2) := by
  rw [parseValue, if_neg (by decide), if_neg (by decide), if_pos rfl, hskip]
  split
  · exact absurd rfl h
  · cases parseKey ds with
    | none => rfl
    | some k =>
      dsimp only [Option.bind_some]
      cases parseValue n k.2 <;> rfl

theorem parseItems_comma (n : ℕ) (cs : List Char) :
    parseItems (n + 1) (',' :: cs) = (parseValue n (skipSpace cs)).bind fun x =>
      (parseItems n x.2).map fun xs => (x.1 :: xs.1, xs.2) := by
  simp only [parseItems, skipSpace_cons (show isSpace ',' = false by decide)]
  cases parseValue n (skipSpace cs) <;> rfl

theorem parseFields_comma (n : ℕ) (cs : List Char) :
    parseFields (n + 1) (',' :: cs) = (parseKey (skipSpace cs)).bind fun k =>
      (parseValue n k.2).bind fun v =>
        (parseFields n v.2).map fun fs => ((k.1, v.1) :: fs.1, fs.2) := by
  simp only [parseFields, skipSpace_cons (show isSpace ',' = false by decide)]
  cases parseKey (skipSpace cs) with
  | none => rfl
  | some k =>
    dsimp only [Option.bind_some]
    cases parseValue n k.2 <;> rfl

theorem follows_textItems (xs : List Json) (rest : List Char) :
    Follows (textItems spaced xs ++ rest) := by
  cases xs <;> exact follows_cons (by decide)

theorem follows_textFields (fs : List (String × Json)) (rest : List Char) :
    Follows (textFields spaced fs ++ rest) := by
  cases fs <;> exact follows_cons (by decide)

theorem skipSpace_quote (k : String) (rest : List Char) :
    skipSpace (quote k ++ rest) = quote k ++ rest := by
  rw [quote_append]
  exact skipSpace_cons (by decide)

theorem skipSpace_gap_quote (k : String) (rest : List Char) :
    skipSpace (gap spaced ++ (quote k ++ rest)) = quote k ++ rest := by
  rw [quote_append]
  exact skipSpace_gap (by decide)

/-- An item of an object is its key and its value. -/
theorem parseKey_text (k : String) (v : Json) (rest : List Char) :
    parseKey (quote k ++ ':' :: (gap spaced ++ (text spaced v ++ rest))) =
      some (k, text spaced v ++ rest) := by
  obtain ⟨c, cs, htext, hspace, -⟩ : ∃ c cs, text spaced v = c :: cs ∧ _ := text_head v
  rw [htext]
  exact parseKey_quote k hspace

/-- **Parsing inverts printing**, as long as the fuel is at least the length of the text. By
induction on the fuel, for values, the rest of an array and the rest of an object at once. -/
theorem parse_text (n : ℕ) :
    (∀ v rest, (text spaced v).length ≤ n → Follows rest →
      parseValue n (text spaced v ++ rest) = some (v, rest)) ∧
    (∀ xs rest, (textItems spaced xs).length ≤ n →
      parseItems n (textItems spaced xs ++ rest) = some (xs, rest)) ∧
    ∀ fs rest, (textFields spaced fs).length ≤ n →
      parseFields n (textFields spaced fs ++ rest) = some (fs, rest) := by
  induction n with
  | zero =>
    refine ⟨fun v rest hlen => ?_, fun xs rest hlen => ?_, fun fs rest hlen => ?_⟩
    · obtain ⟨c, cs, htext, -⟩ : ∃ c cs, text spaced v = c :: cs ∧ _ := text_head v
      rw [htext] at hlen
      cases hlen
    · cases xs <;> cases hlen
    · cases fs <;> cases hlen
  | succ n ih =>
    obtain ⟨ihvalue, ihitems, ihfields⟩ := ih
    refine ⟨fun v rest hlen hrest => ?_, fun xs rest hlen => ?_, fun fs rest hlen => ?_⟩
    · cases v with
      | null => rfl
      | bool b => cases b <;> rfl
      | int k =>
        rw [text, parseValue_number (intText_ne_nil k) (intText_number k)]
        exact parseNumber_intText k hrest
      | float t =>
        rw [text, parseValue_number t.ne_nil t.number]
        exact parseNumber_floatText t hrest
      | str s =>
        rw [text, quote_append, parseValue, if_pos rfl, parseString_quote]
        simp
      | arr xs =>
        cases xs with
        | nil => rfl
        | cons x xs =>
          simp only [text, List.length_cons, List.length_append] at hlen
          obtain ⟨c, cs, htext, -, hclose⟩ : ∃ c cs, text spaced x = c :: cs ∧ _ := text_head x
          have hx := ihvalue x (textItems spaced xs ++ rest) (by omega) (follows_textItems xs rest)
          rw [text, List.cons_append, List.append_assoc, parseValue_arr (skipSpace_text x _), hx]
          · dsimp only [Option.bind_some]
            rw [ihitems xs rest (by omega)]
            rfl
          · rw [htext]
            exact fun h => hclose (Option.some.inj h)
      | obj fs =>
        cases fs with
        | nil => rfl
        | cons f fs =>
          obtain ⟨k, v⟩ := f
          simp only [text, List.length_cons, List.length_append] at hlen
          have hv := ihvalue v (textFields spaced fs ++ rest) (by omega)
            (follows_textFields fs rest)
          simp only [text, List.cons_append, List.append_assoc]
          rw [parseValue_obj (skipSpace_quote k _), parseKey_text]
          · dsimp only [Option.bind_some]
            rw [hv]
            dsimp only [Option.bind_some]
            rw [ihfields fs rest (by omega)]
            rfl
          · rw [quote_append]
            exact fun h => absurd (Option.some.inj h) (by decide)
    · cases xs with
      | nil => rfl
      | cons x xs =>
        simp only [textItems, List.length_cons, List.length_append] at hlen
        have hx := ihvalue x (textItems spaced xs ++ rest) (by omega) (follows_textItems xs rest)
        rw [textItems, List.cons_append, List.append_assoc, List.append_assoc, parseItems_comma,
          skipSpace_gap_text, hx]
        dsimp only [Option.bind_some]
        rw [ihitems xs rest (by omega)]
        rfl
    · cases fs with
      | nil => rfl
      | cons f fs =>
        obtain ⟨k, v⟩ := f
        simp only [textFields, List.length_cons, List.length_append] at hlen
        have hv := ihvalue v (textFields spaced fs ++ rest) (by omega) (follows_textFields fs rest)
        simp only [textFields, List.cons_append, List.append_assoc]
        rw [parseFields_comma, skipSpace_gap_quote, parseKey_text]
        dsimp only [Option.bind_some]
        rw [hv]
        dsimp only [Option.bind_some]
        rw [ihfields fs rest (by omega)]
        rfl

/-- **A text that was dumped is read back.** -/
theorem loads_dumps (spaced : Bool) (v : Json) : loads (dumps spaced v) = some v := by
  have hparse := (parse_text ((text spaced v).length + 1)).1 v [] (Nat.le_succ _) (by rintro c ⟨⟩)
  rw [List.append_nil] at hparse
  have hskip : skipSpace (text spaced v ++ []) = text spaced v ++ [] := skipSpace_text v []
  rw [List.append_nil] at hskip
  rw [loads, dumps, String.toList_ofList, hskip, hparse]
  rfl

/-- The text determines the value. -/
theorem dumps_injective (spaced : Bool) : Function.Injective (dumps spaced) := by
  intro v w h
  have hv := loads_dumps spaced v
  rw [h, loads_dumps] at hv
  exact (Option.some.inj hv).symm

/-! ## Sorted keys -/

/-- Strings by their code points. -/
def keyLe : List Char → List Char → Bool
  | [], _ => true
  | _ :: _, [] => false
  | c :: cs, d :: ds => c.toNat < d.toNat || (c.toNat == d.toNat && keyLe cs ds)

/-- Items by their keys. -/
def sortItems (fields : List (String × Json)) : List (String × Json) :=
  fields.insertionSort fun a b => keyLe a.1.toList b.1.toList = true

mutual

/-- The value with the keys of its objects in order, as `sort_keys` writes it. -/
def sortKeys : Json → Json
  | arr xs => arr (sortKeysAll xs)
  | obj fs => obj (sortItems (sortKeysIn fs))
  | null => null
  | bool b => bool b
  | int n => int n
  | float t => float t
  | str s => str s

def sortKeysAll : List Json → List Json
  | [] => []
  | x :: xs => sortKeys x :: sortKeysAll xs

def sortKeysIn : List (String × Json) → List (String × Json)
  | [] => []
  | (k, v) :: fs => (k, sortKeys v) :: sortKeysIn fs

end

theorem sortKeysIn_append (fs gs : List (String × Json)) :
    sortKeysIn (fs ++ gs) = sortKeysIn fs ++ sortKeysIn gs := by
  induction fs with
  | nil => rfl
  | cons f fs ih => rw [List.cons_append, sortKeysIn, sortKeysIn, ih, List.cons_append]

theorem keys_sortKeysIn (fs : List (String × Json)) :
    (sortKeysIn fs).map Prod.fst = fs.map Prod.fst := by
  induction fs with
  | nil => rfl
  | cons f fs ih => rw [sortKeysIn, List.map_cons, List.map_cons, ih]

theorem perm_sortItems (fields : List (String × Json)) : (sortItems fields).Perm fields :=
  List.perm_insertionSort _ _

/-- Two lists of items under the same keys, none of which comes twice, are equal as soon as they
are equal up to order. -/
theorem eq_of_perm_of_keys {fs gs : List (String × Json)} (hperm : fs.Perm gs)
    (hkeys : fs.map Prod.fst = gs.map Prod.fst) (hnodup : (fs.map Prod.fst).Nodup) : fs = gs := by
  induction fs generalizing gs with
  | nil => exact hperm.nil_eq
  | cons f fs ih =>
    cases gs with
    | nil => exact absurd hkeys (List.cons_ne_nil _ _)
    | cons g gs =>
      obtain ⟨hkey, hrest⟩ := List.cons.inj hkeys
      obtain ⟨hfresh, hnodup⟩ := List.nodup_cons.mp hnodup
      have hfg : f = g := by
        rcases List.mem_cons.mp (hperm.subset List.mem_cons_self) with h | h
        · exact h
        · -- otherwise its key comes again
          rw [hrest] at hfresh
          exact absurd (List.mem_map_of_mem h) hfresh
      subst hfg
      rw [ih ((List.perm_cons f).mp hperm) hrest hnodup]

/-- **The text with sorted keys determines the items**, if their keys are known and none of them
comes twice. -/
theorem sortItems_inj {fs gs : List (String × Json)} (h : sortItems fs = sortItems gs)
    (hkeys : fs.map Prod.fst = gs.map Prod.fst) (hnodup : (fs.map Prod.fst).Nodup) : fs = gs := by
  apply eq_of_perm_of_keys _ hkeys hnodup
  exact (perm_sortItems fs).symm.trans (h ▸ perm_sortItems gs)

end Json

end Eyenet
