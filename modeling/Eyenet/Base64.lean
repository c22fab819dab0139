import Mathlib.Data.List.Basic
import Mathlib.Data.Nat.Init

/-!
# Base 64

Bytes as characters of six bits each, three bytes in four characters, and the lenient way back:
characters outside the alphabet are passed over, and padding ends the reading of a group that it
completes.

* `Base64.decode_encode` — what is written is read.
-/

namespace Eyenet

namespace Base64

/-- The characters for six bits. -/
def alphabet : List Char :=
  "ABCDEFGHIJKLMNOPQRSTUVWXYZabcdefghijklmnopqrstuvwxyz0123456789+/".toList

/-- The character of a number below 64. -/
def digit (n : ℕ) : Char := alphabet.getD n '='

/-- The number of a character of the alphabet. -/
def value (c : Char) : Option ℕ := alphabet.findIdx? fun d => d = c

/-- `b64encode` -/
def encode : List UInt8 → List Char
  | [] => []
  | [a] => [digit (a.toNat / 4), digit (a.toNat % 4 * 16), '=', '=']
  | [a, b] =>
    [digit (a.toNat / 4), digit (a.toNat % 4 * 16 + b.toNat / 16), digit (b.toNat % 16 * 4), '=']
  | a :: b :: c :: bytes =>
    digit (a.toNat / 4) :: digit (a.toNat % 4 * 16 + b.toNat / 16) ::
      digit (b.toNat % 16 * 4 + c.toNat / 64) :: digit (c.toNat % 64) :: encode bytes

/-- The loop of `a2b_base64` in its lenient mode, from a position in a group of four on: `left` are
the bits that are left of the last character, `pads` counts the padding since. -/
def readFrom (quad left pads : ℕ) : List Char → Option (List UInt8)
  | [] => if quad = 0 then some [] else none
  | c :: cs =>
    if c = '=' then
      if 2 ≤ quad then
        if 4 ≤ quad + (pads + 1) then some [] else readFrom quad left (pads + 1) cs
      else readFrom quad left pads cs
    else
      match value c with
      | none => readFrom quad left pads cs
      | some v =>
        match quad with
        | 0 => readFrom 1 v 0 cs
        | 1 => (readFrom 2 (v % 16) 0 cs).map (UInt8.ofNat (left * 4 + v / 16) :: ·)
        | 2 => (readFrom 3 (v % 4) 0 cs).map (UInt8.ofNat (left * 16 + v / 4) :: ·)
        | _ => (readFrom 0 0 0 cs).map (UInt8.ofNat (left * 64 + v) :: ·)

/-- `b64decode`; `none` is a `binascii.Error`. -/
def decode (cs : List Char) : Option (List UInt8) := readFrom 0 0 0 cs

/-! ## Characters -/

theorem value_digit {n : ℕ} (hn : n < 64) : value (digit n) = some n := by
  have hall : ∀ k < 64, value (digit k) = some k := by decide
  exact hall n hn

/-- No character outside the alphabet is written for a number. -/
theorem digit_ne {n : ℕ} (hn : n < 64) {c : Char} (hc : value c = none) : digit n ≠ c := by
  rintro rfl
  rw [value_digit hn] at hc
  cases hc

theorem digit_ne_pad {n : ℕ} (hn : n < 64) : digit n ≠ '=' := digit_ne hn (by decide)

theorem digit_mem {n : ℕ} (hn : n < 64) : digit n ∈ alphabet := by
  have hlen : alphabet.length = 64 := by decide
  rw [digit, List.getD_eq_getElem?_getD, List.getElem?_eq_getElem (hlen ▸ hn)]
  exact List.getElem_mem _

/-! ## Groups -/

section Group

variable {n left pads : ℕ} {cs : List Char}

theorem readFrom_first (hn : n < 64) :
    readFrom 0 left pads (digit n :: cs) = readFrom 1 n 0 cs := by
  simp only [readFrom, if_neg (digit_ne_pad hn), value_digit hn]

theorem readFrom_second (hn : n < 64) : readFrom 1 left pads (digit n :: cs) =
    (readFrom 2 (n % 16) 0 cs).map (UInt8.ofNat (left * 4 + n / 16) :: ·) := by
  simp only [readFrom, if_neg (digit_ne_pad hn), value_digit hn]

theorem readFrom_third (hn : n < 64) : readFrom 2 left pads (digit n :: cs) =
    (readFrom 3 (n % 4) 0 cs).map (UInt8.ofNat (left * 16 + n / 4) :: ·) := by
  simp only [readFrom, if_neg (digit_ne_pad hn), value_digit hn]

theorem readFrom_fourth (hn : n < 64) : readFrom 3 left pads (digit n :: cs) =
    (readFrom 0 0 0 cs).map (UInt8.ofNat (left * 64 + n) :: ·) := by
  simp only [readFrom, if_neg (digit_ne_pad hn), value_digit hn]

end Group

theorem decode_one (a : UInt8) : decode (encode [a]) = some [a] := by
  have ha := a.toNat_lt
  have hfirst : a.toNat / 4 * 4 + a.toNat % 4 * 16 / 16 = a.toNat := by omega
  rw [decode, encode, readFrom_first (by omega), readFrom_second (by omega), hfirst,
    UInt8.ofNat_toNat]
  rfl

theorem decode_two (a b : UInt8) : decode (encode [a, b]) = some [a, b] := by
  have ha := a.toNat_lt
  have hb := b.toNat_lt
  have hfirst : a.toNat / 4 * 4 + (a.toNat % 4 * 16 + b.toNat / 16) / 16 = a.toNat := by omega
  have hsecond : (a.toNat % 4 * 16 + b.toNat / 16) % 16 * 16 + b.toNat % 16 * 4 / 4 = b.toNat := by
    omega
  rw [decode, encode, readFrom_first (by omega), readFrom_second (by omega),
    readFrom_third (by omega), hfirst, hsecond, UInt8.ofNat_toNat, UInt8.ofNat_toNat]
  rfl

theorem decode_three (a b c : UInt8) (bytes : List UInt8) :
    decode (encode (a :: b :: c :: bytes)) =
      (decode (encode bytes)).map (a :: b :: c :: ·) := by
  have ha := a.toNat_lt
  have hb := b.toNat_lt
  have hc := c.toNat_lt
  have hfirst : a.toNat / 4 * 4 + (a.toNat % 4 * 16 + b.toNat / 16) / 16 = a.toNat := by omega
  have hsecond : (a.toNat % 4 * 16 + b.toNat / 16) % 16 * 16 +
      (b.toNat % 16 * 4 + c.toNat / 64) / 4 = b.toNat := by omega
  have hthird : (b.toNat % 16 * 4 + c.toNat / 64) % 4 * 64 + c.toNat % 64 = c.toNat := by omega
  rw [decode, encode, readFrom_first (by omega), readFrom_second (by omega),
    readFrom_third (by omega), readFrom_fourth (by omega), hfirst, hsecond, hthird,
    UInt8.ofNat_toNat, UInt8.ofNat_toNat, UInt8.ofNat_toNat, Option.map_map, Option.map_map]
  rfl

/-- **Round trip.** What is written is read. -/
theorem decode_encode (bytes : List UInt8) : decode (encode bytes) = some bytes := by
  induction bytes using encode.induct with
  | case1 => rfl
  | case2 a => exact decode_one a
  | case3 a b => exact decode_two a b
  | case4 a b c bytes ih => rw [decode_three, ih, Option.map_some]

/-! ## What is written -/

theorem length_encode (bytes : List UInt8) :
    (encode bytes).length = 4 * ((bytes.length + 2) / 3) := by
  induction bytes using encode.induct with
  | case1 => rfl
  | case2 a => simp [encode]
  | case3 a b => simp [encode]
  | case4 a b c bytes ih =>
    simp only [encode, List.length_cons, ih]
    omega

/-- Every character written is of the alphabet, or padding. -/
theorem mem_encode {bytes : List UInt8} {c : Char} (hc : c ∈ encode bytes) :
    (∃ n < 64, c = digit n) ∨ c = '=' := by
  induction bytes using encode.induct with
  | case1 => exact absurd hc List.not_mem_nil
  | case2 a =>
    have ha := a.toNat_lt
    simp only [encode, List.mem_cons, List.not_mem_nil, or_false] at hc
    rcases hc with rfl | rfl | rfl | rfl
    · exact Or.inl ⟨_, by omega, rfl⟩
    · exact Or.inl ⟨_, by omega, rfl⟩
    · exact Or.inr rfl
    · exact Or.inr rfl
  | case3 a b =>
    have ha := a.toNat_lt
    have hb := b.toNat_lt
    simp only [encode, List.mem_cons, List.not_mem_nil, or_false] at hc
    rcases hc with rfl | rfl | rfl | rfl
    · exact Or.inl ⟨_, by omega, rfl⟩
    · exact Or.inl ⟨_, by omega, rfl⟩
    · exact Or.inl ⟨_, by omega, rfl⟩
    · exact Or.inr rfl
  | case4 a b c' bytes ih =>
    have ha := a.toNat_lt
    have hb := b.toNat_lt
    have hc' := c'.toNat_lt
    simp only [encode, List.mem_cons] at hc
    rcases hc with rfl | rfl | rfl | rfl | hc
    · exact Or.inl ⟨_, by omega, rfl⟩
    · exact Or.inl ⟨_, by omega, rfl⟩
    · exact Or.inl ⟨_, by omega, rfl⟩
    · exact Or.inl ⟨_, by omega, rfl⟩
    · exact ih hc

end Base64

end Eyenet
