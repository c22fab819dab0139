import Eyenet.Framing

/-!
# Decoding UTF-8

Bytes as characters, one byte after the other. A byte that cannot go on with the character that was
begun ends it, and is looked at again as the first byte of another; the bytes of a character that
was not completed, and a byte that begins none, are one failure each.

* `Utf8.decode_encode` — what was encoded is read.
-/

namespace Eyenet

namespace Utf8

/-- A character that was begun: the bytes that it takes after the next one, the least and the
greatest next one, and the code point so far. -/
structure Begun where
  owed : ℕ
  low : ℕ
  high : ℕ
  code : ℕ

/-- A first byte: the characters that it completes, `none` for a failure, and what it begins. -/
def first (b : ℕ) : List (Option Char) × Option Begun :=
  if b < 128 then ([some (Char.ofNat b)], none)
  else if b < 194 then ([none], none)
  else if b < 224 then ([], some ⟨0, 128, 191, b - 192⟩)
  else if b < 240 then
    -- no overlong form, and no surrogate
    ([], some ⟨1, if b = 224 then 160 else 128, if b = 237 then 159 else 191, b - 224⟩)
  else if b < 245 then
    ([], some ⟨2, if b = 240 then 144 else 128, if b = 244 then 143 else 191, b - 240⟩)
  else ([none], none)

/-- A byte after what was begun. -/
def next (begun : Option Begun) (b : ℕ) : List (Option Char) × Option Begun :=
  match begun with
  | none => first b
  | some p =>
    if p.low ≤ b ∧ b ≤ p.high then
      match p.owed with
      | 0 => ([some (Char.ofNat (p.code * 64 + (b - 128)))], none)
      | owed + 1 => ([], some ⟨owed, 128, 191, p.code * 64 + (b - 128)⟩)
    else (none :: (first b).1, (first b).2)

/-- The characters of some bytes after what was begun; `none` for a failure. -/
def decodeFrom (begun : Option Begun) : List UInt8 → List (Option Char)
  | [] => if begun.isSome then [none] else []
  | b :: bytes => (next begun b.toNat).1 ++ decodeFrom (next begun b.toNat).2 bytes

/-- `bytes.decode("utf-8", "replace")` -/
def decodeReplace (bytes : List UInt8) : List Char :=
  (decodeFrom none bytes).map fun c => c.getD '\uFFFD'

/-- `bytes.decode("utf-8")`; `none` is a `UnicodeDecodeError`. -/
def decode (bytes : List UInt8) : Option (List Char) := (decodeFrom none bytes).mapM id

/-! ## What was encoded -/

section Encoded

variable {bytes : List UInt8}

theorem decodeFrom_cons (begun : Option Begun) (b : UInt8) (bytes : List UInt8) :
    decodeFrom begun (b :: bytes) =
      (next begun b.toNat).1 ++ decodeFrom (next begun b.toNat).2 bytes := rfl

theorem decodeFrom_first {m : ℕ} (hm : m < 256) :
    decodeFrom none (UInt8.ofNat m :: bytes) = (first m).1 ++ decodeFrom (first m).2 bytes := by
  rw [decodeFrom_cons, UInt8.toNat_ofNat_of_lt' hm]
  rfl

/-- A byte that goes on with a character. -/
theorem decodeFrom_follow {p : Begun} {owed m : ℕ} (howed : p.owed = owed + 1) (hm : m < 256)
    (hlow : p.low ≤ m) (hhigh : m ≤ p.high) :
    decodeFrom (some p) (UInt8.ofNat m :: bytes) =
      decodeFrom (some ⟨owed, 128, 191, p.code * 64 + (m - 128)⟩) bytes := by
  rw [decodeFrom_cons, UInt8.toNat_ofNat_of_lt' hm, next, if_pos ⟨hlow, hhigh⟩, howed]
  rfl

/-- A byte that completes a character. -/
theorem decodeFrom_last {p : Begun} {m : ℕ} (howed : p.owed = 0) (hm : m < 256)
    (hlow : p.low ≤ m) (hhigh : m ≤ p.high) :
    decodeFrom (some p) (UInt8.ofNat m :: bytes) =
      some (Char.ofNat (p.code * 64 + (m - 128))) :: decodeFrom none bytes := by
  rw [decodeFrom_cons, UInt8.toNat_ofNat_of_lt' hm, next, if_pos ⟨hlow, hhigh⟩, howed]
  rfl

theorem ofNat_eq {n : ℕ} {c : Char} (h : n = c.toNat) : Char.ofNat n = c := by
  rw [h, Char.ofNat_toNat]

/-- A character that was encoded is read, by the number of its bytes. -/
theorem decodeFrom_encodeChar (c : Char) :
    decodeFrom none (String.utf8EncodeChar c ++ bytes) = some c :: decodeFrom none bytes := by
  have hvalid := c.valid
  have hval : c.val.toNat = c.toNat := rfl
  rw [String.utf8EncodeChar, hval]
  have hlt : c.toNat < 1114112 := by
    rcases hvalid with h | ⟨_, h⟩
    · exact h.trans (by decide)
    · exact h
  have hscalar : ¬ (55296 ≤ c.toNat ∧ c.toNat < 57344) := by
    rintro ⟨hlow, hhigh⟩
    rcases hvalid with h | ⟨h, _⟩
    · exact absurd h (not_lt.mpr hlow)
    · exact absurd h (not_lt.mpr (Nat.lt_succ_iff.mp hhigh))
  split_ifs with hone htwo hthree
  · rw [List.singleton_append, decodeFrom_first (by omega), first, if_pos (by omega),
      Char.ofNat_toNat]
    rfl
  · rw [List.cons_append, decodeFrom_first (by omega), first, if_neg (by omega),
      if_neg (by omega), if_pos (by omega), List.nil_append,
      List.singleton_append, decodeFrom_last rfl (by omega) (by dsimp only; omega)
        (by dsimp only; omega), ofNat_eq (c := c) (by dsimp only; omega)]
  · rw [List.cons_append, decodeFrom_first (by omega), first, if_neg (by omega),
      if_neg (by omega), if_neg (by omega), if_pos (by omega),
      List.nil_append, List.cons_append, decodeFrom_follow rfl (by omega)
        (by dsimp only; split_ifs <;> omega) (by dsimp only; split_ifs <;> omega),
      List.singleton_append, decodeFrom_last rfl (by omega) (by dsimp only; omega)
        (by dsimp only; omega), ofNat_eq (c := c) (by dsimp only; omega)]
  · rw [List.cons_append, decodeFrom_first (by omega), first, if_neg (by omega),
      if_neg (by omega), if_neg (by omega), if_neg (by omega),
      if_pos (by omega), List.nil_append, List.cons_append, decodeFrom_follow rfl (by omega)
        (by dsimp only; split_ifs <;> omega) (by dsimp only; split_ifs <;> omega),
      List.cons_append, decodeFrom_follow rfl (by omega) (by dsimp only; omega)
        (by dsimp only; omega),
      List.singleton_append, decodeFrom_last rfl (by omega) (by dsimp only; omega)
        (by dsimp only; omega), ofNat_eq (c := c) (by dsimp only; omega)]

/-- By induction on the characters. -/
theorem decodeFrom_encode (cs : List Char) :
    decodeFrom none (cs.flatMap String.utf8EncodeChar) = cs.map some := by
  induction cs with
  | nil => rfl
  | cons c cs ih => rw [List.flatMap_cons, decodeFrom_encodeChar, ih, List.map_cons]

/-- **What was encoded is read.** -/
theorem decode_encode (cs : List Char) : decode (cs.flatMap String.utf8EncodeChar) = some cs := by
  rw [decode, decodeFrom_encode]
  induction cs with
  | nil => rfl
  | cons c cs ih => rw [List.map_cons, List.mapM_cons, ih]; rfl

theorem decodeReplace_encode (cs : List Char) :
    decodeReplace (cs.flatMap String.utf8EncodeChar) = cs := by
  rw [decodeReplace, decodeFrom_encode, List.map_map]
  exact List.map_id cs

end Encoded

end Utf8

end Eyenet
