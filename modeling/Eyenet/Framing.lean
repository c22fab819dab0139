import Mathlib.Data.List.Basic
import Mathlib.Data.Nat.Basic
import Mathlib.Tactic.Ring

/-!
# Length-prefixed framing of byte strings

A field is framed by writing its length as a fixed-width big-endian number in front of it. A
reader that knows the width can always tell where the field ends, so the concatenation of
framed fields determines the fields — and whatever follows them (`frames_append_inj`).

The width bounds the length that can be written: framing a longer field fails.
-/

namespace Eyenet

/-- A byte string. -/
abbrev Bytes := List UInt8

/-- The UTF-8 encoding of a string. -/
def utf8 (s : String) : Bytes := s.toByteArray.data.toList

theorem utf8_injective : Function.Injective utf8 := by
  intro s t h
  apply String.toByteArray_inj.mp
  apply ByteArray.ext
  apply Array.ext'
  exact h

theorem utf8_eq_flatMap (s : String) : utf8 s = s.toList.flatMap String.utf8EncodeChar := by
  rw [utf8, ← String.utf8Encode_toList, List.utf8Encode]
  simp

/-- A character takes at most four bytes. -/
theorem length_utf8_le (s : String) : (utf8 s).length ≤ 4 * s.length := by
  have hchars : ∀ cs : List Char, (cs.flatMap String.utf8EncodeChar).length ≤ 4 * cs.length := by
    intro cs
    induction cs with
    | nil => simp
    | cons c cs ih =>
      have hc := c.utf8Size_le_four
      simp only [List.flatMap_cons, List.length_append, String.length_utf8EncodeChar,
        List.length_cons]
      omega
  rw [utf8_eq_flatMap, ← String.length_toList]
  exact hchars s.toList

/-- The two lowercase hex digits of a byte. -/
def hexByte (b : UInt8) : List Char :=
  [Nat.digitChar (b.toNat / 16), Nat.digitChar (b.toNat % 16)]

/-- `bytes.hex()` -/
def hex (b : Bytes) : String := String.ofList (b.flatMap hexByte)

/-- The value of a hexadecimal digit. -/
def hexValue (c : Char) : Option ℕ :=
  if '0' ≤ c ∧ c ≤ '9' then some (c.toNat - '0'.toNat)
  else if 'a' ≤ c ∧ c ≤ 'f' then some (c.toNat - 'a'.toNat + 10)
  else if 'A' ≤ c ∧ c ≤ 'F' then some (c.toNat - 'A'.toNat + 10)
  else none

theorem hexValue_digitChar : ∀ d < 16, hexValue (Nat.digitChar d) = some d := by decide

theorem length_flatMap_hexByte (b : Bytes) : (b.flatMap hexByte).length = 2 * b.length := by
  induction b with
  | nil => rfl
  | cons x xs ih =>
    rw [List.flatMap_cons, List.length_append, ih, hexByte, List.length_cons]
    simp
    omega

theorem hexByte_injective : Function.Injective hexByte := by
  intro a b h
  obtain ⟨hhigh, hrest⟩ := List.cons.inj h
  have hdigit {i j : ℕ} (hi : i < 16) (hj : j < 16) (hij : Nat.digitChar i = Nat.digitChar j) :
      i = j := by
    have hvalue := hexValue_digitChar i hi
    rw [hij, hexValue_digitChar j hj] at hvalue
    exact (Option.some.inj hvalue).symm
  have ha := a.toNat_lt
  have hb := b.toNat_lt
  have hdiv := hdigit (by omega) (by omega) hhigh
  have hmod := hdigit (by omega) (by omega) (List.cons.inj hrest).1
  apply UInt8.toNat_inj.mp
  omega

theorem hex_injective : Function.Injective hex := by
  intro a b h
  have hchars : a.flatMap hexByte = b.flatMap hexByte := String.ofList_injective h
  clear h
  induction a generalizing b with
  | nil =>
    cases b with
    | nil => rfl
    | cons y ys => cases hchars
  | cons x xs ih =>
    cases b with
    | nil => cases hchars
    | cons y ys =>
      obtain ⟨hxy, hrest⟩ := List.append_inj hchars rfl
      rw [hexByte_injective hxy, ih hrest]

theorem isSome_hexValue (b : UInt8) : ∀ c ∈ hexByte b, (hexValue c).isSome = true := by
  have hdigit : ∀ d < 16, (hexValue (Nat.digitChar d)).isSome = true := by decide
  have hb := b.toNat_lt
  simp only [hexByte, List.mem_cons, List.not_mem_nil, or_false]
  rintro c (rfl | rfl)
  · exact hdigit _ (by omega)
  · exact hdigit _ (by omega)

theorem hexByte_ne_dash (b : UInt8) : ∀ c ∈ hexByte b, c ≠ '-' := by
  have hdigit : ∀ d < 16, Nat.digitChar d ≠ '-' := by decide
  have hb := b.toNat_lt
  simp only [hexByte, List.mem_cons, List.not_mem_nil, or_false]
  rintro c (rfl | rfl)
  · exact hdigit _ (by omega)
  · exact hdigit _ (by omega)

/-- A number in hexadecimal. -/
def readHex (ds : List Char) : Option ℕ :=
  ds.foldlM (fun n c => (hexValue c).map fun d => 16 * n + d) 0

theorem readHex_append (xs ys : List Char) : readHex (xs ++ ys) = (readHex xs).bind fun n =>
    ys.foldlM (fun n c => (hexValue c).map fun d => 16 * n + d) n :=
  List.foldlM_append

namespace Framing

/-- The `w` lowest digits of `n` in base `b`, the highest first. -/
def numeral {β : Type*} (b : ℕ) (digit : ℕ → β) : ℕ → ℕ → List β
  | 0, _ => []
  | w + 1, n => numeral b digit w (n / b) ++ [digit (n % b)]

section Numeral

variable {β : Type*} {b : ℕ} {digit : ℕ → β} {m n w : ℕ} {x y : List β}

@[simp] theorem length_numeral : (numeral b digit w n).length = w := by
  induction w generalizing n with
  | zero => rfl
  | succ w ih => rw [numeral, List.length_append, ih, List.length_singleton]

/-- The digits determine the number when it fits the width. -/
theorem numeral_inj (hdigit : ∀ {i j}, i < b → j < b → digit i = digit j → i = j)
    (hm : m < b ^ w) (hn : n < b ^ w) (h : numeral b digit w m = numeral b digit w n) :
    m = n := by
  induction w generalizing m n with
  | zero =>
    rw [pow_zero] at hm hn
    omega
  | succ w ih =>
    rw [pow_succ'] at hm hn
    have hb : 0 < b := Nat.pos_of_ne_zero fun hb => by simp [hb] at hm
    obtain ⟨hhigh, hlow⟩ := List.append_inj' h rfl
    have hdiv : m / b = n / b :=
      ih (Nat.div_lt_of_lt_mul hm) (Nat.div_lt_of_lt_mul hn) hhigh
    have hmod : m % b = n % b :=
      hdigit (Nat.mod_lt m hb) (Nat.mod_lt n hb) (List.cons.inj hlow).1
    rw [← Nat.div_add_mod m b, ← Nat.div_add_mod n b, hdiv, hmod]

/-- A numeral of known width can be read off the front of a list in one way only. -/
theorem numeral_append_inj (hdigit : ∀ {i j}, i < b → j < b → digit i = digit j → i = j)
    (hm : m < b ^ w) (hn : n < b ^ w)
    (h : numeral b digit w m ++ x = numeral b digit w n ++ y) : m = n ∧ x = y := by
  obtain ⟨hnum, hrest⟩ := List.append_inj h (by simp)
  exact ⟨numeral_inj hdigit hm hn hnum, hrest⟩

/-- Lists that start with parts of one length are compared by these parts first. -/
theorem append_lt_append_iff [LT β] {c d : List β} (hlen : c.length = d.length) :
    c ++ x < d ++ y ↔ c < d ∨ c = d ∧ x < y := by
  induction c generalizing d with
  | nil =>
    obtain rfl := List.eq_nil_of_length_eq_zero hlen.symm
    simp
  | cons a c ih =>
    cases d with
    | nil => simp at hlen
    | cons a' d =>
      have hrest := ih (Nat.succ.inj hlen)
      rw [List.cons_append, List.cons_append, List.cons_lt_cons_iff, List.cons_lt_cons_iff, hrest,
        List.cons.injEq]
      tauto

/-- Numerals of one width are ordered as the numbers. -/
theorem numeral_lt_iff [LT β] (hdigit : ∀ {i j}, i < b → j < b → digit i = digit j → i = j)
    (hlt : ∀ {i j}, i < b → j < b → (digit i < digit j ↔ i < j)) (hm : m < b ^ w)
    (hn : n < b ^ w) : numeral b digit w m < numeral b digit w n ↔ m < n := by
  induction w generalizing m n with
  | zero =>
    rw [pow_zero] at hm hn
    have heq : m = n := by omega
    simp [numeral, heq]
  | succ w ih =>
    rw [pow_succ'] at hm hn
    have hb : 0 < b := Nat.pos_of_ne_zero fun hb => by simp [hb] at hm
    have hm' := Nat.div_lt_of_lt_mul hm
    have hn' := Nat.div_lt_of_lt_mul hn
    have hinj : numeral b digit w (m / b) = numeral b digit w (n / b) ↔ m / b = n / b :=
      ⟨numeral_inj hdigit hm' hn', fun h => by rw [h]⟩
    have hdm := Nat.div_add_mod m b
    have hdn := Nat.div_add_mod n b
    have hmm := Nat.mod_lt m hb
    have hnm := Nat.mod_lt n hb
    rw [numeral, numeral, append_lt_append_iff (by simp), ih hm' hn', hinj,
      List.cons_lt_cons_iff, hlt hmm hnm]
    refine ⟨?_, ?_⟩
    · rintro (h | ⟨heq, h | ⟨-, h⟩⟩)
      · exact Nat.lt_of_div_lt_div h
      · rw [heq] at hdm
        omega
      · simp at h
    · intro h
      rcases (Nat.div_le_div_right (c := b) h.le).lt_or_eq with hdiv | hdiv
      · exact .inl hdiv
      · rw [hdiv] at hdm
        exact .inr ⟨hdiv, .inl (by omega)⟩

end Numeral

/-- `n` as `w` big-endian bytes; the high part is dropped when it does not fit. -/
def toBytesBE (w n : ℕ) : Bytes := numeral 256 UInt8.ofNat w n

@[simp] theorem length_toBytesBE (w n : ℕ) : (toBytesBE w n).length = w := length_numeral

/-- The bytes of a number in hexadecimal are the number in hexadecimal. -/
theorem readHex_bytes (w : ℕ) {n : ℕ} (h : n < 256 ^ w) :
    readHex ((toBytesBE w n).flatMap hexByte) = some n := by
  induction w generalizing n with
  | zero =>
    have hzero : n = 0 := by simpa using h
    rw [hzero]
    rfl
  | succ w ih =>
    have hhigh : n / 256 < 256 ^ w := Nat.div_lt_of_lt_mul (by rwa [← pow_succ'])
    have hbyte : (UInt8.ofNat (n % 256)).toNat = n % 256 := by simp
    have hstep : toBytesBE (w + 1) n = toBytesBE w (n / 256) ++ [UInt8.ofNat (n % 256)] := rfl
    rw [hstep, List.flatMap_append, readHex_append, ih hhigh, Option.bind_some,
      List.flatMap_singleton, hexByte, hbyte]
    have hhi : hexValue (Nat.digitChar (n % 256 / 16)) = some (n % 256 / 16) :=
      hexValue_digitChar _ (by omega)
    have hlo : hexValue (Nat.digitChar (n % 256 % 16)) = some (n % 256 % 16) :=
      hexValue_digitChar _ (by omega)
    simp only [List.foldlM_cons, List.foldlM_nil, hhi, hlo, Option.map_some, Option.bind_eq_bind,
      Option.bind_some]
    congr 1
    omega

theorem uint8_ofNat_inj {i j : ℕ} (hi : i < 256) (hj : j < 256)
    (h : UInt8.ofNat i = UInt8.ofNat j) : i = j := by
  have hnat := congrArg UInt8.toNat h
  rw [UInt8.toNat_ofNat', UInt8.toNat_ofNat'] at hnat
  omega

/-- The field behind its length in `w` big-endian bytes; `none` when the length does not
fit. -/
def frame (w : ℕ) (raw : Bytes) : Option Bytes :=
  if raw.length < 256 ^ w then some (toBytesBE w raw.length ++ raw) else none

/-- The framed fields, one after the other. -/
def frames (w : ℕ) : List Bytes → Option Bytes
  | [] => some []
  | raw :: rest =>
    match frame w raw, frames w rest with
    | some b, some bs => some (b ++ bs)
    | _, _ => none

variable {w : ℕ} {a b x y fa fb : Bytes} {as bs : List Bytes}

theorem frame_eq_some :
    frame w a = some fa ↔ a.length < 256 ^ w ∧ fa = toBytesBE w a.length ++ a := by
  rw [frame]
  split_ifs with hfits
  · rw [Option.some.injEq, and_iff_right hfits, eq_comm]
  · exact iff_of_false (fun h => nomatch h) fun h => hfits h.1

theorem frames_cons_eq_some :
    frames w (a :: as) = some x ↔
      ∃ fa fs, frame w a = some fa ∧ frames w as = some fs ∧ x = fa ++ fs := by
  rw [frames]
  cases frame w a <;> cases frames w as <;> simp [eq_comm]

/-- A frame can be read off the front of a byte string in one way only. -/
theorem frame_append_inj (ha : frame w a = some fa) (hb : frame w b = some fb)
    (h : fa ++ x = fb ++ y) : a = b ∧ x = y := by
  obtain ⟨hla, rfl⟩ := frame_eq_some.mp ha
  obtain ⟨hlb, rfl⟩ := frame_eq_some.mp hb
  rw [List.append_assoc, List.append_assoc] at h
  obtain ⟨hlen, hrest⟩ := numeral_append_inj uint8_ofNat_inj hla hlb h
  exact List.append_inj hrest hlen

/-- **Framing is injective.** Two lists of equally many fields, each followed by a tail,
write the same bytes only if the fields and the tails agree. -/
theorem frames_append_inj (hlen : as.length = bs.length)
    (ha : frames w as = some fa) (hb : frames w bs = some fb) (h : fa ++ x = fb ++ y) :
    as = bs ∧ x = y := by
  induction as generalizing bs fa fb with
  | nil =>
    cases bs with
    | nil =>
      rw [frames, Option.some.injEq] at ha hb
      subst ha hb
      exact ⟨rfl, h⟩
    | cons b bs => simp at hlen
  | cons a as ih =>
    cases bs with
    | nil => simp at hlen
    | cons b bs =>
      obtain ⟨pa, ra, hpa, hra, rfl⟩ := frames_cons_eq_some.mp ha
      obtain ⟨pb, rb, hpb, hrb, rfl⟩ := frames_cons_eq_some.mp hb
      rw [List.append_assoc, List.append_assoc] at h
      obtain ⟨rfl, hrest⟩ := frame_append_inj hpa hpb h
      obtain ⟨rfl, rfl⟩ := ih (by simpa using hlen) hra hrb hrest
      exact ⟨rfl, rfl⟩

theorem frames_inj (hlen : as.length = bs.length) (ha : frames w as = some x)
    (hb : frames w bs = some x) : as = bs :=
  (frames_append_inj (x := []) (y := []) hlen ha hb rfl).1

/-- With a length word in front of every field, not even the number of fields needs to be known. -/
theorem frames_injective (hw : 0 < w) (ha : frames w as = some x) (hb : frames w bs = some x) :
    as = bs := by
  have hne : ∀ {c : Bytes} {cs : List Bytes}, frames w (c :: cs) ≠ some [] := by
    intro c cs h
    obtain ⟨fc, fcs, hfc, -, heq⟩ := frames_cons_eq_some.mp h
    obtain ⟨-, rfl⟩ := frame_eq_some.mp hfc
    have hlen := congrArg List.length heq
    simp only [List.length_nil, List.length_append, length_toBytesBE] at hlen
    omega
  induction as generalizing bs x with
  | nil =>
    obtain rfl : x = [] := (Option.some.inj ha).symm
    cases bs with
    | nil => rfl
    | cons b bs => exact absurd hb hne
  | cons a as ih =>
    cases bs with
    | nil =>
      obtain rfl : x = [] := (Option.some.inj hb).symm
      exact absurd ha hne
    | cons b bs =>
      obtain ⟨fa, fas, hfa, hfas, rfl⟩ := frames_cons_eq_some.mp ha
      obtain ⟨fb, fbs, hfb, hfbs, heq⟩ := frames_cons_eq_some.mp hb
      obtain ⟨rfl, rfl⟩ := frame_append_inj hfa hfb heq
      rw [ih hfas hfbs]

theorem frames_append_eq_some :
    frames w (as ++ bs) = some x ↔
      ∃ fa fb, frames w as = some fa ∧ frames w bs = some fb ∧ x = fa ++ fb := by
  induction as generalizing x with
  | nil => simp [frames, eq_comm]
  | cons a as ih =>
    rw [List.cons_append]
    simp only [frames_cons_eq_some, ih]
    refine ⟨?_, ?_⟩
    · rintro ⟨fa, _, hfa, ⟨fs, fb, hfs, hfb, rfl⟩, rfl⟩
      exact ⟨fa ++ fs, fb, ⟨fa, fs, hfa, hfs, rfl⟩, hfb, by rw [List.append_assoc]⟩
    · rintro ⟨_, fb, ⟨fa, fs, hfa, hfs, rfl⟩, hfb, rfl⟩
      exact ⟨fa, fs ++ fb, hfa, ⟨fs, fb, hfs, hfb, rfl⟩, by rw [List.append_assoc]⟩

/-- Fields that all fit the width can be framed. -/
theorem frames_isSome (h : ∀ a ∈ as, a.length < 256 ^ w) : (frames w as).isSome := by
  induction as with
  | nil => rfl
  | cons a as ih =>
    have hrest := ih fun c hc => h c (List.mem_cons_of_mem a hc)
    obtain ⟨fs, hfs⟩ := Option.isSome_iff_exists.mp hrest
    have hfit := h a List.mem_cons_self
    rw [frames, frame, if_pos hfit, hfs]
    rfl

end Framing

end Eyenet
