import Eyenet.Framing

/-!
# Obfuscated e-mail addresses

Cloudflare replaces an e-mail address by hexadecimal digits: a key byte, and then each byte of the
address in UTF-8, XORed with the key. The MyBB parser (`collectors/forum/_mybb.py`) undoes this with
`_cf_decode`, which makes a character of each byte.

* `CfEmail.decode_encode` — what comes back is the UTF-8 text, read byte by byte.
* `CfEmail.cf_decode_iff` — so exactly the ASCII addresses come back, and no input raises.
-/

namespace Eyenet

namespace CfEmail

/-- What `_cf_decode` could raise. -/
inductive PyError where
  | valueError
  | indexError
  deriving DecidableEq

/-- The whitespace that `bytes.fromhex` skips. -/
def isAsciiSpace (c : Char) : Bool := c ∈ [' ', '\t', '\n', '\x0b', '\x0c', '\r']

/-- A byte from its two hexadecimal digits. -/
def byteOfDigits (c d : Char) : Except PyError UInt8 :=
  match hexValue c, hexValue d with
  | some high, some low => .ok (UInt8.ofNat (16 * high + low))
  | _, _ => .error .valueError

/-- `bytes.fromhex`: pairs of digits, with whitespace in front of a pair. -/
def fromhex : List Char → Except PyError Bytes
  | [] => .ok []
  | [c] => if isAsciiSpace c then .ok [] else .error .valueError
  | c :: d :: cs =>
    if isAsciiSpace c then fromhex (d :: cs)
    else do
      let b ← byteOfDigits c d
      let bs ← fromhex cs
      return b :: bs

/-- `chr`, on code points that are no surrogates. -/
def chr (n : ℕ) : Except PyError Char :=
  if n < 1114112 then .ok (Char.ofNat n) else .error .valueError

/-- `raw[0]` -/
def firstByte : Bytes → Except PyError UInt8
  | [] => .error .indexError
  | b :: _ => .ok b

/-- `_cf_decode` -/
def cfDecode (hexs : String) : Except PyError String :=
  match fromhex hexs.toList with
  | .error .valueError => .ok ""
  | .error e => .error e
  | .ok raw =>
    if raw = [] then .ok ""
    else do
      let key ← firstByte raw
      let chars ← raw.tail.mapM fun b => chr (b ^^^ key).toNat
      return String.ofList chars

/-- Cloudflare's encoding of an address under a key. -/
def cfEncode (key : UInt8) (s : String) : String := hex (key :: (utf8 s).map (· ^^^ key))

/-- A byte as the character with its number. -/
def latin1 (b : UInt8) : Char := Char.ofNat b.toNat

section Decode

variable {b key : UInt8} {bs : Bytes} {c d : Char} {cs : List Char}

theorem not_isAsciiSpace (h : (hexValue c).isSome = true) : isAsciiSpace c = false := by
  have hnone : ([' ', '\t', '\n', '\x0b', '\x0c', '\r'].all
      fun x => (hexValue x).isNone) = true := by
    decide
  cases hspace : isAsciiSpace c with
  | false => rfl
  | true =>
    have hc := List.all_eq_true.mp hnone c (of_decide_eq_true hspace)
    rw [Option.isNone_iff_eq_none.mp hc] at h
    cases h

/-- A byte that was written is read back. -/
theorem byteOfDigits_hexByte (b : UInt8) :
    byteOfDigits (Nat.digitChar (b.toNat / 16)) (Nat.digitChar (b.toNat % 16)) = .ok b := by
  have hb := b.toNat_lt
  rw [byteOfDigits, hexValue_digitChar _ (by omega), hexValue_digitChar _ (by omega)]
  dsimp only
  rw [Nat.div_add_mod, UInt8.ofNat_toNat]

theorem fromhex_flatMap (bs : Bytes) : fromhex (bs.flatMap hexByte) = .ok bs := by
  induction bs with
  | nil => rfl
  | cons b bs ih =>
    have hdigit := isSome_hexValue b (Nat.digitChar (b.toNat / 16)) List.mem_cons_self
    rw [List.flatMap_cons, hexByte, List.cons_append, List.cons_append, List.nil_append, fromhex,
      not_isAsciiSpace hdigit, byteOfDigits_hexByte, ih]
    rfl

theorem chr_byte (b : UInt8) : chr b.toNat = .ok (latin1 b) := by
  have hb := b.toNat_lt
  rw [chr, if_pos (by omega), latin1]

theorem mapM_chr (f : UInt8 → UInt8) (bs : Bytes) :
    (bs.mapM fun b => chr (f b).toNat) = .ok (bs.map fun b => latin1 (f b)) := by
  induction bs with
  | nil => rfl
  | cons b bs ih =>
    rw [List.mapM_cons, chr_byte, ih]
    rfl

/-- What comes back of an encoded address: each byte of its UTF-8 text as a character. -/
theorem decode_encode (key : UInt8) (s : String) :
    cfDecode (cfEncode key s) = .ok (String.ofList ((utf8 s).map latin1)) := by
  have hxor : ((utf8 s).map (· ^^^ key)).map (fun b => latin1 (b ^^^ key)) =
      (utf8 s).map latin1 := by
    rw [List.map_map]
    refine List.map_congr_left fun b _ => congrArg latin1 ?_
    rw [UInt8.xor_assoc, UInt8.xor_self, UInt8.xor_zero]
  rw [cfDecode, cfEncode, hex, String.toList_ofList, fromhex_flatMap]
  dsimp only
  rw [if_neg (List.cons_ne_nil _ _), firstByte, List.tail_cons]
  change (do
    let chars ← ((utf8 s).map (· ^^^ key)).mapM fun b => chr (b ^^^ key).toNat
    return String.ofList chars) = _
  rw [mapM_chr (· ^^^ key), hxor]
  rfl

/-- Malformed digits are caught. -/
theorem fromhex_error {e : PyError} (h : fromhex cs = .error e) : e = .valueError := by
  induction cs using fromhex.induct with
  | case1 => cases h
  | case2 c hspace => rw [fromhex, if_pos hspace] at h; cases h
  | case3 c hspace =>
    rw [fromhex, if_neg hspace] at h
    exact (Except.error.inj h).symm
  | case4 c d cs hspace ih => exact ih (by rwa [fromhex, if_pos hspace] at h)
  | case5 c d cs hspace ih =>
    rw [fromhex, if_neg hspace] at h
    cases hb : byteOfDigits c d with
    | error e' =>
      rw [hb] at h
      obtain rfl : e' = e := Except.error.inj h
      rw [byteOfDigits] at hb
      split at hb
      · cases hb
      · exact (Except.error.inj hb).symm
    | ok b =>
      rw [hb] at h
      cases hbs : fromhex cs with
      | error e' =>
        rw [hbs] at h
        obtain rfl : e' = e := Except.error.inj h
        exact ih hbs
      | ok bs =>
        rw [hbs] at h
        cases h

/-- **No input raises.** -/
theorem cfDecode_returns (hexs : String) : ∃ t, cfDecode hexs = .ok t := by
  rw [cfDecode]
  cases hraw : fromhex hexs.toList with
  | error e =>
    obtain rfl := fromhex_error hraw
    exact ⟨_, rfl⟩
  | ok raw =>
    cases raw with
    | nil => exact ⟨_, rfl⟩
    | cons key bs =>
      refine ⟨String.ofList (bs.map fun b => latin1 (b ^^^ key)), ?_⟩
      dsimp only
      rw [if_neg (List.cons_ne_nil _ _), firstByte, List.tail_cons]
      change (do
        let chars ← bs.mapM fun b => chr (b ^^^ key).toNat
        return String.ofList chars) = _
      rw [mapM_chr (· ^^^ key)]
      rfl

end Decode

section Ascii

variable {cs : List Char}

theorem utf8Size_eq_one_iff {c : Char} : c.utf8Size = 1 ↔ c.toNat < 128 := by
  rw [Char.utf8Size_eq_one_iff, UInt32.le_iff_toNat_le]
  change c.toNat ≤ 127 ↔ _
  omega

/-- An ASCII character is its byte. -/
theorem utf8EncodeChar_ascii {c : Char} (h : c.toNat < 128) :
    (String.utf8EncodeChar c).map latin1 = [c] := by
  have hval : c.val.toNat < 128 := h
  rw [String.utf8EncodeChar_eq_singleton (utf8Size_eq_one_iff.mpr h), List.map_singleton, latin1]
  have hbyte : c.val.toUInt8.toNat = c.toNat := by
    rw [UInt32.toNat_toUInt8]
    exact Nat.mod_eq_of_lt (by omega)
  rw [hbyte, Char.ofNat_toNat]

/-- Each character takes a byte at least, and no more than that only if it is ASCII. -/
theorem length_utf8_iff : cs.length ≤ (cs.flatMap String.utf8EncodeChar).length ∧
    ((cs.flatMap String.utf8EncodeChar).length = cs.length → ∀ c ∈ cs, c.toNat < 128) := by
  induction cs with
  | nil => exact ⟨le_rfl, fun _ c hc => absurd hc List.not_mem_nil⟩
  | cons c cs ih =>
    obtain ⟨hle, hascii⟩ := ih
    have hpos := c.utf8Size_pos
    rw [List.flatMap_cons, List.length_append, String.length_utf8EncodeChar, List.length_cons]
    refine ⟨by omega, fun h => List.forall_mem_cons.mpr ⟨?_, hascii (by omega)⟩⟩
    exact utf8Size_eq_one_iff.mp (by omega)

theorem flatMap_ascii (h : ∀ c ∈ cs, c.toNat < 128) :
    (cs.flatMap String.utf8EncodeChar).map latin1 = cs := by
  induction cs with
  | nil => rfl
  | cons c cs ih =>
    obtain ⟨hc, hcs⟩ := List.forall_mem_cons.mp h
    rw [List.flatMap_cons, List.map_append, utf8EncodeChar_ascii hc, ih hcs, List.singleton_append]

end Ascii

/-- Exactly the ASCII addresses are decoded to themselves, whatever the key is; and no input at all
raises. -/
theorem cf_decode_iff (s : String) (key : UInt8) (hexs : String) :
    (cfDecode (cfEncode key s) = .ok s ↔ ∀ c ∈ s.toList, c.toNat < 128) ∧
      ∃ t, cfDecode hexs = .ok t := by
  refine ⟨⟨fun hback => ?_, fun h => ?_⟩, cfDecode_returns hexs⟩
  · rw [decode_encode] at hback
    have hchars : (utf8 s).map latin1 = s.toList := by
      conv_rhs => rw [← Except.ok.inj hback]
      rw [String.toList_ofList]
    apply length_utf8_iff.2
    rw [← utf8_eq_flatMap, ← List.length_map latin1, hchars]
  · rw [decode_encode, utf8_eq_flatMap, flatMap_ascii h, String.ofList_toList]

/-- An address with an accent comes back with two characters in its place. -/
theorem accent_garbled : cfDecode (cfEncode 0x5a "josé@x.cl") = .ok "josÃ©@x.cl" ∧
    "josÃ©@x.cl" ≠ "josé@x.cl" := by
  refine ⟨?_, by decide⟩
  rw [decode_encode, utf8_eq_flatMap]
  decide

end CfEmail

end Eyenet
