import Eyenet.Edwards
import Eyenet.Framing
import Eyenet.Pratt
import Mathlib.Data.Nat.Digits.Defs
import Mathlib.FieldTheory.Finite.Basic
import Mathlib.Tactic.NormNum.Prime

/-!
# The gate on submitted Ed25519 public keys (`crypto/_file_access_signing.py`)

Before a raw 32-byte key reaches the signature library it is decoded to a point of the curve
`-x² + y² = 1 + d x² y²` over the integers modulo `2²⁵⁵ - 19`, and refused when eight times that
point is the identity: against such a key a signature can be forged without the private half.

The code works on integers reduced modulo the prime at every step. Here they are read in the field
(`F`), the curve is an instance of `Edwards.Curve`, and the three doublings of the check are
doublings in its group.

* `decodeEd25519Point_eq_some_iff` — decoding inverts the encoding of points.
* `loadEd25519PublicKey_iff` — the gate accepts the points of order not dividing eight.
-/

namespace Eyenet.Ed25519

open Edwards

/-! ## Little-endian integers -/

/-- `int.from_bytes(raw, "little")` -/
def fromBytesLE (raw : Bytes) : ℕ := Nat.ofDigits 256 (raw.map UInt8.toNat)

/-- `n.to_bytes(w, "little")` -/
def toBytesLE : ℕ → ℕ → Bytes
  | 0, _ => []
  | w + 1, n => UInt8.ofNat (n % 256) :: toBytesLE w (n / 256)

theorem length_toBytesLE (w n : ℕ) : (toBytesLE w n).length = w := by
  induction w generalizing n with
  | zero => rfl
  | succ w ih => rw [toBytesLE, List.length_cons, ih]

theorem fromBytesLE_cons (b : UInt8) (raw : Bytes) :
    fromBytesLE (b :: raw) = b.toNat + 256 * fromBytesLE raw := by
  rw [fromBytesLE, List.map_cons, Nat.ofDigits_cons]
  rfl

theorem fromBytesLE_toBytesLE {w n : ℕ} (h : n < 256 ^ w) : fromBytesLE (toBytesLE w n) = n := by
  induction w generalizing n with
  | zero =>
    obtain rfl : n = 0 := by simpa using h
    rfl
  | succ w ih =>
    have hdiv : n / 256 < 256 ^ w := by
      rw [pow_succ] at h
      omega
    have hbyte : (UInt8.ofNat (n % 256)).toNat = n % 256 :=
      UInt8.toNat_ofNat_of_lt' (Nat.mod_lt n (by decide))
    rw [toBytesLE, fromBytesLE_cons, ih hdiv, hbyte, Nat.mod_add_div]

theorem toBytesLE_fromBytesLE (raw : Bytes) : toBytesLE raw.length (fromBytesLE raw) = raw := by
  induction raw with
  | nil => rfl
  | cons b raw ih =>
    have hb := b.toNat_lt
    have hmod : (b.toNat + 256 * fromBytesLE raw) % 256 = b.toNat := by omega
    have hdiv : (b.toNat + 256 * fromBytesLE raw) / 256 = fromBytesLE raw := by omega
    rw [List.length_cons, fromBytesLE_cons, toBytesLE, hmod, hdiv, ih, UInt8.ofNat_toNat]

theorem fromBytesLE_lt (raw : Bytes) : fromBytesLE raw < 256 ^ raw.length := by
  induction raw with
  | nil => decide
  | cons b raw ih =>
    have hb := b.toNat_lt
    rw [fromBytesLE_cons, List.length_cons, pow_succ]
    omega

/-! ## The code -/

/-- `pow(b, e, m)` -/
def pow (b : ℤ) (e m : ℕ) : ℤ := Pratt.powMod (b % m).toNat e m

/-- `_ED25519_P` -/
def ED25519_P : ℕ := 2 ^ 255 - 19

/-- `_ED25519_D` -/
def ED25519_D : ℤ := (-121665 * pow 121666 (ED25519_P - 2) ED25519_P) % ED25519_P

/-- `_ED25519_SQRT_M1` -/
def ED25519_SQRT_M1 : ℤ := pow 2 ((ED25519_P - 1) / 4) ED25519_P

/-- `_ED25519_PUBLIC_KEY_LEN` -/
def ED25519_PUBLIC_KEY_LEN : ℕ := 32

/-- The candidate of `_decode_ed25519_point` for a square root, by the root of `-1` where the power
itself is not one. -/
def rootCandidate (x2 : ℤ) : ℤ :=
  let p : ℤ := ED25519_P
  let x := pow x2 ((ED25519_P + 3) / 8) ED25519_P
  if (x * x - x2) % p ≠ 0 then x * ED25519_SQRT_M1 % p else x

/-- The modular square root of `_decode_ed25519_point`, or `none` off the curve. -/
def squareRoot (x2 : ℤ) : Option ℤ :=
  let x := rootCandidate x2
  if (x * x - x2) % (ED25519_P : ℤ) ≠ 0 then none else some x

/-- `(y² - 1) / (d y² + 1)`, the square that `_decode_ed25519_point` takes the root of. -/
def xSquared (y : ℤ) : ℤ :=
  let p : ℤ := ED25519_P
  let y2 := y * y % p
  let u := (y2 - 1) % p
  let v := (ED25519_D * y2 + 1) % p
  u * pow v (ED25519_P - 2) ED25519_P % p

/-- The root of the parity that `_decode_ed25519_point` is asked for. -/
def withParity (sign : ℕ) (x : ℤ) : ℤ :=
  if x % 2 ≠ sign then ((ED25519_P : ℤ) - x) % (ED25519_P : ℤ) else x

/-- `_decode_ed25519_point` -/
def decodeEd25519Point (raw : Bytes) : Option (ℤ × ℤ) :=
  let n := fromBytesLE raw
  let sign := n >>> 255 &&& 1
  let y := n &&& (1 <<< 255 - 1)
  if ED25519_P ≤ y then none
  else
    match squareRoot (xSquared y) with
    | none => none
    | some x => if x = 0 ∧ sign = 1 then none else some (withParity sign x, y)

/-- `_double` of `_ed25519_is_small_order` -/
def double (pt : Extended ℤ) : Extended ℤ :=
  let p : ℤ := ED25519_P
  let d2 := 2 * ED25519_D % p
  let a := (pt.y - pt.x) * (pt.y - pt.x) % p
  let b := (pt.y + pt.x) * (pt.y + pt.x) % p
  let c := pt.t * d2 * pt.t % p
  let e_ := 2 * pt.z * pt.z % p
  let e := (b - a) % p
  let f := (e_ - c) % p
  let g := (e_ + c) % p
  let h := (b + a) % p
  ⟨e * f % p, g * h % p, f * g % p, e * h % p⟩

/-- `_ed25519_is_small_order` -/
def isSmallOrder (point : ℤ × ℤ) : Bool :=
  let p : ℤ := ED25519_P
  let state : Extended ℤ := ⟨point.1 % p, point.2 % p, 1, point.1 * point.2 % p⟩
  let state := double (double (double state))
  state.x % p == 0 && (state.y - state.z) % p == 0

/-- A submitted value: bytes of some kind, or anything else. -/
inductive Submitted where
  | bytes (raw : Bytes)
  | other

/-- `load_ed25519_public_key`, where `fromPublicBytes` is the library's loader and `none` its
`ValueError`. -/
def loadEd25519PublicKey {κ : Type*} (fromPublicBytes : Bytes → Option κ) :
    Submitted → Option κ
  | .other => none
  | .bytes raw =>
    if raw.length ≠ ED25519_PUBLIC_KEY_LEN then none
    else
      match decodeEd25519Point raw with
      | none => none
      | some point => if isSmallOrder point then none else fromPublicBytes raw

/-! ## The field -/

/-- Primes, each with a primitive root and the prime factors of its predecessor, from the small ones
up. -/
def certificates : List (ℕ × ℕ × List ℕ) :=
  [(2773320623, 5, [2, 2437, 569003]),
    (72106336199, 7, [2, 13, 2773320623]),
    (1919519569386763, 2, [2, 3, 7, 19, 47, 47, 127, 8574133]),
    (31757755568855353, 10, [2, 2, 2, 3, 31, 107, 223, 4153, 430751]),
    (75445702479781427272750846543864801, 7,
      [2, 2, 2, 2, 2, 3, 3, 5, 5, 75707, 72106336199, 1919519569386763]),
    (74058212732561358302231226437062788676166966415465897661863160754340907, 2,
      [2, 3, 353, 57467, 132049, 1923133, 31757755568855353, 75445702479781427272750846543864801]),
    (ED25519_P, 2,
      [2, 2, 3, 65147, 74058212732561358302231226437062788676166966415465897661863160754340907])]

theorem certificates_primitive : ∀ c ∈ certificates, Pratt.Primitive c.1 c.2.1 c.2.2 = true := by
  decide +kernel

theorem prime_of_certificate {p : ℕ} (a : ℕ) (qs : List ℕ) (h : (p, a, qs) ∈ certificates)
    (hprime : ∀ q ∈ qs, q.Prime) : p.Prime :=
  Pratt.prime_of_primitive a qs hprime (certificates_primitive _ h)

theorem prime_2773320623 : Nat.Prime 2773320623 := by
  refine prime_of_certificate 5 [2, 2437, 569003] (by decide) ?_
  norm_num

theorem prime_72106336199 : Nat.Prime 72106336199 := by
  refine prime_of_certificate 7 [2, 13, 2773320623] (by decide) ?_
  simp only [List.forall_mem_cons, prime_2773320623]
  norm_num

theorem prime_1919519569386763 : Nat.Prime 1919519569386763 := by
  refine prime_of_certificate 2 [2, 3, 7, 19, 47, 47, 127, 8574133] (by decide) ?_
  norm_num

theorem prime_31757755568855353 : Nat.Prime 31757755568855353 := by
  refine prime_of_certificate 10 [2, 2, 2, 3, 31, 107, 223, 4153, 430751] (by decide) ?_
  norm_num

theorem prime_75445702479781427272750846543864801 :
    Nat.Prime 75445702479781427272750846543864801 := by
  refine prime_of_certificate 7
    [2, 2, 2, 2, 2, 3, 3, 5, 5, 75707, 72106336199, 1919519569386763] (by decide) ?_
  simp only [List.forall_mem_cons,
    prime_72106336199, prime_1919519569386763]
  norm_num

theorem prime_74058212732561358302231226437062788676166966415465897661863160754340907 :
    Nat.Prime 74058212732561358302231226437062788676166966415465897661863160754340907 := by
  refine prime_of_certificate 2 [2, 3, 353, 57467, 132049, 1923133, 31757755568855353,
    75445702479781427272750846543864801] (by decide) ?_
  simp only [List.forall_mem_cons,
    prime_31757755568855353, prime_75445702479781427272750846543864801]
  norm_num

theorem prime_ED25519_P : ED25519_P.Prime := by
  refine prime_of_certificate 2 [2, 2, 3, 65147,
    74058212732561358302231226437062788676166966415465897661863160754340907] (by decide) ?_
  simp only [List.forall_mem_cons,
    prime_74058212732561358302231226437062788676166966415465897661863160754340907]
  norm_num

instance : Fact ED25519_P.Prime := ⟨prime_ED25519_P⟩

/-- The integers modulo the prime. -/
abbrev F : Type := ZMod ED25519_P

theorem cast_emod (n : ℤ) : ((n % (ED25519_P : ℤ) : ℤ) : F) = n := ZMod.intCast_mod n ED25519_P

theorem cast_pow (b : ℤ) (e : ℕ) : ((pow b e ED25519_P : ℤ) : F) = (b : F) ^ e := by
  have hmod : 0 ≤ b % (ED25519_P : ℤ) := Int.emod_nonneg _ (by decide)
  have hcast : (((b % (ED25519_P : ℤ)).toNat : ℕ) : F) = (b : F) := by
    rw [← cast_emod b]
    exact_mod_cast congrArg (Int.cast : ℤ → F) (Int.toNat_of_nonneg hmod)
  rw [pow, Int.cast_natCast, Pratt.cast_powMod, hcast]

theorem sqrt_m1_sq : (ED25519_SQRT_M1 : F) ^ 2 = -1 := by
  have hmod : (ED25519_SQRT_M1 ^ 2 + 1) % (ED25519_P : ℤ) = 0 := by decide +kernel
  have hzero : ((ED25519_SQRT_M1 ^ 2 + 1 : ℤ) : F) = 0 :=
    (ZMod.intCast_zmod_eq_zero_iff_dvd _ _).mpr (Int.dvd_of_emod_eq_zero hmod)
  push_cast at hzero
  exact eq_neg_of_add_eq_zero_left hzero

/-- Euler's criterion: the coefficient's power is `-1`. -/
theorem d_pow_half : (ED25519_D : F) ^ ((ED25519_P - 1) / 2) = -1 := by
  have hmod : (pow ED25519_D ((ED25519_P - 1) / 2) ED25519_P + 1) % (ED25519_P : ℤ) = 0 := by
    decide +kernel
  have hzero := (ZMod.intCast_zmod_eq_zero_iff_dvd _ ED25519_P).mpr (Int.dvd_of_emod_eq_zero hmod)
  rw [Int.cast_add, cast_pow, Int.cast_one] at hzero
  exact eq_neg_of_add_eq_zero_left hzero

theorem one_ne_neg_one : (1 : F) ≠ -1 := by
  have : Fact (2 < ED25519_P) := ⟨by decide⟩
  exact (ZMod.neg_one_ne_one (n := ED25519_P)).symm

theorem pow_half_of_sq {z a : F} (h : z ^ 2 = a) (hz : z ≠ 0) : a ^ ((ED25519_P - 1) / 2) = 1 := by
  have hexp : 2 * ((ED25519_P - 1) / 2) = ED25519_P - 1 := by decide
  rw [← h, ← pow_mul, hexp, ZMod.pow_card_sub_one_eq_one hz]

theorem half_ne_zero : (ED25519_P - 1) / 2 ≠ 0 := by decide

theorem two_ne_zero_F : (2 : F) ≠ 0 := by
  intro h
  exact one_ne_neg_one (eq_neg_of_add_eq_zero_left (by rw [one_add_one_eq_two, h]))

/-- The curve of the source, with the constants it computes. -/
def ed25519 : Curve F where
  d := ED25519_D
  i := ED25519_SQRT_M1
  i_sq := sqrt_m1_sq
  d_nonsquare := by
    intro z hz
    have hne : z ≠ 0 := by
      rintro rfl
      have hhalf := d_pow_half
      rw [← hz, zero_pow two_ne_zero, zero_pow half_ne_zero] at hhalf
      exact one_ne_zero (neg_eq_zero.mp hhalf.symm)
    exact one_ne_neg_one ((pow_half_of_sq hz hne).symm.trans d_pow_half)
  two_ne_zero := two_ne_zero_F

/-! ## Decoding -/

theorem cast_eq_zero_iff (n : ℤ) : (n : F) = 0 ↔ n % (ED25519_P : ℤ) = 0 := by
  rw [ZMod.intCast_zmod_eq_zero_iff_dvd, Int.dvd_iff_emod_eq_zero]

theorem sq_eq_iff (x x2 : ℤ) : (x * x - x2) % (ED25519_P : ℤ) = 0 ↔ (x : F) ^ 2 = x2 := by
  rw [← cast_eq_zero_iff, Int.cast_sub, Int.cast_mul, sub_eq_zero, sq]

theorem emod_lt (n : ℤ) : 0 ≤ n % (ED25519_P : ℤ) ∧ n % (ED25519_P : ℤ) < ED25519_P :=
  have hpos : (0 : ℤ) < ED25519_P := by exact_mod_cast prime_ED25519_P.pos
  ⟨Int.emod_nonneg _ hpos.ne', Int.emod_lt_of_pos _ hpos⟩

theorem pow_lt (b : ℤ) (e : ℕ) : 0 ≤ pow b e ED25519_P ∧ pow b e ED25519_P < ED25519_P := by
  rw [pow, Pratt.powMod_eq]
  refine ⟨Int.natCast_nonneg _, ?_⟩
  exact_mod_cast Nat.mod_lt _ prime_ED25519_P.pos

theorem val_cast {x : ℤ} (h : 0 ≤ x ∧ x < ED25519_P) : ((x : F).val : ℤ) = x := by
  rw [ZMod.val_intCast, Int.emod_eq_of_lt h.1 h.2]

/-- The candidate's square is the number or its negative, as the prime is five modulo eight. -/
theorem candidate_sq {z a : F} (hz : z ^ 2 = a) :
    (a ^ ((ED25519_P + 3) / 8)) ^ 2 = a ∨ (a ^ ((ED25519_P + 3) / 8)) ^ 2 = -a := by
  rcases eq_or_ne z 0 with rfl | hne
  · left
    rw [← hz, zero_pow two_ne_zero, zero_pow (by decide), zero_pow two_ne_zero]
  · have hquarter : (a ^ ((ED25519_P - 1) / 4)) ^ 2 = 1 := by
      have hexp : (ED25519_P - 1) / 4 * 2 = (ED25519_P - 1) / 2 := by decide
      rw [← pow_mul, hexp, pow_half_of_sq hz hne]
    have hsq : (a ^ ((ED25519_P + 3) / 8)) ^ 2 = a * a ^ ((ED25519_P - 1) / 4) := by
      have hexp : (ED25519_P + 3) / 8 * 2 = (ED25519_P - 1) / 4 + 1 := by decide
      rw [← pow_mul, hexp, pow_succ, mul_comm]
    rw [hsq]
    rw [sq] at hquarter
    rcases mul_self_eq_one_iff.mp hquarter with hone | hneg
    · left
      rw [hone, mul_one]
    · right
      rw [hneg, mul_neg_one]

theorem rootCandidate_lt (x2 : ℤ) : 0 ≤ rootCandidate x2 ∧ rootCandidate x2 < ED25519_P := by
  rw [rootCandidate]
  split
  · exact emod_lt _
  · exact pow_lt _ _

/-- Where the number is a square, the candidate is its root. -/
theorem rootCandidate_sq {x2 : ℤ} {z : F} (hz : z ^ 2 = x2) : (rootCandidate x2 : F) ^ 2 = x2 := by
  rw [rootCandidate]
  split
  · next htest =>
    rw [ne_eq, sq_eq_iff, cast_pow] at htest
    rw [cast_emod, Int.cast_mul, mul_pow, sqrt_m1_sq, cast_pow,
      (candidate_sq hz).resolve_left htest, neg_mul_neg, mul_one]
  · next htest => exact (sq_eq_iff _ _).mp (not_not.mp htest)

theorem squareRoot_eq_some {x2 x : ℤ} (h : squareRoot x2 = some x) :
    (0 ≤ x ∧ x < ED25519_P) ∧ (x : F) ^ 2 = x2 := by
  rw [squareRoot, Option.ite_none_left_eq_some, not_not, sq_eq_iff] at h
  obtain ⟨hsq, heq⟩ := h
  cases heq
  exact ⟨rootCandidate_lt x2, hsq⟩

theorem squareRoot_isSome {x2 : ℤ} {z : F} (hz : z ^ 2 = x2) : (squareRoot x2).isSome := by
  have hsq := (sq_eq_iff _ _).mpr (rootCandidate_sq hz)
  rw [squareRoot, if_neg (not_not.mpr hsq)]
  rfl

theorem xSquared_mul (y : ℤ) :
    (xSquared y : F) * (ed25519.d * (y : F) ^ 2 + 1) = (y : F) ^ 2 - 1 := by
  have hne := ed25519.solve_ne_zero y
  have hexp : ED25519_P - 2 + 1 = ED25519_P - 1 := by decide
  have hv : ((ED25519_D * (y * y % ED25519_P) + 1 : ℤ) : F) = ed25519.d * (y : F) ^ 2 + 1 := by
    rw [Int.cast_add, Int.cast_mul, cast_emod, Int.cast_mul, Int.cast_one, ← sq]
    rfl
  rw [xSquared, cast_emod, Int.cast_mul, cast_pow, cast_emod, cast_emod, hv, mul_assoc, ← pow_succ,
    hexp, ZMod.pow_card_sub_one_eq_one hne, mul_one, Int.cast_sub, cast_emod, Int.cast_mul,
    Int.cast_one, sq]

theorem withParity_spec {sign : ℕ} {x : ℤ} (hx : 0 ≤ x ∧ x < ED25519_P) (hsign : sign < 2)
    (hzero : ¬(x = 0 ∧ sign = 1)) :
    (0 ≤ withParity sign x ∧ withParity sign x < ED25519_P) ∧
      (withParity sign x : F) ^ 2 = (x : F) ^ 2 ∧ withParity sign x % 2 = sign := by
  rw [withParity]
  split
  · next hodd =>
    have hp : (ED25519_P : ℤ) % 2 = 1 := by decide
    have hmod : ((ED25519_P : ℤ) - x) % (ED25519_P : ℤ) = (ED25519_P : ℤ) - x :=
      Int.emod_eq_of_lt (by omega) (by omega)
    refine ⟨emod_lt _, ?_, ?_⟩
    · rw [cast_emod, Int.cast_sub, Int.cast_natCast, ZMod.natCast_self, zero_sub, neg_sq]
    · rw [hmod]
      omega
  · next heven => exact ⟨hx, rfl, not_not.mp heven⟩

/-- The encoding of a point: `y` in 255 bits and above them the parity of `x`. -/
def encode (P : Point ed25519) : Bytes :=
  toBytesLE ED25519_PUBLIC_KEY_LEN (P.y.val + 2 ^ 255 * (P.x.val % 2))

/-- The coordinates of a point as the source has them. -/
def coordinates (P : Point ed25519) : ℤ × ℤ := (P.x.val, P.y.val)

theorem length_encode (P : Point ed25519) : (encode P).length = ED25519_PUBLIC_KEY_LEN :=
  length_toBytesLE _ _

theorem val_lt (a : F) : a.val < 2 ^ 255 :=
  lt_trans (ZMod.val_lt a) (by decide)

theorem fromBytesLE_encode (P : Point ed25519) :
    fromBytesLE (encode P) = P.y.val + 2 ^ 255 * (P.x.val % 2) := by
  refine fromBytesLE_toBytesLE ?_
  have hy := val_lt P.y
  have hbound : 256 ^ ED25519_PUBLIC_KEY_LEN = 2 * 2 ^ 255 := by decide
  omega

/-- A number of 256 bits, taken apart as the decoding does. -/
theorem sign_of_bits {y s : ℕ} (hy : y < 2 ^ 255) (hs : s < 2) :
    (y + 2 ^ 255 * s) >>> 255 &&& 1 = s := by
  rw [Nat.and_one_is_mod, Nat.shiftRight_eq_div_pow]
  omega

theorem low_of_bits {y s : ℕ} (hy : y < 2 ^ 255) :
    (y + 2 ^ 255 * s) &&& (1 <<< 255 - 1) = y := by
  rw [Nat.one_shiftLeft, Nat.and_two_pow_sub_one_eq_mod, Nat.add_mul_mod_self_left,
    Nat.mod_eq_of_lt hy]

/-- The parts of a 32-byte string. -/
theorem exists_bits {raw : Bytes} (hlen : raw.length = ED25519_PUBLIC_KEY_LEN) :
    ∃ y s, y < 2 ^ 255 ∧ s < 2 ∧ fromBytesLE raw = y + 2 ^ 255 * s := by
  have hlt := fromBytesLE_lt raw
  have hbound : 256 ^ ED25519_PUBLIC_KEY_LEN = 2 * 2 ^ 255 := by decide
  rw [hlen, hbound] at hlt
  refine ⟨fromBytesLE raw % 2 ^ 255, fromBytesLE raw / 2 ^ 255, ?_, ?_, ?_⟩ <;> omega

/-- Points with one encoding have one `y`, and of the two roots the parity tells which. -/
theorem encode_injective : Function.Injective encode := by
  intro P Q h
  have hbits := congrArg fromBytesLE h
  rw [fromBytesLE_encode, fromBytesLE_encode] at hbits
  have hPy := val_lt P.y
  have hQy := val_lt Q.y
  have hy : P.y = Q.y := ZMod.val_injective _ (by omega)
  have hparity : P.x.val % 2 = Q.x.val % 2 := by omega
  rcases Point.eq_or_eq_neg_of_y_eq hy with heq | hneg
  · exact heq
  · have hp : ED25519_P % 2 = 1 := by decide
    have hQx := ZMod.val_lt Q.x
    have hx : P.x = -Q.x := congrArg Point.x hneg
    rw [hx, ZMod.neg_val] at hparity
    split at hparity
    · next hzero => exact Point.ext (by rw [hx, hzero, neg_zero]) hy
    · omega

/-- What is decoded is a point of the curve, and `raw` its encoding. -/
theorem decodeEd25519Point_sound {raw : Bytes} {point : ℤ × ℤ}
    (hlen : raw.length = ED25519_PUBLIC_KEY_LEN) (h : decodeEd25519Point raw = some point) :
    ∃ P : Point ed25519, encode P = raw ∧ coordinates P = point := by
  obtain ⟨n, s, hn, hs, hbits⟩ := exists_bits hlen
  simp only [decodeEd25519Point, hbits, sign_of_bits hn hs, low_of_bits hn] at h
  split at h
  · cases h
  next hcanonical =>
  split at h
  · cases h
  next root hroot =>
  obtain ⟨hrange, hsq⟩ := squareRoot_eq_some hroot
  rw [Option.ite_none_left_eq_some] at h
  obtain ⟨hzero, heq⟩ := h
  cases heq
  obtain ⟨hlt, hsame, hparity⟩ := withParity_spec hrange hs hzero
  have hcurve := xSquared_mul n
  rw [← hsq, ← hsame] at hcurve
  obtain ⟨P, hPx, hPy⟩ : ∃ P : Point ed25519, P.x = withParity s root ∧ P.y = (n : ℤ) :=
    ⟨⟨withParity s root, (n : ℤ), by linear_combination -hcurve⟩, rfl, rfl⟩
  have hx : (P.x.val : ℤ) = withParity s root := by rw [hPx, val_cast hlt]
  have hy : (P.y.val : ℤ) = n := by
    rw [hPy]
    exact val_cast ⟨Int.natCast_nonneg n, Int.ofNat_lt.mpr (not_le.mp hcanonical)⟩
  refine ⟨P, ?_, ?_⟩
  · have hsign : P.x.val % 2 = s := by omega
    rw [encode, hsign, Int.ofNat_inj.mp hy, ← hbits, ← hlen, toBytesLE_fromBytesLE]
  · rw [coordinates, hx, hy]

/-- The encoding of a point passes every check. -/
theorem decodeEd25519Point_isSome (P : Point ed25519) :
    (decodeEd25519Point (encode P)).isSome := by
  have hy : ((P.y.val : ℤ) : F) = P.y := by rw [Int.cast_natCast, ZMod.natCast_zmod_val]
  have hsq : P.x ^ 2 = (xSquared P.y.val : F) := by
    refine mul_right_cancel₀ (ed25519.solve_ne_zero P.y) ?_
    have hmul := xSquared_mul P.y.val
    rw [hy] at hmul
    rw [Point.x_sq_mul, hmul]
  obtain ⟨root, hroot⟩ := Option.isSome_iff_exists.mp (squareRoot_isSome hsq)
  have hzero : ¬(root = 0 ∧ P.x.val % 2 = 1) := by
    rintro ⟨rfl, hodd⟩
    have hx := (squareRoot_eq_some hroot).2
    rw [← hsq, Int.cast_zero, zero_pow two_ne_zero] at hx
    rw [pow_eq_zero_iff two_ne_zero |>.mp hx.symm, ZMod.val_zero] at hodd
    cases hodd
  simp only [decodeEd25519Point, fromBytesLE_encode, low_of_bits (val_lt P.y),
    sign_of_bits (val_lt P.y) (Nat.mod_lt _ two_pos), hroot, if_neg hzero,
    if_neg (not_le.mpr (ZMod.val_lt P.y))]
  rfl

/-- **Decoding inverts encoding.** -/
theorem decodeEd25519Point_eq_some_iff {raw : Bytes} {point : ℤ × ℤ}
    (hlen : raw.length = ED25519_PUBLIC_KEY_LEN) :
    decodeEd25519Point raw = some point ↔
      ∃ P : Point ed25519, encode P = raw ∧ coordinates P = point := by
  refine ⟨decodeEd25519Point_sound hlen, ?_⟩
  rintro ⟨P, rfl, rfl⟩
  obtain ⟨point, hdecode⟩ := Option.isSome_iff_exists.mp (decodeEd25519Point_isSome P)
  obtain ⟨Q, hQ, rfl⟩ := decodeEd25519Point_sound hlen hdecode
  rw [hdecode, encode_injective hQ]

/-! ## The order of a point -/

/-- Integer coordinates, read in the field. -/
def toField (pt : Extended ℤ) : Extended F := ⟨pt.x, pt.y, pt.z, pt.t⟩

theorem toField_double (pt : Extended ℤ) :
    toField (double pt) = (toField pt).double ed25519.d := by
  simp only [toField, double, Extended.double, cast_emod, Int.cast_mul, Int.cast_sub, Int.cast_add,
    Int.cast_ofNat]
  rfl

theorem represents_double {pt : Extended ℤ} {P : Point ed25519} (h : (toField pt).Represents P) :
    (toField (double pt)).Represents (P + P) := by
  rw [toField_double]
  exact h.double

/-- **The check is the multiplication by eight.** -/
theorem isSmallOrder_iff (P : Point ed25519) :
    isSmallOrder (coordinates P) = true ↔ addOrderOf P ∣ 8 := by
  have hcast (a : F) : ((a.val : ℤ) : F) = a := by rw [Int.cast_natCast, ZMod.natCast_zmod_val]
  have hstart : (toField ⟨(P.x.val : ℤ) % ED25519_P, (P.y.val : ℤ) % ED25519_P, 1,
      (P.x.val : ℤ) * P.y.val % ED25519_P⟩).Represents P := by
    simp only [toField, cast_emod, Int.cast_mul, Int.cast_one, hcast]
    exact Extended.represents_ofAffine P
  have height : P + P + (P + P) + (P + P + (P + P)) = 8 • P := by
    rw [← two_nsmul, ← two_nsmul, ← two_nsmul, ← mul_nsmul, ← mul_nsmul]
  have hend := represents_double (represents_double (represents_double hstart))
  rw [height] at hend
  rw [addOrderOf_dvd_iff_nsmul_eq_zero, ← hend.eq_zero_iff]
  simp only [isSmallOrder, coordinates, Bool.and_eq_true, beq_iff_eq, ← cast_eq_zero_iff,
    Int.cast_sub, toField]

/-! ## The gate -/

theorem loadEd25519PublicKey_isSome {κ : Type*} {fromPublicBytes : Bytes → Option κ} {raw : Bytes}
    (hload : (fromPublicBytes raw).isSome) (hlen : raw.length = ED25519_PUBLIC_KEY_LEN) :
    (loadEd25519PublicKey fromPublicBytes (.bytes raw)).isSome ↔
      ∃ point, decodeEd25519Point raw = some point ∧ ¬isSmallOrder point = true := by
  rw [loadEd25519PublicKey, if_neg (not_not.mpr hlen)]
  cases decodeEd25519Point raw with
  | none => simp
  | some point => cases hsmall : isSmallOrder point <;> simp [hload, hsmall]

/-- **The gate accepts a 32-byte string exactly when it encodes a point of the curve whose order
does not divide eight, and the decoding inverts the encoding.** The library loads every string of
that length. -/
theorem loadEd25519PublicKey_iff {κ : Type*} (fromPublicBytes : Bytes → Option κ)
    (hload : ∀ raw : Bytes, raw.length = ED25519_PUBLIC_KEY_LEN → (fromPublicBytes raw).isSome)
    (raw : Bytes) (hlen : raw.length = ED25519_PUBLIC_KEY_LEN) :
    ((loadEd25519PublicKey fromPublicBytes (.bytes raw)).isSome ↔
        ∃ P : Point ed25519, encode P = raw ∧ ¬addOrderOf P ∣ 8) ∧
      ∀ point, decodeEd25519Point raw = some point ↔
        ∃ P : Point ed25519, encode P = raw ∧ coordinates P = point := by
  refine ⟨?_, fun point => decodeEd25519Point_eq_some_iff hlen⟩
  rw [loadEd25519PublicKey_isSome (hload raw hlen) hlen]
  simp only [decodeEd25519Point_eq_some_iff hlen, ← isSmallOrder_iff]
  refine ⟨?_, ?_⟩
  · rintro ⟨point, ⟨P, hP, rfl⟩, hlarge⟩
    exact ⟨P, hP, hlarge⟩
  · rintro ⟨P, hP, hlarge⟩
    exact ⟨_, ⟨P, hP, rfl⟩, hlarge⟩

/-- The encoding of the base point. -/
def basePoint : Bytes := 0x58 :: List.replicate 31 0x66

theorem loadEd25519PublicKey_basePoint :
    ∃ P : Point ed25519, encode P = basePoint ∧ ¬addOrderOf P ∣ 8 :=
  (loadEd25519PublicKey_iff
    (fun raw => if raw.length = ED25519_PUBLIC_KEY_LEN then some raw else none)
    (fun raw h => by rw [if_pos h]; rfl) basePoint (by decide)).1.mp (by decide +kernel)

end Eyenet.Ed25519
