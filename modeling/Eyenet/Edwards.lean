import Mathlib.GroupTheory.OrderOfElement
import Mathlib.Tactic.FieldSimp
import Mathlib.Tactic.LinearCombination
import Mathlib.Tactic.Ring

/-!
# Twisted Edwards curves

The curve `-x² + y² = 1 + d x² y²` over a field in which `-1` is a square and `d` is not. Then the
denominators of the addition law never vanish, and the points are an abelian group.

* `Point.cross_sq_ne_one` — the denominators do not vanish.
* `Point.add_assoc` — addition is associative.
* `Extended.Represents.double` — the doubling formulas in extended coordinates double the point.
-/

namespace Eyenet.Edwards

/-- The coefficient of a curve, and why its addition law is complete. -/
structure Curve (K : Type*) [Field K] where
  d : K
  /-- a square root of `-1` -/
  i : K
  i_sq : i ^ 2 = -1
  d_nonsquare : ∀ z, z ^ 2 ≠ d
  two_ne_zero : (2 : K) ≠ 0

variable {K : Type*} [Field K]

/-- `-d` is not a square either, so the curve can be solved for `x`. -/
theorem Curve.solve_ne_zero (E : Curve K) (y : K) : E.d * y ^ 2 + 1 ≠ 0 := by
  intro h
  have hy : y ≠ 0 := fun hy => by simp [hy] at h
  refine E.d_nonsquare (E.i / y) ?_
  rw [div_pow, E.i_sq, div_eq_iff (pow_ne_zero 2 hy)]
  linear_combination -h

/-- The affine points of the curve. -/
@[ext] structure Point (E : Curve K) where
  x : K
  y : K
  on_curve : -x ^ 2 + y ^ 2 = 1 + E.d * x ^ 2 * y ^ 2

namespace Point

variable {E : Curve K} {P Q R : Point E}

/-! ## The denominators -/

/-- What stands in both denominators of a sum. -/
def cross (P Q : Point E) : K := E.d * (P.x * Q.x * P.y * Q.y)

/-- The square that a cross term `c` squaring to one gives for a root `i` of `-1`. -/
theorem root_identity {a b u v d i : K} (hi : i ^ 2 = -1)
    (hP : -a ^ 2 + b ^ 2 = 1 + d * a ^ 2 * b ^ 2) (hQ : -u ^ 2 + v ^ 2 = 1 + d * u ^ 2 * v ^ 2)
    (hc : (d * (a * u * b * v)) ^ 2 = 1) :
    (b + d * (a * u * b * v) * i * a) ^ 2 = d * (a * b * (v + i * u)) ^ 2 := by
  grind

/-- A product that squares to one would give a square root of `d`. -/
theorem cross_sq_ne_one (P Q : Point E) : cross P Q ^ 2 ≠ 1 := by
  intro h
  rw [cross] at h
  have hneg : (-E.i) ^ 2 = -1 := by rw [neg_sq, E.i_sq]
  -- both roots of `-1` give a square times `d`
  have hplus := root_identity E.i_sq P.on_curve Q.on_curve h
  have hminus := root_identity hneg P.on_curve Q.on_curve h
  have hroot : ∀ {a b : K}, a ^ 2 = E.d * b ^ 2 → b = 0 := by
    intro a b hab
    by_contra hb
    refine E.d_nonsquare (a / b) ?_
    rw [div_pow, hab, mul_div_cancel_right₀ _ (pow_ne_zero 2 hb)]
  have hx : P.x ≠ 0 := fun hx => by simp [hx] at h
  have hy : P.y ≠ 0 := fun hy => by simp [hy] at h
  have hQy : Q.y ≠ 0 := fun hy => by simp [hy] at h
  have hp := (mul_eq_zero.mp (hroot hplus)).resolve_left (mul_ne_zero hx hy)
  have hm := (mul_eq_zero.mp (hroot hminus)).resolve_left (mul_ne_zero hx hy)
  have htwo : 2 * Q.y = 0 := by linear_combination hp + hm
  exact hQy ((mul_eq_zero.mp htwo).resolve_left E.two_ne_zero)

theorem one_add_ne_zero (P Q : Point E) : 1 + cross P Q ≠ 0 := fun h =>
  cross_sq_ne_one P Q (by linear_combination (cross P Q - 1) * h)

theorem one_sub_ne_zero (P Q : Point E) : 1 - cross P Q ≠ 0 := fun h =>
  cross_sq_ne_one P Q (by linear_combination (-cross P Q - 1) * h)

/-! ## The group -/

/-- The addition law. -/
def add (P Q : Point E) : Point E where
  x := (P.x * Q.y + P.y * Q.x) / (1 + cross P Q)
  y := (P.y * Q.y + P.x * Q.x) / (1 - cross P Q)
  on_curve := by
    have hplus := one_add_ne_zero P Q
    have hminus := one_sub_ne_zero P Q
    have hP := P.on_curve
    have hQ := Q.on_curve
    field_simp
    rw [cross]
    grind

instance : Zero (Point E) := ⟨⟨0, 1, by ring⟩⟩

instance : Add (Point E) := ⟨add⟩

instance : Neg (Point E) := ⟨fun P => ⟨-P.x, P.y, by rw [neg_sq]; exact P.on_curve⟩⟩

@[simp] theorem zero_x : (0 : Point E).x = 0 := rfl

@[simp] theorem zero_y : (0 : Point E).y = 1 := rfl

@[simp] theorem neg_x : (-P).x = -P.x := rfl

@[simp] theorem neg_y : (-P).y = P.y := rfl

theorem add_x : (P + Q).x = (P.x * Q.y + P.y * Q.x) / (1 + cross P Q) := rfl

theorem add_y : (P + Q).y = (P.y * Q.y + P.x * Q.x) / (1 - cross P Q) := rfl

theorem cross_comm (P Q : Point E) : cross P Q = cross Q P := by
  rw [cross, cross]
  ring

theorem add_comm (P Q : Point E) : P + Q = Q + P := by
  ext
  · rw [add_x, add_x, cross_comm]
    ring
  · rw [add_y, add_y, cross_comm]
    ring

theorem zero_add (P : Point E) : 0 + P = P := by
  ext <;> simp [add_x, add_y, cross]

theorem neg_add_cancel (P : Point E) : -P + P = 0 := by
  have hminus := one_sub_ne_zero (-P) P
  have hP := P.on_curve
  ext
  · simp [add_x, mul_comm]
  · rw [add_y, zero_y, div_eq_one_iff_eq hminus, cross, neg_x, neg_y]
    linear_combination hP

/-! ### Associativity

A double sum with its denominators cleared, and the two polynomial identities left. -/

theorem cross_add (P Q R : Point E) :
    cross (P + Q) R * ((1 + cross P Q) * (1 - cross P Q)) =
      E.d * (P.x * Q.y + P.y * Q.x) * (P.y * Q.y + P.x * Q.x) * R.x * R.y := by
  have hplus := one_add_ne_zero P Q
  have hminus := one_sub_ne_zero P Q
  rw [cross, add_x, add_y]
  field_simp

theorem add_add_x (P Q R : Point E) :
    (P + Q + R).x * ((1 + cross P Q) * (1 - cross P Q) +
        E.d * (P.x * Q.y + P.y * Q.x) * (P.y * Q.y + P.x * Q.x) * R.x * R.y) =
      (P.x * Q.y + P.y * Q.x) * (1 - cross P Q) * R.y +
        (P.y * Q.y + P.x * Q.x) * (1 + cross P Q) * R.x := by
  have hplus := one_add_ne_zero P Q
  have hminus := one_sub_ne_zero P Q
  have houter := one_add_ne_zero (P + Q) R
  rw [← cross_add, ← one_add_mul, add_x, div_mul_eq_mul_div, mul_left_comm,
    mul_div_cancel_left₀ _ houter, add_x, add_y]
  field_simp

theorem add_add_y (P Q R : Point E) :
    (P + Q + R).y * ((1 + cross P Q) * (1 - cross P Q) -
        E.d * (P.x * Q.y + P.y * Q.x) * (P.y * Q.y + P.x * Q.x) * R.x * R.y) =
      (P.y * Q.y + P.x * Q.x) * (1 + cross P Q) * R.y +
        (P.x * Q.y + P.y * Q.x) * (1 - cross P Q) * R.x := by
  have hplus := one_add_ne_zero P Q
  have hminus := one_sub_ne_zero P Q
  have houter := one_sub_ne_zero (P + Q) R
  rw [← cross_add, ← one_sub_mul, add_y, div_mul_eq_mul_div, mul_left_comm,
    mul_div_cancel_left₀ _ houter, add_x, add_y]
  field_simp

/-- The difference of the two sides for `x`, less a factor, where `p`, `q` and `r` are `d` times the
squares of `a b`, `u v` and `s t`. -/
theorem difference_x (a b u v s t : K) {p q r : K} (hp : p = b ^ 2 - a ^ 2 - 1)
    (hq : q = v ^ 2 - u ^ 2 - 1) (hr : r = t ^ 2 - s ^ 2 - 1) :
    u * v * ((a * v * t + b * u * t + b * v * s + a * u * s) * (p - r) +
        p * (b * v * s + a * u * s - a * v * t - b * u * t) * (s ^ 2 + t ^ 2) -
        r * (a * v * t + a * u * s - b * v * s - b * u * t) * (a ^ 2 + b ^ 2)) +
      (a * v * t + b * u * t + b * v * s + a * u * s) *
        (a * b * (s ^ 2 + t ^ 2) - s * t * (a ^ 2 + b ^ 2)) +
      a * b * (b * v * s + a * u * s - a * v * t - b * u * t) * (1 - q * r) -
      s * t * (a * v * t + a * u * s - b * v * s - b * u * t) * (1 - p * q) +
      (u ^ 2 + v ^ 2) * (p * (s * t) * (b * v * s + a * u * s - a * v * t - b * u * t) -
        r * (a * b) * (a * v * t + a * u * s - b * v * s - b * u * t)) = 0 := by
  rw [hp, hq, hr]
  ring

theorem add_assoc_x {a b u v s t d : K} (hP : -a ^ 2 + b ^ 2 = 1 + d * a ^ 2 * b ^ 2)
    (hQ : -u ^ 2 + v ^ 2 = 1 + d * u ^ 2 * v ^ 2) (hR : -s ^ 2 + t ^ 2 = 1 + d * s ^ 2 * t ^ 2) :
    ((a * v + b * u) * (1 - d * (a * u * b * v)) * t +
        (b * v + a * u) * (1 + d * (a * u * b * v)) * s) *
      ((1 + d * (u * s * v * t)) * (1 - d * (u * s * v * t)) +
        d * (u * t + v * s) * (v * t + u * s) * a * b) =
    ((u * t + v * s) * (1 - d * (u * s * v * t)) * b +
        (v * t + u * s) * (1 + d * (u * s * v * t)) * a) *
      ((1 + d * (a * u * b * v)) * (1 - d * (a * u * b * v)) +
        d * (a * v + b * u) * (b * v + a * u) * s * t) := by
  have hp : d * (a * b) ^ 2 = b ^ 2 - a ^ 2 - 1 := by linear_combination -hP
  have hq : d * (u * v) ^ 2 = v ^ 2 - u ^ 2 - 1 := by linear_combination -hQ
  have hr : d * (s * t) ^ 2 = t ^ 2 - s ^ 2 - 1 := by linear_combination -hR
  linear_combination d * (u * v) * difference_x a b u v s t hp hq hr

/-- The difference of the two sides for `y`, less the same factor. -/
theorem difference_y (a b u v s t : K) {p q r : K} (hp : p = b ^ 2 - a ^ 2 - 1)
    (hq : q = v ^ 2 - u ^ 2 - 1) (hr : r = t ^ 2 - s ^ 2 - 1) :
    u * v * ((b * v * t + a * u * t + a * v * s + b * u * s) * (p - r) -
        p * (b * v * t + a * u * t - a * v * s - b * u * s) * (s ^ 2 + t ^ 2) -
        r * (a * v * s + a * u * t - b * v * t - b * u * s) * (a ^ 2 + b ^ 2)) -
      (b * v * t + a * u * t + a * v * s + b * u * s) *
        (a * b * (s ^ 2 + t ^ 2) - s * t * (a ^ 2 + b ^ 2)) +
      a * b * (b * v * t + a * u * t - a * v * s - b * u * s) * (1 - q * r) +
      s * t * (a * v * s + a * u * t - b * v * t - b * u * s) * (1 - p * q) -
      (u ^ 2 + v ^ 2) * (p * (s * t) * (b * v * t + a * u * t - a * v * s - b * u * s) +
        r * (a * b) * (a * v * s + a * u * t - b * v * t - b * u * s)) = 0 := by
  rw [hp, hq, hr]
  ring

theorem add_assoc_y {a b u v s t d : K} (hP : -a ^ 2 + b ^ 2 = 1 + d * a ^ 2 * b ^ 2)
    (hQ : -u ^ 2 + v ^ 2 = 1 + d * u ^ 2 * v ^ 2) (hR : -s ^ 2 + t ^ 2 = 1 + d * s ^ 2 * t ^ 2) :
    ((b * v + a * u) * (1 + d * (a * u * b * v)) * t +
        (a * v + b * u) * (1 - d * (a * u * b * v)) * s) *
      ((1 + d * (u * s * v * t)) * (1 - d * (u * s * v * t)) -
        d * (u * t + v * s) * (v * t + u * s) * a * b) =
    ((v * t + u * s) * (1 + d * (u * s * v * t)) * b +
        (u * t + v * s) * (1 - d * (u * s * v * t)) * a) *
      ((1 + d * (a * u * b * v)) * (1 - d * (a * u * b * v)) -
        d * (a * v + b * u) * (b * v + a * u) * s * t) := by
  have hp : d * (a * b) ^ 2 = b ^ 2 - a ^ 2 - 1 := by linear_combination -hP
  have hq : d * (u * v) ^ 2 = v ^ 2 - u ^ 2 - 1 := by linear_combination -hQ
  have hr : d * (s * t) ^ 2 = t ^ 2 - s ^ 2 - 1 := by linear_combination -hR
  linear_combination d * (u * v) * difference_y a b u v s t hp hq hr

theorem eq_of_cleared {z w n m e f : K} (he : e ≠ 0) (hf : f ≠ 0) (hz : z * e = n) (hw : w * f = m)
    (h : n * f = m * e) : z = w := by
  refine mul_right_cancel₀ (mul_ne_zero he hf) ?_
  calc z * (e * f) = z * e * f := by ring
    _ = w * f * e := by rw [hz, h, hw]
    _ = w * (e * f) := by ring

theorem cleared_add_ne_zero (P Q R : Point E) : (1 + cross P Q) * (1 - cross P Q) +
    E.d * (P.x * Q.y + P.y * Q.x) * (P.y * Q.y + P.x * Q.x) * R.x * R.y ≠ 0 := by
  rw [← cross_add, ← one_add_mul]
  exact mul_ne_zero (one_add_ne_zero _ _) (mul_ne_zero (one_add_ne_zero _ _) (one_sub_ne_zero _ _))

theorem cleared_sub_ne_zero (P Q R : Point E) : (1 + cross P Q) * (1 - cross P Q) -
    E.d * (P.x * Q.y + P.y * Q.x) * (P.y * Q.y + P.x * Q.x) * R.x * R.y ≠ 0 := by
  rw [← cross_add, ← one_sub_mul]
  exact mul_ne_zero (one_sub_ne_zero _ _) (mul_ne_zero (one_add_ne_zero _ _) (one_sub_ne_zero _ _))

/-- **Addition is associative.** -/
theorem add_assoc (P Q R : Point E) : P + Q + R = P + (Q + R) := by
  rw [add_comm P (Q + R)]
  ext
  · exact eq_of_cleared (cleared_add_ne_zero P Q R) (cleared_add_ne_zero Q R P)
      (add_add_x P Q R) (add_add_x Q R P) (add_assoc_x P.on_curve Q.on_curve R.on_curve)
  · exact eq_of_cleared (cleared_sub_ne_zero P Q R) (cleared_sub_ne_zero Q R P)
      (add_add_y P Q R) (add_add_y Q R P) (add_assoc_y P.on_curve Q.on_curve R.on_curve)

instance : AddCommGroup (Point E) where
  add_assoc := add_assoc
  zero_add := zero_add
  add_zero P := by rw [add_comm, zero_add]
  nsmul := nsmulRec
  zsmul := zsmulRec
  neg_add_cancel := neg_add_cancel
  add_comm := add_comm

/-! ## Recovering a coordinate -/

/-- The curve solved for `x`, whose coefficient does not vanish. -/
theorem x_sq_mul (P : Point E) : P.x ^ 2 * (E.d * P.y ^ 2 + 1) = P.y ^ 2 - 1 := by
  linear_combination -P.on_curve

/-- `P.y` determines `P.x` up to its sign. -/
theorem eq_or_eq_neg_of_y_eq (h : P.y = Q.y) : P = Q ∨ P = -Q := by
  have hx : P.x ^ 2 = Q.x ^ 2 := by
    refine mul_right_cancel₀ (E.solve_ne_zero P.y) ?_
    rw [x_sq_mul, h, x_sq_mul]
  rcases sq_eq_sq_iff_eq_or_eq_neg.mp hx with hx | hx
  · exact .inl (Point.ext hx h)
  · exact .inr (Point.ext hx h)

end Point

/-! ## Extended coordinates -/

/-- The coordinates `(X, Y, Z, T)` of a point `(X / Z, Y / Z)` with `X Y = Z T`. -/
structure Extended (K : Type*) where
  x : K
  y : K
  z : K
  t : K

namespace Extended

variable {E : Curve K} {P : Point E} {s : Extended K}

/-- `s` stands for the affine point `P`. -/
structure Represents (s : Extended K) (P : Point E) : Prop where
  z_ne_zero : s.z ≠ 0
  x_eq : s.x = P.x * s.z
  y_eq : s.y = P.y * s.z
  t_eq : s.t = P.x * P.y * s.z

/-- An affine point. -/
def ofAffine (x y : K) : Extended K := ⟨x, y, 1, x * y⟩

theorem represents_ofAffine (P : Point E) : (ofAffine P.x P.y).Represents P where
  z_ne_zero := one_ne_zero
  x_eq := (mul_one _).symm
  y_eq := (mul_one _).symm
  t_eq := (mul_one _).symm

/-- The unified addition formulas at one point. -/
def double (d : K) (s : Extended K) : Extended K :=
  let a := (s.y - s.x) * (s.y - s.x)
  let b := (s.y + s.x) * (s.y + s.x)
  let c := s.t * (2 * d) * s.t
  let e_ := 2 * s.z * s.z
  let e := b - a
  let f := e_ - c
  let g := e_ + c
  let h := b + a
  ⟨e * f, g * h, f * g, e * h⟩

/-- **Doubling doubles the point.** -/
theorem Represents.double (h : s.Represents P) : (s.double E.d).Represents (P + P) := by
  obtain ⟨hz, hx, hy, ht⟩ := h
  have hplus := Point.one_add_ne_zero P P
  have hminus := Point.one_sub_ne_zero P P
  have htwo := E.two_ne_zero
  -- `f` and `g` are the denominators of the affine law, scaled by `2 z²`
  have hf : 2 * s.z * s.z - s.t * (2 * E.d) * s.t = 2 * s.z ^ 2 * (1 - Point.cross P P) := by
    rw [ht, Point.cross]
    ring
  have hg : 2 * s.z * s.z + s.t * (2 * E.d) * s.t = 2 * s.z ^ 2 * (1 + Point.cross P P) := by
    rw [ht, Point.cross]
    ring
  refine ⟨?_, ?_, ?_, ?_⟩
  · have hscale : 2 * s.z ^ 2 ≠ 0 := mul_ne_zero htwo (pow_ne_zero 2 hz)
    simp only [Extended.double, hf, hg]
    exact mul_ne_zero (mul_ne_zero hscale hminus) (mul_ne_zero hscale hplus)
  all_goals
    simp only [Extended.double, hf, hg, Point.add_x, Point.add_y, hx, hy]
    field_simp
    ring

/-- The test against the neutral element. -/
theorem Represents.eq_zero_iff (h : s.Represents P) : s.x = 0 ∧ s.y - s.z = 0 ↔ P = 0 := by
  obtain ⟨hz, hx, hy, -⟩ := h
  rw [hx, hy, mul_eq_zero_iff_right hz, ← sub_one_mul, mul_eq_zero_iff_right hz, sub_eq_zero]
  exact (Point.ext_iff (x := P) (y := 0)).symm

end Extended

end Eyenet.Edwards
