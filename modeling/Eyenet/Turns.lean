import Mathlib.Data.List.Rotate

/-!
# Taking turns

The elements of a list take turns: a pointer says whose turn it is, modulo the length of the list.

* `picks_length` — as many turns in a row as there are elements are a rotation of the list.
* `count_picks` — in `n` rounds everybody has `n` turns.
-/

namespace Eyenet

namespace Turns

variable {α : Type*} {l : List α} {i j n : ℕ}

/-- Whose turn it is. -/
def pick (l : List α) (i : ℕ) : Option α := l[i % l.length]?

/-- The turns in a row from a pointer on. -/
def picks (l : List α) (i n : ℕ) : List α := (List.range n).filterMap fun j => pick l (i + j)

@[simp] theorem picks_zero : picks l i 0 = [] := rfl

theorem picks_succ : picks l i (n + 1) = picks l i n ++ (pick l (i + n)).toList := by
  rw [picks, List.range_succ, List.filterMap_append, ← picks, List.filterMap_cons,
    List.filterMap_nil]
  cases pick l (i + n) with
  | none => rfl
  | some a => rfl

theorem picks_add (m n : ℕ) : picks l i (m + n) = picks l i m ++ picks l (i + m) n := by
  induction n with
  | zero => rw [picks_zero, List.append_nil, Nat.add_zero]
  | succ n ih => rw [← Nat.add_assoc, picks_succ, ih, picks_succ, List.append_assoc, Nat.add_assoc]

@[simp] theorem picks_nil (i n : ℕ) : picks ([] : List α) i n = [] :=
  List.filterMap_eq_nil_iff.mpr fun _ _ => rfl

theorem pick_congr (h : i % l.length = j % l.length) : pick l i = pick l j := by
  rw [pick, h, pick]

/-- Only the pointer modulo the length of the list matters. -/
theorem picks_congr (h : i % l.length = j % l.length) (n : ℕ) : picks l i n = picks l j n := by
  rw [picks, picks]
  congr 1
  funext k
  exact pick_congr (by rw [Nat.add_mod, h, ← Nat.add_mod])

/-- After the first turn, the pointer is on the next element. -/
theorem picks_cons (h : j % l.length = (i + 1) % l.length) (n : ℕ) :
    picks l i (n + 1) = (pick l i).toList ++ picks l j n := by
  rw [Nat.add_comm, picks_add, picks_succ, picks_zero, List.nil_append, Nat.add_zero,
    picks_congr h]

theorem pick_isSome (h : l ≠ []) (i : ℕ) : (pick l i).isSome := by
  rw [pick, List.getElem?_eq_getElem (Nat.mod_lt _ (List.length_pos_of_ne_nil h))]
  rfl

theorem mem_of_pick {a : α} (h : pick l i = some a) : a ∈ l := List.mem_of_getElem? h

/-- One round is a rotation of the list. -/
theorem picks_length (l : List α) (i : ℕ) : picks l i l.length = l.rotate i := by
  have htake : ∀ n ≤ l.length, picks l i n = (l.rotate i).take n := by
    intro n hn
    induction n with
    | zero => rw [picks_zero, List.take_zero]
    | succ n ih =>
      rw [picks_succ, ih (Nat.le_of_succ_le hn), List.take_add_one, pick, List.getElem?_rotate hn,
        Nat.add_comm i n]
  rw [htake _ le_rfl, List.take_of_length_le (List.length_rotate l i).le]

/-- In `n` rounds everybody has `n` turns. -/
theorem count_picks [DecidableEq α] (l : List α) (i n : ℕ) (a : α) :
    (picks l i (n * l.length)).count a = n * l.count a := by
  induction n with
  | zero => rw [Nat.zero_mul, Nat.zero_mul, picks_zero, List.count_nil]
  | succ n ih =>
    rw [Nat.succ_mul, picks_add, List.count_append, ih, picks_length,
      (List.rotate_perm l _).count_eq, Nat.succ_mul]

end Turns

end Eyenet
