import Eyenet.Classes
import Mathlib.Data.List.Induction
import Mathlib.Logic.Function.Iterate
import Mathlib.Tactic.Set
import Mathlib.Tactic.SplitIfs

/-!
# Union-find with path compression

A parent map sends an element toward the root of its tree; an element that the map has no entry
for is its own root. `find` climbs to the root and then redirects what it passed to it, `union`
hangs one root under another. Both take a bound on the number of rounds of their loops.

* `Forest.found` — a search returns the root and moves no root.
* `Forest.united` — a union joins two trees and leaves the others.
* `root_unionAll_iff` — after some unions two elements have one root exactly when the pairs connect
  them.
-/

namespace Eyenet

open Relation

universe u

namespace UnionFind

variable {α : Type u}

/-- The root of an element: the first loop of a search. -/
def climb (parent : α → α) [DecidableEq α] : ℕ → α → α
  | 0, x => x
  | n + 1, x => if parent x = x then x else climb parent n (parent x)

/-- After `k` steps up one is at a root. -/
def Forest (parent : α → α) (k : ℕ) : Prop := ∀ x, parent (parent^[k] x) = parent^[k] x

section Iterate

variable {parent : α → α} {k n : ℕ} {x : α}

theorem forest_id : Forest (id : α → α) 0 := fun _ => rfl

/-- Further steps stay at the root. -/
theorem Forest.iterate (h : Forest parent k) (hk : k ≤ n) : parent^[n] x = parent^[k] x := by
  obtain ⟨m, rfl⟩ := Nat.exists_eq_add_of_le' hk
  rw [Function.iterate_add_apply, Function.iterate_fixed (h x)]

theorem Forest.mono (h : Forest parent k) (hk : k ≤ n) : Forest parent n := by
  intro x
  rw [h.iterate hk]
  exact h x

/-- A root that one gets to is the root. -/
theorem Forest.root_unique (h : Forest parent k) (hroot : parent (parent^[n] x) = parent^[n] x) :
    parent^[n] x = parent^[k] x := by
  rw [← h.iterate (Nat.le_add_right k n), Function.iterate_add_apply,
    Function.iterate_fixed hroot]

/-- The parent of an element has the root of the element. -/
theorem Forest.iterate_parent (h : Forest parent k) : parent^[k] (parent x) = parent^[k] x := by
  rw [← Function.iterate_succ_apply, Function.iterate_succ_apply']
  exact h x

end Iterate

/-- The parent map is a forest in which two elements have one root when the pairs connect them. -/
structure Connects (parent : α → α) (k : ℕ) (pairs : List (α × α)) : Prop where
  forest : Forest parent k
  root_eq_iff : ∀ x y, parent^[k] x = parent^[k] y ↔ EqvGen (fun x y => (x, y) ∈ pairs) x y

theorem connects_id : Connects (id : α → α) 0 [] where
  forest := forest_id
  root_eq_iff x y := by
    refine ⟨?_, ?_⟩
    · rintro rfl
      exact .refl x
    · intro h
      induction h with
      | rel x y h => exact absurd h List.not_mem_nil
      | refl x => rfl
      | symm x y _ ih => exact ih.symm
      | trans x y z _ _ ih ih' => exact ih.trans ih'

variable [DecidableEq α]

/-- Redirect what is between an element and its root: the second loop of a search. -/
def compress (root : α) : ℕ → (α → α) → α → α → α
  | 0, parent, _ => parent
  | n + 1, parent, x =>
    if parent x = root then parent
    else compress root n (Function.update parent x root) (parent x)

/-- The root of an element, and the parents after the search. -/
def find (fuel : ℕ) (parent : α → α) (x : α) : α × (α → α) :=
  let root := climb parent fuel x
  (root, compress root fuel parent x)

/-- The parents after the trees of two elements are joined. -/
def union (fuel : ℕ) (parent : α → α) (a b : α) : α → α :=
  let foundA := find fuel parent a
  let foundB := find fuel foundA.2 b
  if foundA.1 ≠ foundB.1 then Function.update foundB.2 foundA.1 foundB.1 else foundB.2

/-- The parents after the union of each pair. -/
def unionAll (fuel : ℕ) (pairs : List (α × α)) : α → α :=
  pairs.foldl (fun parent p => union fuel parent p.1 p.2) id

variable {parent : α → α} {k fuel : ℕ} {x a b : α}

theorem climb_eq (n : ℕ) : climb parent n x = parent^[n] x := by
  induction n generalizing x with
  | zero => rfl
  | succ n ih =>
    rw [climb]
    split_ifs with hroot
    · exact (Function.iterate_fixed hroot (n + 1)).symm
    · rw [ih, Function.iterate_succ_apply]

/-! ## Searches -/

/-- To redirect an element to its root moves no root and lengthens no path. -/
theorem Forest.iterate_update (h : Forest parent k) {n : ℕ} {y : α}
    (hroot : parent (parent^[n] y) = parent^[n] y) :
    (Function.update parent x (parent^[k] x))^[n] y = parent^[n] y ∧
      Function.update parent x (parent^[k] x) (parent^[n] y) = parent^[n] y := by
  -- a root stays one
  have hstays : ∀ r, parent r = r → Function.update parent x (parent^[k] x) r = r := by
    intro r hr
    by_cases hx : r = x
    · subst hx
      rw [Function.update_self, Function.iterate_fixed hr]
    · rw [Function.update_of_ne hx, hr]
  refine ⟨?_, hstays _ hroot⟩
  induction n generalizing y with
  | zero => rfl
  | succ n ih =>
    rw [Function.iterate_succ_apply]
    by_cases hx : y = x
    · subst hx
      rw [Function.update_self, Function.iterate_fixed (hstays _ (h y)), h.root_unique hroot]
    · rw [Function.update_of_ne hx]
      exact ih hroot

theorem Forest.redirect (h : Forest parent k) :
    Forest (Function.update parent x (parent^[k] x)) k ∧
      ∀ y, (Function.update parent x (parent^[k] x))^[k] y = parent^[k] y := by
  refine ⟨fun y => ?_, fun y => (h.iterate_update (h y)).1⟩
  rw [(h.iterate_update (h y)).1]
  exact (h.iterate_update (h y)).2

/-- By induction on the rounds: each one redirects one element. -/
theorem Forest.compressed (h : Forest parent k) (n : ℕ) :
    Forest (compress (parent^[k] x) n parent x) k ∧
      ∀ y, (compress (parent^[k] x) n parent x)^[k] y = parent^[k] y := by
  induction n generalizing parent x with
  | zero => exact ⟨h, fun _ => rfl⟩
  | succ n ih =>
    rw [compress]
    split_ifs
    · exact ⟨h, fun _ => rfl⟩
    · obtain ⟨hupdate, hroots⟩ := h.redirect (x := x)
      have hsame : parent^[k] x = (Function.update parent x (parent^[k] x))^[k] (parent x) := by
        rw [hroots, h.iterate_parent]
      have hrest := ih hupdate (x := parent x)
      rw [← hsame] at hrest
      exact ⟨hrest.1, fun y => (hrest.2 y).trans (hroots y)⟩

/-- **A search** returns the root, and moves no root. -/
theorem Forest.found (h : Forest parent k) (hfuel : k ≤ fuel) :
    (find fuel parent x).1 = parent^[k] x ∧ Forest (find fuel parent x).2 k ∧
      ∀ y, (find fuel parent x).2^[k] y = parent^[k] y := by
  have hroot : climb parent fuel x = parent^[k] x := by rw [climb_eq, h.iterate hfuel]
  simp only [find, hroot]
  exact ⟨trivial, h.compressed fuel⟩

/-! ## Unions -/

/-- A root is hung under another. -/
theorem Forest.link (h : Forest parent k) {ra rb : α} (hra : parent ra = ra) (hrb : parent rb = rb)
    (hne : ra ≠ rb) :
    ∀ y, (Function.update parent ra rb)^[k + 1] y =
      if parent^[k] y = ra then rb else parent^[k] y := by
  have hfixed : Function.update parent ra rb rb = rb := by
    rw [Function.update_of_ne hne.symm, hrb]
  have hclimb : ∀ n y, parent (parent^[n] y) = parent^[n] y →
      (Function.update parent ra rb)^[n + 1] y =
        if parent^[n] y = ra then rb else parent^[n] y := by
    intro n
    induction n with
    | zero =>
      intro y hy
      rw [Function.iterate_one, Function.iterate_zero_apply, Function.update_apply]
      split_ifs
      · rfl
      · exact hy
    | succ n ih =>
      intro y hy
      rw [Function.iterate_succ_apply]
      by_cases hroot : y = ra
      · subst hroot
        rw [Function.update_self, Function.iterate_fixed hfixed, Function.iterate_fixed hra,
          if_pos rfl]
      · rw [Function.update_of_ne hroot]
        exact ih (parent y) hy
  exact fun y => hclimb k y (h y)

/-- **A union** joins the trees of two elements and leaves the others. -/
theorem Forest.united (h : Forest parent k) (hfuel : k ≤ fuel) :
    Forest (union fuel parent a b) (k + 1) ∧
      ∀ y, (union fuel parent a b)^[k + 1] y =
        if parent^[k] y = parent^[k] a then parent^[k] b else parent^[k] y := by
  obtain ⟨hrootA, hforestA, hsameA⟩ := h.found hfuel (x := a)
  obtain ⟨hrootB, hforestB, hsameB⟩ := hforestA.found hfuel (x := b)
  set found := find fuel (find fuel parent a).2 b with hfound
  have hsame : ∀ y, found.2^[k] y = parent^[k] y := fun y => (hsameB y).trans (hsameA y)
  have hb : found.1 = parent^[k] b := hrootB.trans (hsameA b)
  have hunion : union fuel parent a b =
      if parent^[k] a ≠ parent^[k] b then
        Function.update found.2 (parent^[k] a) (parent^[k] b) else found.2 := by
    simp only [union, ← hfound, hrootA, hb]
  have hroot : ∀ y, found.2 (parent^[k] y) = parent^[k] y := by
    intro y
    rw [← hsame y]
    exact hforestB y
  by_cases heq : parent^[k] a = parent^[k] b
  · rw [hunion, if_neg (not_not.mpr heq)]
    refine ⟨hforestB.mono (Nat.le_succ k), fun y => ?_⟩
    rw [hforestB.iterate (Nat.le_succ k), hsame]
    split_ifs with hy
    · exact hy.trans heq
    · rfl
  · rw [hunion, if_pos heq]
    have hlink := hforestB.link (hroot a) (hroot b) heq
    simp only [hsame] at hlink
    refine ⟨fun y => ?_, hlink⟩
    rw [hlink]
    split_ifs with hy
    · rw [Function.update_of_ne (Ne.symm heq), hroot]
    · rw [Function.update_of_ne hy, hroot]

/-- Two elements have one root after a union when they had, or when both were joined. -/
theorem Forest.union_eq_iff (h : Forest parent k) (hfuel : k ≤ fuel) {x y : α} :
    (union fuel parent a b)^[k + 1] x = (union fuel parent a b)^[k + 1] y ↔
      parent^[k] x = parent^[k] y ∨
        (parent^[k] x = parent^[k] a ∨ parent^[k] x = parent^[k] b) ∧
          (parent^[k] y = parent^[k] a ∨ parent^[k] y = parent^[k] b) := by
  rw [(h.united hfuel).2, (h.united hfuel).2]
  split_ifs with hx hy hy
  · exact iff_of_true rfl (Or.inr ⟨Or.inl hx, Or.inl hy⟩)
  · refine ⟨?_, ?_⟩
    · exact fun heq => Or.inr ⟨Or.inl hx, Or.inr heq.symm⟩
    · rintro (heq | ⟨-, heq | heq⟩)
      · exact absurd (heq.symm.trans hx) hy
      · exact absurd heq hy
      · exact heq.symm
  · refine ⟨?_, ?_⟩
    · exact fun heq => Or.inr ⟨Or.inr heq, Or.inl hy⟩
    · rintro (heq | ⟨heq | heq, -⟩)
      · exact absurd (heq.trans hy) hx
      · exact absurd heq hx
      · exact heq
  · refine ⟨?_, ?_⟩
    · exact Or.inl
    · rintro (heq | ⟨heq | heq, heq' | heq'⟩)
      · exact heq
      · exact absurd heq hx
      · exact absurd heq hx
      · exact absurd heq' hy
      · exact heq.trans heq'.symm

theorem Connects.united {pairs : List (α × α)} (h : Connects parent k pairs) (hfuel : k ≤ fuel) :
    Connects (union fuel parent a b) (k + 1) (pairs ++ [(a, b)]) where
  forest := (h.forest.united hfuel).1
  root_eq_iff x y := by
    have hpairs : (fun x y => (x, y) ∈ pairs ++ [(a, b)]) =
        fun x y => (x, y) ∈ pairs ∨ (x = a ∧ y = b) := by
      funext x y
      rw [List.mem_append, List.mem_singleton, Prod.mk.injEq]
    rw [h.forest.union_eq_iff hfuel, hpairs, Classes.eqvGen_or_pair_iff]
    simp only [h.root_eq_iff]

/-- **Union-find.** Enough rounds for as many unions as there are pairs are enough, and then two
elements have one root exactly when the pairs connect them. -/
theorem root_unionAll_iff {pairs : List (α × α)} (hfuel : pairs.length ≤ fuel) :
    Connects (unionAll fuel pairs) pairs.length pairs := by
  induction pairs using List.reverseRecOn with
  | nil => exact connects_id
  | append_singleton pairs p ih =>
    rw [List.length_append, List.length_singleton] at hfuel
    rw [unionAll, List.foldl_append, List.length_append]
    exact (ih (Nat.le_of_succ_le hfuel)).united (Nat.le_of_succ_le hfuel)

end UnionFind

end Eyenet
