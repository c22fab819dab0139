import Mathlib.Data.List.Forall2

/-!
# Patterns with wildcards

A pattern over tokens of any type: a list of places, each for one token, and whether one or more
further tokens must follow.

* `Pattern.matches_cons` — a pattern matches place by place, and so matching is decidable.
-/

namespace Eyenet

namespace Wildcard

variable {α : Type*}

/-- A pattern; a place `none` is for any token. -/
structure Pattern (α : Type*) where
  places : List (Option α)
  more : Bool
  deriving DecidableEq

/-- The place takes the token. -/
def Accepts (place : Option α) (t : α) : Prop := ∀ a ∈ place, a = t

@[simp] theorem accepts_none (t : α) : Accepts none t :=
  fun _ ha => absurd ha (Option.not_mem_none _)

@[simp] theorem accepts_some {a t : α} : Accepts (some a) t ↔ a = t :=
  ⟨fun h => h a rfl, fun h _ ha => Option.some.inj ha ▸ h⟩

namespace Pattern

/-- Each place takes a token, and tokens are left exactly where more must follow. -/
def Matches (p : Pattern α) (s : List α) : Prop :=
  ∃ front rest, s = front ++ rest ∧ List.Forall₂ Accepts p.places front ∧
    (rest ≠ [] ↔ p.more = true)

variable {place : Option α} {places : List (Option α)} {more : Bool} {t : α} {s : List α}

theorem matches_nil : Matches ⟨[], more⟩ s ↔ (s ≠ [] ↔ more = true) := by
  constructor
  · rintro ⟨front, rest, rfl, hfront, hrest⟩
    obtain rfl := List.forall₂_nil_left_iff.mp hfront
    exact hrest
  · intro h
    exact ⟨[], s, rfl, List.Forall₂.nil, h⟩

@[simp] theorem matches_end : Matches ⟨[], false⟩ s ↔ s = [] := by
  rw [matches_nil]
  simp

@[simp] theorem matches_more : Matches ⟨[], true⟩ s ↔ s ≠ [] := by
  rw [matches_nil]
  simp

/-- A pattern matches place by place. -/
@[simp] theorem matches_cons :
    Matches ⟨place :: places, more⟩ (t :: s) ↔ Accepts place t ∧ Matches ⟨places, more⟩ s := by
  constructor
  · rintro ⟨front, rest, hs, hfront, hrest⟩
    obtain ⟨u, front, hu, htail, rfl⟩ := List.forall₂_cons_left_iff.mp hfront
    obtain ⟨rfl, rfl⟩ := List.cons_eq_cons.mp hs
    exact ⟨hu, front, rest, rfl, htail, hrest⟩
  · rintro ⟨ht, front, rest, rfl, hfront, hrest⟩
    exact ⟨t :: front, rest, rfl, List.Forall₂.cons ht hfront, hrest⟩

@[simp] theorem not_matches_cons_nil : ¬Matches ⟨place :: places, more⟩ [] := by
  rintro ⟨front, rest, hs, hfront, -⟩
  obtain ⟨u, front, -, -, rfl⟩ := List.forall₂_cons_left_iff.mp hfront
  cases hs

instance decidableMatches [DecidableEq α] (more : Bool) :
    ∀ (places : List (Option α)) (s : List α), Decidable (Matches ⟨places, more⟩ s)
  | [], _ => decidable_of_iff _ matches_nil.symm
  | _ :: _, [] => .isFalse not_matches_cons_nil
  | place :: places, t :: s =>
    have := decidableMatches more places s
    have : Decidable (Accepts place t) := inferInstanceAs (Decidable (∀ a ∈ place, a = t))
    decidable_of_iff _ matches_cons.symm

instance [DecidableEq α] (p : Pattern α) (s : List α) : Decidable (p.Matches s) :=
  decidableMatches p.more p.places s

end Pattern

end Wildcard

end Eyenet
