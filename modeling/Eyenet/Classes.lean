import Mathlib.Logic.Relation

/-!
# Classes under names

A partial map from elements to names sorts the elements with a name into classes. Merging the
classes of two elements, with an element that has no name yet taken as a class of its own, keeps
track of which elements are connected.

* `Tracks` — distinct elements share a class exactly when a relation connects them.
* `Merges.tracks` — a merge keeps track of one more pair.
-/

namespace Eyenet

open Relation

universe u v

namespace Classes

variable {α : Type u} {ι : Type v} {f g : α → Option ι} {r : α → α → Prop} {a b x y z : α}

/-- Two elements share a class. -/
def Same (f : α → Option ι) (x y : α) : Prop := ∃ i, f x = some i ∧ f y = some i

theorem Same.symm (h : Same f x y) : Same f y x := by
  obtain ⟨i, hx, hy⟩ := h
  exact ⟨i, hy, hx⟩

/-- The element is `a` or `b`, or in the class of one of them. -/
def Joined (f : α → Option ι) (a b z : α) : Prop := z = a ∨ z = b ∨ Same f z a ∨ Same f z b

/-- The classes of `a` and `b` become one, with a name that no other class has. -/
def Merges (f g : α → Option ι) (a b : α) : Prop :=
  ∃ i, (∀ z, Joined f a b z → g z = some i) ∧
    ∀ z, ¬ Joined f a b z → g z = f z ∧ g z ≠ some i

theorem Joined.symm (h : Joined f a b z) : Joined f b a z := by
  obtain h | h | h | h := h
  · exact Or.inr (Or.inl h)
  · exact Or.inl h
  · exact Or.inr (Or.inr (Or.inr h))
  · exact Or.inr (Or.inr (Or.inl h))

theorem Merges.symm (h : Merges f g a b) : Merges f g b a := by
  obtain ⟨i, hjoined, hother⟩ := h
  exact ⟨i, fun z hz => hjoined z hz.symm, fun z hz => hother z fun hz' => hz hz'.symm⟩

/-- Elements share a class after a merge when both were joined, or when they shared one before
and were not. -/
theorem Merges.same_iff (h : Merges f g a b) :
    Same g x y ↔ (Joined f a b x ∧ Joined f a b y) ∨
      (¬ Joined f a b x ∧ ¬ Joined f a b y ∧ Same f x y) := by
  obtain ⟨i, hjoined, hother⟩ := h
  refine ⟨fun hsame => ?_, fun hcases => ?_⟩
  · obtain ⟨j, hx, hy⟩ := hsame
    by_cases hxj : Joined f a b x
    · obtain rfl : i = j := Option.some.inj ((hjoined x hxj).symm.trans hx)
      exact Or.inl ⟨hxj, Classical.not_not.mp fun hyj => (hother y hyj).2 hy⟩
    · have hyj : ¬ Joined f a b y := by
        intro hyj
        obtain rfl : i = j := Option.some.inj ((hjoined y hyj).symm.trans hy)
        exact (hother x hxj).2 hx
      rw [(hother x hxj).1] at hx
      rw [(hother y hyj).1] at hy
      exact Or.inr ⟨hxj, hyj, j, hx, hy⟩
  · obtain ⟨hx, hy⟩ | ⟨hx, hy, j, hfx, hfy⟩ := hcases
    · exact ⟨i, hjoined x hx, hjoined y hy⟩
    · exact ⟨j, (hother x hx).1.trans hfx, (hother y hy).1.trans hfy⟩

/-- One pair more connects what was connected, and what was connected to either end. -/
theorem eqvGen_or_pair_iff :
    EqvGen (fun x y => r x y ∨ (x = a ∧ y = b)) x y ↔
      EqvGen r x y ∨
        ((EqvGen r x a ∨ EqvGen r x b) ∧ (EqvGen r y a ∨ EqvGen r y b)) := by
  have hmono {x y : α} (h : EqvGen r x y) : EqvGen (fun x y => r x y ∨ (x = a ∧ y = b)) x y :=
    h.mono fun _ _ => Or.inl
  have hpair : EqvGen (fun x y => r x y ∨ (x = a ∧ y = b)) a b := .rel a b (Or.inr ⟨rfl, rfl⟩)
  refine ⟨fun h => ?_, fun h => ?_⟩
  · induction h with
    | rel x y h =>
      obtain h | ⟨rfl, rfl⟩ := h
      · exact Or.inl (.rel x y h)
      · exact Or.inr ⟨Or.inl (.refl x), Or.inr (.refl y)⟩
    | refl x => exact Or.inl (.refl x)
    | symm x y _ ih =>
      obtain h | ⟨hx, hy⟩ := ih
      · exact Or.inl (.symm x y h)
      · exact Or.inr ⟨hy, hx⟩
    | trans x y z _ _ ihxy ihyz =>
      obtain hxy | ⟨hx, hy⟩ := ihxy
      · obtain hyz | ⟨hy, hz⟩ := ihyz
        · exact Or.inl (.trans x y z hxy hyz)
        · exact Or.inr ⟨hy.imp (.trans x y a hxy) (.trans x y b hxy), hz⟩
      · obtain hyz | ⟨-, hz⟩ := ihyz
        · have hzy := EqvGen.symm y z hyz
          exact Or.inr ⟨hx, hy.imp (.trans z y a hzy) (.trans z y b hzy)⟩
        · exact Or.inr ⟨hx, hz⟩
  · obtain h | ⟨hx, hy⟩ := h
    · exact hmono h
    · -- both ends lead to `a`
      have hto {z : α} (hz : EqvGen r z a ∨ EqvGen r z b) :
          EqvGen (fun x y => r x y ∨ (x = a ∧ y = b)) z a := by
        obtain hz | hz := hz
        · exact hmono hz
        · exact .trans z b a (hmono hz) (.symm a b hpair)
      exact .trans x a y (hto hx) (.symm y a (hto hy))

/-- Distinct elements share a class exactly when the relation connects them. -/
def Tracks (f : α → Option ι) (r : α → α → Prop) : Prop :=
  ∀ x y, x ≠ y → (Same f x y ↔ EqvGen r x y)

/-- The joined elements are those connected to one of the two. -/
theorem Tracks.joined_iff (h : Tracks f r) :
    Joined f a b z ↔ EqvGen r z a ∨ EqvGen r z b := by
  have hone {c : α} : z = c ∨ Same f z c ↔ EqvGen r z c := by
    by_cases hzc : z = c
    · exact iff_of_true (Or.inl hzc) (hzc ▸ .refl z)
    · rw [or_iff_right hzc, h z c hzc]
  rw [← hone, ← hone, or_or_or_comm, or_assoc, Joined]

/-- **A merge keeps track of its pair.** -/
theorem Merges.tracks (hmerge : Merges f g a b) (h : Tracks f r) :
    Tracks g fun x y => r x y ∨ (x = a ∧ y = b) := by
  intro x y hne
  rw [hmerge.same_iff, eqvGen_or_pair_iff, h.joined_iff, h.joined_iff, h x y hne]
  refine ⟨fun hcases => ?_, fun hcases => ?_⟩
  · obtain hboth | ⟨-, -, hxy⟩ := hcases
    · exact Or.inr hboth
    · exact Or.inl hxy
  · obtain hxy | hboth := hcases
    · by_cases hx : EqvGen r x a ∨ EqvGen r x b
      · have hyx := EqvGen.symm x y hxy
        exact Or.inl ⟨hx, hx.imp (.trans y x a hyx) (.trans y x b hyx)⟩
      · refine Or.inr ⟨hx, fun hy => hx ?_, hxy⟩
        exact hy.imp (.trans x y a hxy) (.trans x y b hxy)
    · exact Or.inl hboth

end Classes

end Eyenet
