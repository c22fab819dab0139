import Mathlib.Data.List.Nodup
import Mathlib.Logic.Relation

/-!
# Calls in progress, single use, and lineages

Three things that several concurrent components share.

* `Calls` — the calls that are somewhere between their first and their last step, each under its
  own number.
* `OneUse` — tokens that a call spends before it uses them: none is used twice.
* `SimpleChains` — a successor relation whose chains neither branch, nor join, nor close; it
  survives the birth of a fresh successor (`SimpleChains.extend`), and a chain has one end
  (`SimpleChains.end_unique`).
-/

namespace Eyenet

/-! ## Calls -/

/-- The calls in progress and where each stands. -/
abbrev Calls (P : Type*) := List (ℕ × P)

namespace Calls

variable {P : Type*} {cs : Calls P} {c c' : ℕ} {p q : P}

/-- Where a call stands. -/
def phase (cs : Calls P) (c : ℕ) : Option P := cs.lookup c

/-- The call moves on. -/
def put (cs : Calls P) (c : ℕ) (p : P) : Calls P := (c, p) :: cs.filter fun x => x.1 != c

@[simp] theorem phase_nil : phase ([] : Calls P) c = none := rfl

theorem phase_put : (cs.put c p).phase c' = if c' = c then some p else cs.phase c' := by
  by_cases h : c' = c
  · simp [phase, put, h]
  · simp only [phase, put, List.lookup_cons, beq_false_of_ne h, if_neg h]
    induction cs with
    | nil => rfl
    | cons x cs ih =>
      obtain ⟨d, q⟩ := x
      by_cases hd : d = c
      · simp [hd, List.lookup_cons, beq_false_of_ne h, ih]
      · simp [hd, List.lookup_cons, ih]

@[simp] theorem phase_put_self : (cs.put c p).phase c = some p := by
  simp [phase_put]

theorem phase_put_of_ne (h : c' ≠ c) : (cs.put c p).phase c' = cs.phase c' := by
  simp [phase_put, h]

theorem mem_of_phase (h : cs.phase c = some p) : (c, p) ∈ cs := by
  rw [phase, List.lookup_eq_some_iff] at h
  obtain ⟨l₁, l₂, hl, -⟩ := h
  simp [hl]

theorem mem_put {x : ℕ × P} : x ∈ cs.put c p ↔ x = (c, p) ∨ x ∈ cs ∧ x.1 ≠ c := by
  simp [put]

/-- Every call stands in one place. -/
def Keyed (cs : Calls P) : Prop := ∀ x ∈ cs, cs.phase x.1 = some x.2

theorem Keyed.nil : Keyed ([] : Calls P) := by simp [Keyed]

theorem Keyed.put (h : Keyed cs) : Keyed (cs.put c p) := by
  intro x hx
  rcases mem_put.mp hx with rfl | ⟨hx, hne⟩
  · exact phase_put_self
  · rw [phase_put_of_ne hne, h x hx]

end Calls

/-! ## Single use -/

/-- Whoever holds (`H`) a token has spent (`S`) it, alone, and has not used it yet; no token is
used twice. -/
structure OneUse {ι : Type*} (H : ℕ → ι → Prop) (S : ι → Prop) (used : List ι) : Prop where
  spent : ∀ {c x}, H c x → S x
  usedSpent : ∀ x ∈ used, S x
  alone : ∀ {c c' x}, H c x → H c' x → c = c'
  unused : ∀ {c x}, H c x → x ∉ used
  nodup : used.Nodup

namespace OneUse

variable {ι : Type*} {H H' : ℕ → ι → Prop} {S S' : ι → Prop} {used : List ι}
variable {c : ℕ} {x : ι}

theorem nil (h : ∀ c x, ¬ H c x) : OneUse H S [] where
  spent hx := absurd hx (h _ _)
  usedSpent x hx := absurd hx List.not_mem_nil
  alone hx := absurd hx (h _ _)
  unused hx := absurd hx (h _ _)
  nodup := List.nodup_nil

/-- Holders may give up, and what is spent stays spent. -/
theorem mono (h : OneUse H S used) (hholds : ∀ {c x}, H' c x → H c x)
    (hspent : ∀ {x}, S x → S' x) : OneUse H' S' used where
  spent hx := hspent (h.spent (hholds hx))
  usedSpent x hx := hspent (h.usedSpent x hx)
  alone hx hx' := h.alone (hholds hx) (hholds hx')
  unused hx := h.unused (hholds hx)
  nodup := h.nodup

/-- A call spends a token that was not spent. -/
theorem take (h : OneUse H S used) (hfresh : ¬ S x) (hx : S' x)
    (hspent : ∀ {y}, S y → S' y)
    (hholds : ∀ {c' y}, H' c' y → (c' = c ∧ y = x) ∨ H c' y) :
    OneUse H' S' used where
  spent hy := by
    rcases hholds hy with ⟨-, rfl⟩ | hy
    · exact hx
    · exact hspent (h.spent hy)
  usedSpent y hy := hspent (h.usedSpent y hy)
  alone := by
    intro c₁ c₂ y h₁ h₂
    rcases hholds h₁ with ⟨hc₁, rfl⟩ | h₁
    · rcases hholds h₂ with ⟨hc₂, -⟩ | h₂
      · rw [hc₁, hc₂]
      · exact absurd (h.spent h₂) hfresh
    · rcases hholds h₂ with ⟨-, rfl⟩ | h₂
      · exact absurd (h.spent h₁) hfresh
      · exact h.alone h₁ h₂
  unused := by
    intro c' y hy hused
    rcases hholds hy with ⟨-, rfl⟩ | hy
    · exact hfresh (h.usedSpent y hused)
    · exact h.unused hy hused
  nodup := h.nodup

/-- A holder uses its token, and holds it no more. -/
theorem use (h : OneUse H S used) (hx : H c x)
    (hholds : ∀ {c' y}, H' c' y → c' ≠ c ∧ H c' y) : OneUse H' S (used ++ [x]) where
  spent hy := h.spent (hholds hy).2
  usedSpent y hy := by
    rcases List.mem_append.mp hy with hy | hy
    · exact h.usedSpent y hy
    · obtain rfl := List.mem_singleton.mp hy
      exact h.spent hx
  alone hy hy' := h.alone (hholds hy).2 (hholds hy').2
  unused := by
    intro c' y hy hused
    obtain ⟨hne, hy⟩ := hholds hy
    rcases List.mem_append.mp hused with hused | hused
    · exact h.unused hy hused
    · obtain rfl := List.mem_singleton.mp hused
      exact hne (h.alone hy hx)
  nodup := h.nodup.append (List.nodup_singleton x) (List.disjoint_singleton.mpr (h.unused hx))

end OneUse

/-! ## Lineages -/

open Relation

/-- Every element has at most one successor and at most one predecessor, and none succeeds
itself. -/
structure SimpleChains {α : Type*} (r : α → α → Prop) : Prop where
  functional : ∀ {a b c}, r a b → r a c → b = c
  injective : ∀ {a b c}, r a c → r b c → a = b
  acyclic : ∀ a, ¬ TransGen r a a

namespace SimpleChains

variable {α : Type*} {r r' : α → α → Prop} {t n a b l : α}

theorem empty : SimpleChains (fun _ _ : α => False) where
  functional := False.elim
  injective := False.elim
  acyclic := by
    intro a h
    obtain ⟨b, hb, -⟩ := TransGen.head'_iff.mp h
    exact hb

/-- Fewer successors make no new chain. -/
theorem mono (h : SimpleChains r) (hle : ∀ a b, r' a b → r a b) : SimpleChains r' where
  functional := fun hb hc => h.functional (hle _ _ hb) (hle _ _ hc)
  injective := fun ha hb => h.injective (hle _ _ ha) (hle _ _ hb)
  acyclic := fun a ha => h.acyclic a (TransGen.mono hle a a ha)

/-- The end `t` of a chain gets a fresh successor `n`. -/
theorem extend (h : SimpleChains r) (ht : ∀ b, ¬ r t b) (hto : ∀ a, ¬ r a n)
    (hfrom : ∀ b, ¬ r n b) (hne : n ≠ t) :
    SimpleChains fun a b => r a b ∨ (a = t ∧ b = n) where
  functional := by
    rintro a b c (hb | ⟨rfl, rfl⟩) (hc | ⟨hat, rfl⟩)
    · exact h.functional hb hc
    · exact absurd (hat ▸ hb) (ht b)
    · exact absurd hc (ht c)
    · rfl
  injective := by
    rintro a b c (ha | ⟨rfl, rfl⟩) (hb | ⟨rfl, hcn⟩)
    · exact h.injective ha hb
    · exact absurd (hcn ▸ ha) (hto a)
    · exact absurd hb (hto b)
    · rfl
  acyclic := by
    -- a path either stays in the old relation or ends at the fresh element
    have hpath : ∀ {a b}, TransGen (fun a b => r a b ∨ (a = t ∧ b = n)) a b →
        TransGen r a b ∨ b = n := by
      intro a b hab
      induction hab with
      | single hb =>
        rcases hb with hb | ⟨-, rfl⟩
        · exact .inl (.single hb)
        · exact .inr rfl
      | tail _ hc ih =>
        rcases hc with hc | ⟨-, rfl⟩
        · rcases ih with ih | rfl
          · exact .inl (ih.tail hc)
          · exact absurd hc (hfrom _)
        · exact .inr rfl
    intro a ha
    rcases hpath ha with hold | rfl
    · exact h.acyclic a hold
    · obtain ⟨b, hb | ⟨hat, -⟩, -⟩ := TransGen.head'_iff.mp ha
      · exact hfrom b hb
      · exact hne hat

/-- A chain has one end. -/
theorem end_unique (h : SimpleChains r) (ha : ReflTransGen r l a) (hb : ReflTransGen r l b)
    (hea : ∀ c, ¬ r a c) (heb : ∀ c, ¬ r b c) : a = b := by
  have huniq : Relator.RightUnique r := fun _ _ _ h₁ h₂ => h.functional h₁ h₂
  rcases ReflTransGen.total_of_right_unique huniq ha hb with hab | hba
  · rcases ReflTransGen.cases_head hab with rfl | ⟨c, hc, -⟩
    · rfl
    · exact absurd hc (hea c)
  · rcases ReflTransGen.cases_head hba with rfl | ⟨c, hc, -⟩
    · rfl
    · exact absurd hc (heb c)

end SimpleChains

end Eyenet
