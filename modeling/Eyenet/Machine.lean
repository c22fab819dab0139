import Mathlib.Data.List.Basic

/-!
# Machines and their runs

A machine is a partial step function `step : σ → α → Option σ` over states `σ` and labels
`α`; `none` says that the label cannot happen in that state. A run folds the step over a
list of labels, so an interleaving of several parties is simply such a list.

* `run_preserves` — what every step preserves, every run preserves.
* `run_history` — the same for what a state has to do with the labels so far.
* `exists_step_origin` — what there is after a run was made by one of its steps.
* `run_preserves_along` — the same for runs whose steps all meet a condition on the state
  before the step and the label.
* `throughout_iff_along` — a property holds all along a run exactly when its steps meet a
  condition, given an invariant that links the two.
* `between_iff_along` — the same for a relation between the states of a run.
-/

namespace Eyenet

namespace Machine

variable {σ α : Type*}

/-- Run the labels in order; `none` as soon as one of them cannot happen. -/
def run (step : σ → α → Option σ) : σ → List α → Option σ
  | s, [] => some s
  | s, a :: as =>
    match step s a with
    | none => none
    | some s' => run step s' as

/-- Every step of the run meets the condition `C` on its state and label. -/
def Along (step : σ → α → Option σ) (C : σ → α → Prop) : σ → List α → Prop
  | _, [] => True
  | s, a :: as => C s a ∧
    match step s a with
    | none => True
    | some s' => Along step C s' as

instance Along.decidable (step : σ → α → Option σ) (C : σ → α → Prop)
    [∀ s a, Decidable (C s a)] : ∀ s as, Decidable (Along step C s as)
  | _, [] => .isTrue trivial
  | s, a :: as =>
    match h : step s a with
    | none => decidable_of_iff (C s a) (by simp [Along, h])
    | some s' =>
      have := Along.decidable step C s' as
      decidable_of_iff (C s a ∧ Along step C s' as) (by simp [Along, h])

/-- Whether a run reaches a state with a decidable property. -/
instance decidableReaches (r : Option σ) (P : σ → Prop) [DecidablePred P] :
    Decidable (∃ s, r = some s ∧ P s) :=
  match r with
  | none => .isFalse (by simp)
  | some s => decidable_of_iff (P s) (by simp)

variable {step : σ → α → Option σ} {C : σ → α → Prop} {I : σ → Prop}
variable {s s' : σ} {a : α} {as bs : List α}

@[simp] theorem run_nil : run step s [] = some s := rfl

theorem run_cons : run step s (a :: as) = (step s a).bind fun t => run step t as := by
  simp only [run]
  cases step s a <;> rfl

/-- A nonempty run is a step followed by a run. -/
theorem run_cons_eq_some :
    run step s (a :: as) = some s' ↔ ∃ t, step s a = some t ∧ run step t as = some s' := by
  rw [run_cons, Option.bind_eq_some_iff]

/-- A run goes on from the state that its first part reaches. -/
theorem run_append_of_eq (hrun : run step s as = some s') :
    run step s (as ++ bs) = run step s' bs := by
  induction as generalizing s with
  | nil =>
    rw [run_nil] at hrun
    rw [List.nil_append, Option.some.inj hrun]
  | cons a as ih =>
    obtain ⟨t, ht, hrest⟩ := run_cons_eq_some.mp hrun
    rw [List.cons_append, run_cons, ht, Option.bind_some, ih hrest]

/-- Where no label is impossible, every list of labels is a run. -/
theorem exists_run (htotal : ∀ s a, ∃ s', step s a = some s') (s : σ) (as : List α) :
    ∃ s', run step s as = some s' := by
  induction as generalizing s with
  | nil => exact ⟨s, rfl⟩
  | cons a as ih =>
    obtain ⟨t, ht⟩ := htotal s a
    obtain ⟨s', hs'⟩ := ih t
    exact ⟨s', run_cons_eq_some.mpr ⟨t, ht, hs'⟩⟩

/-! ## Invariants -/

/-- **Invariant rule.** What every step preserves, every run preserves. -/
theorem run_preserves (hstep : ∀ {s a s'}, I s → step s a = some s' → I s')
    (h0 : I s) (hrun : run step s as = some s') : I s' := by
  induction as generalizing s with
  | nil =>
    rw [run_nil] at hrun
    exact Option.some.inj hrun ▸ h0
  | cons a as ih =>
    obtain ⟨t, ht, hrest⟩ := run_cons_eq_some.mp hrun
    exact ih (hstep h0 ht) hrest

/-- **History rule.** What a first part of the run and its state have, every step keeps. -/
theorem run_history {J : List α → σ → Prop}
    (hstep : ∀ {bs t a t'}, J bs t → step t a = some t' → J (bs ++ [a]) t')
    (h0 : J [] s) (hrun : run step s as = some s') : J as s' := by
  have hall : ∀ bs t cs, J bs t → run step t cs = some s' → J (bs ++ cs) s' := by
    intro bs t cs
    induction cs generalizing bs t with
    | nil =>
      intro hJ ht
      rw [List.append_nil]
      exact Option.some.inj ht ▸ hJ
    | cons c cs ih =>
      intro hJ ht
      obtain ⟨u, hu, hrest⟩ := run_cons_eq_some.mp ht
      rw [List.append_cons]
      exact ih (bs ++ [c]) u (hstep hJ hu) hrest
  exact hall [] s as h0 hrun

/-- **Origin rule.** What there is in the end was there from the beginning, or was made by a step
of the run. -/
theorem exists_step_origin {ρ : Type*} {R : σ → ρ → Prop} {P : σ → α → ρ → Prop} {r : ρ}
    (hinv : ∀ {s a s'}, I s → step s a = some s' → I s')
    (hstep : ∀ {s a s'}, I s → step s a = some s' → R s' r → R s r ∨ P s a r)
    (h0 : I s) (hrun : run step s as = some s') (hr : R s' r) :
    R s r ∨ ∃ bs a cs t, as = bs ++ a :: cs ∧ run step s bs = some t ∧ P t a r := by
  induction as generalizing s with
  | nil =>
    rw [run_nil] at hrun
    exact Or.inl (Option.some.inj hrun ▸ hr)
  | cons a as ih =>
    obtain ⟨t, ht, hrest⟩ := run_cons_eq_some.mp hrun
    rcases ih (hinv h0 ht) hrest with h | ⟨bs, b, cs, u, rfl, hu, hP⟩
    · refine (hstep h0 ht h).imp_right fun hP => ?_
      exact ⟨[], a, as, s, rfl, run_nil, hP⟩
    · exact Or.inr ⟨a :: bs, b, cs, u, rfl, run_cons_eq_some.mpr ⟨t, ht, hu⟩, hP⟩

/-- The origin rule, for what is seen in the state before the step. -/
theorem exists_origin {ρ : Type*} {R P : σ → ρ → Prop} {r : ρ}
    (hstep : ∀ {s a s'}, step s a = some s' → R s' r → R s r ∨ P s r)
    (hrun : run step s as = some s') (hr : R s' r) :
    R s r ∨ ∃ bs cs t, as = bs ++ cs ∧ run step s bs = some t ∧ P t r := by
  have horigin := exists_step_origin (I := fun _ => True) (P := fun s _ r => P s r)
    (fun _ _ => trivial) (fun _ => hstep) trivial hrun hr
  refine horigin.imp_right ?_
  rintro ⟨bs, a, cs, t, has, ht, hP⟩
  exact ⟨bs, a :: cs, t, has, ht, hP⟩

@[simp] theorem along_nil : Along step C s [] := trivial

theorem along_cons :
    Along step C s (a :: as) ↔ C s a ∧ ∀ t, step s a = some t → Along step C t as := by
  cases h : step s a <;> simp [Along, h]

theorem along_of_forall (h : ∀ a ∈ as, ∀ s, C s a) : Along step C s as := by
  induction as generalizing s with
  | nil => trivial
  | cons a as ih =>
    exact along_cons.mpr ⟨h a List.mem_cons_self s,
      fun t _ => ih fun b hb => h b (List.mem_cons_of_mem a hb)⟩

theorem along_congr {C' : σ → α → Prop} (h : ∀ s a, C s a ↔ C' s a) :
    Along step C s as ↔ Along step C' s as := by
  rw [show C = C' from funext fun s => funext fun a => propext (h s a)]

theorem along_and {C' : σ → α → Prop} :
    Along step (fun s a => C s a ∧ C' s a) s as ↔ Along step C s as ∧ Along step C' s as := by
  induction as generalizing s with
  | nil => simp
  | cons a as ih =>
    simp only [along_cons, ih]
    exact ⟨fun h => ⟨⟨h.1.1, fun t ht => (h.2 t ht).1⟩, h.1.2, fun t ht => (h.2 t ht).2⟩,
      fun h => ⟨⟨h.1.1, h.2.1⟩, fun t ht => ⟨h.1.2 t ht, h.2.2 t ht⟩⟩⟩

theorem along_forall {ι : Sort*} {D : ι → σ → α → Prop} :
    Along step (fun s a => ∀ i, D i s a) s as ↔ ∀ i, Along step (D i) s as := by
  induction as generalizing s with
  | nil => simp
  | cons a as ih =>
    simp only [along_cons, ih]
    exact ⟨fun h i => ⟨h.1 i, fun t ht => h.2 t ht i⟩,
      fun h => ⟨fun i => (h i).1, fun t ht i => (h i).2 t ht⟩⟩

/-- **Guarded invariant rule.** What every step that meets the condition preserves, every run
whose steps all meet it preserves. -/
theorem run_preserves_along (hstep : ∀ {s a s'}, I s → C s a → step s a = some s' → I s')
    (h0 : I s) (hC : Along step C s as) (hrun : run step s as = some s') : I s' := by
  induction as generalizing s with
  | nil =>
    rw [run_nil] at hrun
    exact Option.some.inj hrun ▸ h0
  | cons a as ih =>
    obtain ⟨t, ht, hrest⟩ := run_cons_eq_some.mp hrun
    obtain ⟨hc, hnext⟩ := along_cons.mp hC
    exact ih (hstep h0 hc ht) (hnext t ht) hrest

theorem Along.mono {C' : σ → α → Prop} (hC : Along step C s as) (h : ∀ s a, C s a → C' s a) :
    Along step C' s as := by
  induction as generalizing s with
  | nil => trivial
  | cons a as ih =>
    obtain ⟨hc, hnext⟩ := along_cons.mp hC
    exact along_cons.mpr ⟨h s a hc, fun t ht => ih (hnext t ht)⟩

/-- The condition of a run restricts to its first part. -/
theorem Along.append_left (h : Along step C s (as ++ bs)) : Along step C s as := by
  induction as generalizing s with
  | nil => trivial
  | cons a as ih =>
    rw [List.cons_append, along_cons] at h
    exact along_cons.mpr ⟨h.1, fun t ht => ih (h.2 t ht)⟩

/-- The condition of a run holds along the part after a reached state. -/
theorem Along.append_right {t : σ} (h : Along step C s (as ++ bs))
    (hrun : run step s as = some t) : Along step C t bs := by
  induction as generalizing s with
  | nil =>
    rw [run_nil] at hrun
    exact Option.some.inj hrun ▸ h
  | cons a as ih =>
    rw [List.cons_append, along_cons] at h
    obtain ⟨u, hu, hrest⟩ := run_cons_eq_some.mp hrun
    exact ih (h.2 u hu) hrest

/-- Every state of the run, the first and the last included, satisfies `P`. -/
def Throughout (step : σ → α → Option σ) (P : σ → Prop) (s : σ) (as : List α) : Prop :=
  ∀ bs, bs <+: as → ∀ t, run step s bs = some t → P t

theorem throughout_congr {P Q : σ → Prop} (h : ∀ s, P s ↔ Q s) :
    Throughout step P s as ↔ Throughout step Q s as := by
  rw [show P = Q from funext fun s => propext (h s)]

theorem throughout_and {P Q : σ → Prop} :
    Throughout step (fun s => P s ∧ Q s) s as ↔ Throughout step P s as ∧ Throughout step Q s as :=
  ⟨fun h => ⟨fun bs hbs t ht => (h bs hbs t ht).1, fun bs hbs t ht => (h bs hbs t ht).2⟩,
    fun h bs hbs t ht => ⟨h.1 bs hbs t ht, h.2 bs hbs t ht⟩⟩

/-- What the guarded invariant implies holds all along a run whose steps meet the condition. -/
theorem throughout_of_along {P : σ → Prop} (hP : ∀ {s}, I s → P s)
    (hstep : ∀ {s a s'}, I s → C s a → step s a = some s' → I s')
    (h0 : I s) (hC : Along step C s as) : Throughout step P s as := by
  rintro bs ⟨cs, rfl⟩ t ht
  exact hP (run_preserves_along hstep h0 hC.append_left ht)

/-- **Exact condition.** If the invariant implies `P` and is kept by every step that meets `C`,
and a step from the invariant that reaches `P` meets `C`, then `P` holds all along a run exactly
when all its steps meet `C`. -/
theorem throughout_iff_along {P : σ → Prop} (hP : ∀ {s}, I s → P s)
    (hstep : ∀ {s a s'}, I s → C s a → step s a = some s' → I s')
    (hback : ∀ {s a s'}, I s → step s a = some s' → P s' → C s a)
    (h0 : I s) (hrun : run step s as = some s') :
    Throughout step P s as ↔ Along step C s as := by
  refine ⟨?_, ?_⟩
  · intro hall
    induction as generalizing s with
    | nil => trivial
    | cons a as ih =>
      obtain ⟨t, ht, hrest⟩ := run_cons_eq_some.mp hrun
      have hone : run step s [a] = some t := run_cons_eq_some.mpr ⟨t, ht, rfl⟩
      have hc : C s a := hback h0 ht (hall [a] (List.prefix_append [a] as) t hone)
      refine along_cons.mpr ⟨hc, fun u hu => ?_⟩
      obtain rfl : t = u := Option.some.inj (ht.symm.trans hu)
      refine ih (hstep h0 hc ht) hrest fun bs hbs v hv => ?_
      exact hall (a :: bs) (List.prefix_cons_inj a |>.mpr hbs) v
        (run_cons_eq_some.mpr ⟨t, ht, hv⟩)
  · exact throughout_of_along hP hstep h0

/-- Any two states of the run, one before the other, are related by `R`. -/
def Between (step : σ → α → Option σ) (R : σ → σ → Prop) (s : σ) (as : List α) : Prop :=
  ∀ bs cs, bs ++ cs <+: as → ∀ t u, run step s bs = some t → run step t cs = some u → R t u

/-- **Exact condition for a relation.** If under the invariant a step relates its two states
exactly when it meets `C`, then a preorder `R` relates any two states of a run exactly when all
its steps meet `C`. -/
theorem between_iff_along {R : σ → σ → Prop} (hrefl : ∀ s, R s s)
    (htrans : ∀ {s t u}, R s t → R t u → R s u)
    (hstep : ∀ {s a s'}, I s → step s a = some s' → I s' ∧ (R s s' ↔ C s a))
    (h0 : I s) (hrun : run step s as = some s') :
    Between step R s as ↔ Along step C s as := by
  refine ⟨?_, ?_⟩
  · intro hall
    induction as generalizing s with
    | nil => trivial
    | cons a as ih =>
      obtain ⟨t, ht, hrest⟩ := run_cons_eq_some.mp hrun
      have hone : run step s [a] = some t := run_cons_eq_some.mpr ⟨t, ht, rfl⟩
      have hrel : R s t := hall [] [a] (List.prefix_append [a] as) s t rfl hone
      refine along_cons.mpr ⟨(hstep h0 ht).2.mp hrel, fun u hu => ?_⟩
      obtain rfl : t = u := Option.some.inj (ht.symm.trans hu)
      refine ih (hstep h0 ht).1 hrest fun bs cs hbs v w hv hw => ?_
      exact hall (a :: bs) cs ((List.prefix_cons_inj a).mpr hbs) v w
        (run_cons_eq_some.mpr ⟨t, ht, hv⟩) hw
  · rintro hC bs cs ⟨ds, rfl⟩ t u ht hu
    have hI : I t := run_preserves (fun h hs => (hstep h hs).1) h0 ht
    have hcs : Along step C t cs := Along.append_right hC.append_left ht
    clear hC ht hrun
    induction cs generalizing t with
    | nil => exact Option.some.inj hu ▸ hrefl t
    | cons a cs ih =>
      obtain ⟨v, hv, hrest⟩ := run_cons_eq_some.mp hu
      obtain ⟨hc, hnext⟩ := along_cons.mp hcs
      exact htrans ((hstep hI hv).2.mpr hc) (ih v hrest (hstep hI hv).1 (hnext v hv))

end Machine

end Eyenet
