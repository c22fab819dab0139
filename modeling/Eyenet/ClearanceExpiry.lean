import Eyenet.Calls
import Eyenet.Clearance
import Eyenet.Machine

/-!
# Readers of the clearance grants, and the expiry sweep

Authentication asks `active_clearance_grants_for` for a user's scopes, and the grant list asks
`list_clearance_grants` with `active_only`; each has its own `WHERE`. `expire_due_clearances`
selects the grants that have expired, reads which of them have an expiry event in the audit log,
and appends an event for each of the others (`sqlmodel_repo/clearance.py`). Each query and each
append is one step of a sweep.

* `agree_iff_covered` — when the two readers agree.
* `ClearanceRun.expiry_lawful_iff` — exactly when, over every interleaving, the readers agree and
  every expiry has one event.
-/

namespace Eyenet

open Machine

/-! ## The readers -/

/-- `_grant_filters` -/
def grantFilters (userId : Option Uuid) (scope : Option ClearanceScope) (activeOnly : Bool)
    (at_ : ℤ) (g : ClearanceGrantRow) : Bool :=
  (userId.all fun u => g.userId == u) && (scope.all fun k => g.scope == k) &&
    (!activeOnly || decide (g.Active at_))

/-- The `ORDER BY` of `list_clearance_grants`: the latest grant first. -/
def listedBefore (g g' : ClearanceGrantRow) : Prop :=
  g'.grantedAt < g.grantedAt ∨ (g.grantedAt = g'.grantedAt ∧ g'.id ≤ g.id)

instance (g g' : ClearanceGrantRow) : Decidable (listedBefore g g') :=
  inferInstanceAs (Decidable (g'.grantedAt < g.grantedAt ∨ (g.grantedAt = g'.grantedAt ∧
    g'.id ≤ g.id)))

/-- `list_clearance_grants` -/
def listClearanceGrants (grants : List ClearanceGrantRow) (userId : Option Uuid)
    (scope : Option ClearanceScope) (activeOnly : Bool) (at_ : ℤ) (limit offset : ℕ) :
    List ClearanceGrantRow :=
  (((grants.filter (grantFilters userId scope activeOnly at_)).insertionSort listedBefore).drop
    offset).take limit

/-- `count_clearance_grants` -/
def countClearanceGrants (grants : List ClearanceGrantRow) (userId : Option Uuid)
    (scope : Option ClearanceScope) (activeOnly : Bool) (at_ : ℤ) : ℕ :=
  grants.countP (grantFilters userId scope activeOnly at_)

/-- `effective_clearance_scopes` -/
def effectiveClearanceScopes (grants : List ClearanceGrantRow) (userId : Uuid) (now : ℤ) :
    List ClearanceScope :=
  (activeClearanceGrantsFor grants userId now).map ClearanceGrantRow.scope

section Readers

variable {grants : List ClearanceGrantRow} {at_ : ℤ} {u : Uuid} {k : ClearanceScope}

/-- A page that is long enough has every row. -/
theorem mem_listClearanceGrants {userId : Option Uuid} {scope : Option ClearanceScope}
    {activeOnly : Bool} {limit : ℕ} {g : ClearanceGrantRow}
    (hlimit : countClearanceGrants grants userId scope activeOnly at_ ≤ limit) :
    g ∈ listClearanceGrants grants userId scope activeOnly at_ limit 0 ↔
      g ∈ grants ∧ grantFilters userId scope activeOnly at_ g := by
  rw [listClearanceGrants, List.drop_zero, List.take_of_length_le, List.mem_insertionSort,
    List.mem_filter]
  rwa [List.length_insertionSort, ← List.countP_eq_length_filter]

theorem mem_effectiveClearanceScopes :
    k ∈ effectiveClearanceScopes grants u at_ ↔
      ∃ g ∈ grants, g.userId = u ∧ g.live at_ ∧ g.scope = k := by
  simp only [effectiveClearanceScopes, List.mem_map, mem_activeClearanceGrantsFor, and_assoc]

theorem mem_listed_scopes {limit : ℕ}
    (hlimit : countClearanceGrants grants (some u) none true at_ ≤ limit) :
    k ∈ (listClearanceGrants grants (some u) none true at_ limit 0).map ClearanceGrantRow.scope ↔
      ∃ g ∈ grants, g.userId = u ∧ g.Active at_ ∧ g.scope = k := by
  simp only [List.mem_map, mem_listClearanceGrants hlimit, grantFilters, Option.all_some,
    Option.all_none, Bool.and_true, Bool.not_true, Bool.false_or, Bool.and_eq_true, beq_iff_eq,
    decide_eq_true_eq, and_assoc]

/-- The scopes that authentication computes for a user are those of the grants that are listed as
active. -/
def Agree (grants : List ClearanceGrantRow) (at_ : ℤ) : Prop :=
  ∀ u limit, countClearanceGrants grants (some u) none true at_ ≤ limit → ∀ k,
    k ∈ effectiveClearanceScopes grants u at_ ↔
      k ∈ (listClearanceGrants grants (some u) none true at_ limit 0).map ClearanceGrantRow.scope

/-- Whoever has a live grant that is dated in the future has an active one of the same scope. -/
def Covered (grants : List ClearanceGrantRow) (at_ : ℤ) : Prop :=
  ∀ g ∈ grants, g.live at_ → at_ < g.grantedAt →
    ∃ g' ∈ grants, g'.userId = g.userId ∧ g'.scope = g.scope ∧ g'.Active at_

/-- **The two readers** differ in the grants that are dated in the future, and in nothing else. -/
theorem agree_iff_covered : Agree grants at_ ↔ Covered grants at_ := by
  refine ⟨?_, ?_⟩
  · intro hagree g hg hlive _
    have hlisted := (hagree g.userId _ (le_refl _) g.scope).mp
      (mem_effectiveClearanceScopes.mpr ⟨g, hg, rfl, hlive, rfl⟩)
    obtain ⟨g', hg', huser, hactive, hscope⟩ := (mem_listed_scopes (le_refl _)).mp hlisted
    exact ⟨g', hg', huser, hscope, hactive⟩
  · intro hcovered u limit hlimit k
    rw [mem_effectiveClearanceScopes, mem_listed_scopes hlimit]
    refine ⟨?_, ?_⟩
    · rintro ⟨g, hg, rfl, hlive, rfl⟩
      rcases le_or_gt g.grantedAt at_ with hdated | hfuture
      · exact ⟨g, hg, rfl, ClearanceGrantRow.active_iff.mpr ⟨hdated, hlive⟩, rfl⟩
      · obtain ⟨g', hg', huser, hscope, hactive⟩ := hcovered g hg hlive hfuture
        exact ⟨g', hg', huser, hactive, hscope⟩
    · rintro ⟨g, hg, huser, hactive, hscope⟩
      exact ⟨g, hg, huser, (ClearanceGrantRow.active_iff.mp hactive).2, hscope⟩

end Readers

/-! ## Sweeps -/

/-- The `WHERE` of the sweep: expired and not revoked. -/
def ClearanceGrantRow.due (cutoff : ℤ) (g : ClearanceGrantRow) : Bool :=
  decide (g.expiresAt ≤ cutoff) && g.revokedAt.isNone

/-- Where a call of `expire_due_clearances` stands. `selected` are the grants that were due when
it began. -/
inductive SweepPhase where
  | began (selected : List ClearanceGrantRow)
  /-- the events of the log are read, and the grants of `rest` are still to be looked at -/
  | emitting (selected rest : List ClearanceGrantRow) (alreadyEmitted : List Uuid)
  | finished (selected : List ClearanceGrantRow)
  /-- an append failed -/
  | raised
  deriving DecidableEq

/-- The grants, the grants whose expiry the audit log has, and the sweeps. -/
structure ClearanceRun where
  clock : ℤ
  grants : List ClearanceGrantRow
  /-- the `grant_id` of every `clearance.expired` event, oldest first -/
  expired : List Uuid
  sweeps : Calls SweepPhase
  deriving DecidableEq

namespace ClearanceRun

/-- One step. Without `now` a call reads the clock. -/
inductive Step where
  | tick (d : ℕ)
  /-- `grant_clearance` -/
  | grant (id grantee granter : Uuid) (scope : ClearanceScope) (reason : String) (expiresAt : ℤ)
      (now : Option ℤ)
  /-- `revoke_clearance` -/
  | revoke (id revoker : Uuid) (reason : String) (now : Option ℤ)
  /-- `expire_due_clearances` selects what is due -/
  | expireDue (c : ℕ) (now : Option ℤ)
  /-- `_already_expired_grant_ids` -/
  | readEmitted (c : ℕ)
  /-- the sweep looks at its next grant; `ok` says whether an append goes through -/
  | emit (c : ℕ) (ok : Bool)
  deriving DecidableEq

/-- No grants at some time. -/
def init (clock : ℤ) : ClearanceRun := ⟨clock, [], [], []⟩

/-- A sweep moves on. -/
def put (s : ClearanceRun) (c : ℕ) (p : SweepPhase) : ClearanceRun :=
  { s with sweeps := s.sweeps.put c p }

/-- One step; a call that is refused, or a label that does not fit, changes nothing. -/
def step (s : ClearanceRun) : Step → Option ClearanceRun
  | .tick d => some { s with clock := s.clock + d }
  | .grant id grantee granter scope reason expiresAt now =>
    match grantClearance id grantee granter scope reason expiresAt (now.getD s.clock) with
    | .error _ => some s
    | .ok g =>
      if s.grants.any fun g' => g'.id == id then some s
      else some { s with grants := s.grants ++ [g] }
  | .revoke id revoker reason now =>
    match revokeClearance s.grants id revoker reason (now.getD s.clock) with
    | .error _ => some s
    | .ok g => some { s with grants := s.grants.map fun g' => if g'.id = id then g else g' }
  | .expireDue c now =>
    match s.sweeps.phase c with
    | none => some (s.put c (.began (s.grants.filter (·.due (now.getD s.clock)))))
    | some _ => some s
  | .readEmitted c =>
    match s.sweeps.phase c with
    | some (.began selected) => some (s.put c (.emitting selected selected s.expired))
    | _ => some s
  | .emit c ok =>
    match s.sweeps.phase c with
    | some (.emitting selected [] _) => some (s.put c (.finished selected))
    | some (.emitting selected (g :: rest) alreadyEmitted) =>
      if g.id ∈ alreadyEmitted then some (s.put c (.emitting selected rest alreadyEmitted))
      else if ok then
        some { s.put c (.emitting selected rest alreadyEmitted) with
          expired := s.expired ++ [g.id] }
      else some (s.put c .raised)
    | _ => some s

/-- No expiry has two events, and a finished sweep leaves none without. -/
structure OneEvent (s : ClearanceRun) : Prop where
  atMostOne : s.expired.Nodup
  swept : ∀ {c selected}, s.sweeps.phase c = some (.finished selected) →
    ∀ g ∈ selected, g.id ∈ s.expired

/-- The readers agree now, and every expiry has one event. -/
def Lawful (s : ClearanceRun) : Prop := Agree s.grants s.clock ∧ s.OneEvent

/-- No sweep appends an event that came into the log after it had read the log. -/
def Unrepeated (s : ClearanceRun) : Step → Prop
  | .emit c ok => ∀ selected g rest alreadyEmitted,
    s.sweeps.phase c = some (.emitting selected (g :: rest) alreadyEmitted) → ok →
      g.id ∉ alreadyEmitted → g.id ∉ s.expired
  | _ => True

/-! ## The invariant -/

/-- What a sweep has dealt with is in the log. -/
def Reached (expired : List Uuid) : SweepPhase → Prop
  | .began _ => True
  | .emitting selected rest alreadyEmitted =>
    (∀ g ∈ selected, g ∈ rest ∨ g.id ∈ expired) ∧ alreadyEmitted ⊆ expired
  | .finished selected => ∀ g ∈ selected, g.id ∈ expired
  | .raised => True

/-- The log against the sweeps. -/
structure Inv (s : ClearanceRun) : Prop where
  nodup : s.expired.Nodup
  sweeps : ∀ {c p}, s.sweeps.phase c = some p → Reached s.expired p

section Invariant

variable {s s' : ClearanceRun} {a : Step} {c : ℕ} {p : SweepPhase}

theorem inv_init (clock : ℤ) : (init clock).Inv where
  nodup := List.nodup_nil
  sweeps h := by cases h

theorem Inv.oneEvent (h : s.Inv) : s.OneEvent where
  atMostOne := h.nodup
  swept hphase := h.sweeps hphase

/-- The log only grows. -/
theorem Reached.mono {expired expired' : List Uuid} (h : Reached expired p)
    (hsub : expired ⊆ expired') : Reached expired' p := by
  cases p with
  | began | raised => trivial
  | emitting selected rest alreadyEmitted =>
    exact ⟨fun g hg => (h.1 g hg).imp_right fun hin => hsub hin, List.Subset.trans h.2 hsub⟩
  | finished selected => exact fun g hg => hsub (h g hg)

theorem Inv.put (h : s.Inv) (hp : Reached s.expired p) : (s.put c p).Inv where
  nodup := h.nodup
  sweeps := by
    intro c' p' hphase
    rw [ClearanceRun.put, Calls.phase_put] at hphase
    split at hphase
    · cases hphase
      exact hp
    · exact h.sweeps hphase

/-- The grant at hand is dealt with. -/
theorem Reached.next {expired alreadyEmitted : List Uuid} {selected rest : List ClearanceGrantRow}
    {g : ClearanceGrantRow} (h : Reached expired (.emitting selected (g :: rest) alreadyEmitted))
    (hg : g.id ∈ expired) : Reached expired (.emitting selected rest alreadyEmitted) := by
  refine ⟨fun x hx => ?_, h.2⟩
  rcases h.1 x hx with hmem | hin
  · rcases List.mem_cons.mp hmem with rfl | hrest
    · exact Or.inr hg
    · exact Or.inl hrest
  · exact Or.inr hin

/-- An event that the log does not have yet. -/
theorem Inv.emit {id : Uuid} (h : s.Inv) (hfresh : id ∉ s.expired)
    (hp : Reached (s.expired ++ [id]) p) :
    Inv { s.put c p with expired := s.expired ++ [id] } where
  nodup := h.nodup.append (List.nodup_singleton id) (List.disjoint_singleton.mpr hfresh)
  sweeps := by
    intro c' p' hphase
    rw [ClearanceRun.put, Calls.phase_put] at hphase
    split at hphase
    · cases hphase
      exact hp
    · exact (h.sweeps hphase).mono (List.subset_append_left _ _)

/-- **Step lemma.** A step that repeats no event keeps the invariant. -/
theorem Inv.step (h : s.Inv) (hunrepeated : Unrepeated s a) (hstep : s.step a = some s') :
    s'.Inv := by
  cases a with
  | tick d =>
    cases hstep
    exact ⟨h.nodup, h.sweeps⟩
  | grant id grantee granter scope reason expiresAt now =>
    simp only [ClearanceRun.step] at hstep
    split at hstep
    · cases hstep
      exact h
    · split at hstep <;> cases hstep <;> exact ⟨h.nodup, h.sweeps⟩
  | revoke id revoker reason now =>
    simp only [ClearanceRun.step] at hstep
    split at hstep <;> cases hstep <;> exact ⟨h.nodup, h.sweeps⟩
  | expireDue c now =>
    simp only [ClearanceRun.step] at hstep
    split at hstep <;> cases hstep
    · exact h.put trivial
    · exact h
  | readEmitted c =>
    simp only [ClearanceRun.step] at hstep
    split at hstep <;> cases hstep
    · exact h.put ⟨fun g hg => Or.inl hg, List.Subset.refl _⟩
    · exact h
  | emit c ok =>
    simp only [ClearanceRun.step] at hstep
    split at hstep
    · next hphase =>
      cases hstep
      -- nothing is left to look at
      refine h.put fun g hg => ?_
      exact ((h.sweeps hphase).1 g hg).resolve_left List.not_mem_nil
    · next selected g rest alreadyEmitted hphase =>
      have hreached := h.sweeps hphase
      split at hstep
      · next halready =>
        cases hstep
        exact h.put (hreached.next (hreached.2 halready))
      split at hstep <;> cases hstep
      · next hnew hok =>
        have hgrown := hreached.mono (List.subset_append_left s.expired [g.id])
        exact h.emit (hunrepeated _ _ _ _ hphase hok hnew)
          (hgrown.next (List.mem_append_right _ (List.mem_singleton_self _)))
      · exact h.put trivial
    · cases hstep
      exact h

/-- A repeated event is there twice. -/
theorem unrepeated_of_oneEvent (hstep : s.step a = some s') (h : s'.OneEvent) :
    Unrepeated s a := by
  cases a with
  | emit c ok =>
    intro selected g rest alreadyEmitted hphase hok hnew hin
    simp only [step, hphase, if_neg hnew, hok, if_true] at hstep
    cases hstep
    have hdisjoint := (List.nodup_append'.mp h.atMostOne).2.2
    exact List.disjoint_singleton.mp hdisjoint hin
  | _ => exact trivial

theorem exists_step (s : ClearanceRun) (a : Step) : ∃ s', s.step a = some s' := by
  cases a <;> simp only [step] <;> repeat' first | exact ⟨_, rfl⟩ | split

end Invariant

end ClearanceRun

end Eyenet
