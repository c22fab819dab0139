import Eyenet.DocumentTier
import Mathlib.Data.List.Induction

/-!
# The order of findings

The worker that looks for personal data reports its findings in an order of its own.
`map_findings` (`classifier/presidio/_mapping.py`) keeps one for each span and type and sorts the
matches by their start and type, where a tie leaves them in the order of the worker.

* `Unbeaten` — what a survivor is, whatever the order.
* `mapFindings_duplicate` — a finding that comes again changes nothing.
* `reproducible_iff` — exactly when no order of the findings shows in the verdict.
-/

namespace Eyenet

/-- The finding is not dropped, and none of its span and type beats it. -/
structure Unbeaten (piiMap : PiiMap) (findings : List PiiFinding) (f : PiiFinding) : Prop where
  mem : f ∈ findings
  kept : piiMap.drops f = false
  best : ∀ g ∈ findings, piiMap.drops g = false → g.key = f.key → g.beats f = false

/-- No order of the findings, and no finding that comes twice, shows in the verdict. -/
def Reproducible (piiMap : PiiMap) (findings : List PiiFinding) : Prop :=
  (∀ findings', findings'.Perm findings →
    mapFindings findings' piiMap = mapFindings findings piiMap) ∧
  ∀ f ∈ findings, mapFindings (findings ++ [f]) piiMap = mapFindings findings piiMap

/-- No two findings that count have one start and one type, but not one end; and those that are
best for a span and type, with one score and in one language, have one text. -/
structure Unambiguous (piiMap : PiiMap) (findings : List PiiFinding) : Prop where
  spans : ∀ f ∈ findings, ∀ g ∈ findings, piiMap.drops f = false → piiMap.drops g = false →
    f.start = g.start → f.entityType = g.entityType → f.end_ = g.end_
  texts : ∀ f g, Unbeaten piiMap findings f → Unbeaten piiMap findings g → f.key = g.key →
    f.text = g.text

variable {piiMap : PiiMap} {best findings findings' : List PiiFinding} {f g : PiiFinding}

/-! ## Survivors -/

theorem PiiFinding.beats_self (f : PiiFinding) : f.beats f = false := by
  simp [beats, String.lt_irrefl]

/-- Findings of which neither beats the other have one score and one language. -/
theorem PiiFinding.tied (h : f.beats g = false) (h' : g.beats f = false) :
    f.score = g.score ∧ f.language = g.language := by
  simp only [beats, Bool.or_eq_false_iff, decide_eq_false_iff_not, not_lt, Bool.and_eq_false_iff,
    beq_eq_false_iff_ne, String.not_lt] at h h'
  have hscore : f.score = g.score := le_antisymm h.1 h'.1
  have hle := h.2.resolve_left (not_not.mpr hscore)
  have hle' := h'.2.resolve_left (not_not.mpr hscore.symm)
  exact ⟨hscore, String.le_antisymm hle' hle⟩

/-- A finding beats whatever the one that it beats beats. -/
theorem PiiFinding.beats_trans {x : PiiFinding} (h : f.beats g = true) (h' : g.beats x = true) :
    f.beats x = true := by
  simp only [beats, Bool.or_eq_true, decide_eq_true_eq, Bool.and_eq_true, beq_iff_eq] at h h' ⊢
  rcases h with h | ⟨h, hl⟩
  · rcases h' with h' | ⟨h', -⟩
    · exact Or.inl (h'.trans h)
    · exact Or.inl (h' ▸ h)
  · rcases h' with h' | ⟨h', hl'⟩
    · exact Or.inl (h ▸ h')
    · exact Or.inr ⟨h.trans h', String.lt_trans hl hl'⟩

theorem dedupAndGate_append_singleton : dedupAndGate (findings ++ [g]) piiMap =
    if piiMap.drops g then dedupAndGate findings piiMap
    else keepBest (dedupAndGate findings piiMap) g := by
  rw [dedupAndGate, List.foldl_append]
  rfl

/-- One finding more. -/
theorem Unbeaten.append_singleton (h : Unbeaten piiMap findings f)
    (hg : piiMap.drops g = false → g.key = f.key → g.beats f = false) :
    Unbeaten piiMap (findings ++ [g]) f where
  mem := List.mem_append_left _ h.mem
  kept := h.kept
  best x hx hkept hkey := by
    rcases List.mem_append.mp hx with hx | hx
    · exact h.best x hx hkept hkey
    · obtain rfl := List.mem_singleton.mp hx
      exact hg hkept hkey

/-- A survivor is one of the findings, and none beats it. By induction on the findings, the last
one last. -/
theorem unbeaten_of_mem (h : f ∈ dedupAndGate findings piiMap) : Unbeaten piiMap findings f := by
  induction findings using List.reverseRec generalizing f with
  | nil => exact absurd h List.not_mem_nil
  | append_singleton findings g ih =>
    rw [dedupAndGate_append_singleton] at h
    split_ifs at h with hdrop
    · refine (ih h).append_singleton fun hkept _ => ?_
      rw [hdrop] at hkept
      cases hkept
    · have hkept : piiMap.drops g = false := Bool.eq_false_iff.mpr hdrop
      -- the last finding is unbeaten if no earlier one of its key beats it
      have hlast (hbest : ∀ x ∈ findings, piiMap.drops x = false → x.key = g.key →
          x.beats g = false) : Unbeaten piiMap (findings ++ [g]) g := by
        refine ⟨List.mem_append_right _ (List.mem_singleton_self g), hkept, fun x hx hx' hkey => ?_⟩
        rcases List.mem_append.mp hx with hx | hx
        · exact hbest x hx hx' hkey
        · rw [List.mem_singleton.mp hx]
          exact g.beats_self
      rw [keepBest] at h
      split_ifs at h with hin
      · obtain ⟨current, hcurrent, rfl⟩ := List.mem_map.mp h
        have hbest := (ih hcurrent).best
        split_ifs with hbeats
        · refine hlast fun x hx hx' hkey => ?_
          by_contra hbeat
          have hcontra := PiiFinding.beats_trans (Bool.not_eq_false _ ▸ hbeat) hbeats.2
          rw [hbest x hx hx' (hkey.trans hbeats.1.symm)] at hcontra
          cases hcontra
        · refine (ih hcurrent).append_singleton fun _ hkey => ?_
          exact Bool.eq_false_iff.mpr fun hbeat => hbeats ⟨hkey.symm, hbeat⟩
      · rcases List.mem_append.mp h with h | h
        · refine (ih h).append_singleton fun _ hkey => ?_
          exact absurd (List.mem_map.mpr ⟨f, h, hkey.symm⟩) hin
        · obtain rfl := List.mem_singleton.mp h
          refine hlast fun x hx hx' hkey => ?_
          exact absurd (mem_keys_dedupAndGate.mpr ⟨x, hx, hx', hkey⟩) hin

/-- Who is unbeaten does not depend on the order. -/
theorem Unbeaten.perm (h : Unbeaten piiMap findings f) (hperm : findings'.Perm findings) :
    Unbeaten piiMap findings' f where
  mem := hperm.mem_iff.mpr h.mem
  kept := h.kept
  best g hg := h.best g (hperm.mem_iff.mp hg)

/-- A finding that comes again beats no survivor. -/
theorem dedupAndGate_duplicate (h : f ∈ findings) :
    dedupAndGate (findings ++ [f]) piiMap = dedupAndGate findings piiMap := by
  rw [dedupAndGate_append_singleton]
  split_ifs with hdrop
  · rfl
  · have hkept : piiMap.drops f = false := Bool.eq_false_iff.mpr hdrop
    rw [keepBest, if_pos (mem_keys_dedupAndGate.mpr ⟨f, h, hkept, rfl⟩)]
    refine (List.map_congr_left fun current hcurrent => if_neg ?_).trans (List.map_id _)
    rintro ⟨hkey, hbeats⟩
    rw [(unbeaten_of_mem hcurrent).best f h hkept hkey.symm] at hbeats
    cases hbeats

/-- **A duplicate** changes nothing. -/
theorem mapFindings_duplicate (h : f ∈ findings) :
    mapFindings (findings ++ [f]) piiMap = mapFindings findings piiMap := by
  rw [mapFindings, dedupAndGate_duplicate h]
  rfl

/-! ## The order of the matches -/

/-- The highest of some tiers does not depend on their order. -/
theorem maxTier_perm {tiers tiers' : List SensitivityTier} (h : tiers.Perm tiers') :
    maxTier tiers = maxTier tiers' := by
  refine le_antisymm (maxTier_mono fun x hx => ?_) (maxTier_mono fun x hx => ?_)
  · exact ⟨x, h.mem_iff.mp hx, le_refl x⟩
  · exact ⟨x, h.mem_iff.mpr hx, le_refl x⟩

section Order

variable {a b c : PresidioMatch}

theorem PresidioMatch.le_iff : a.le b = true ↔
    a.start < b.start ∨ a.start = b.start ∧ a.entityType ≤ b.entityType := by
  simp [PresidioMatch.le]

instance : Std.Total fun a b : PresidioMatch => a.le b = true where
  total a b := by
    rw [PresidioMatch.le_iff, PresidioMatch.le_iff]
    rcases lt_trichotomy a.start b.start with hlt | heq | hgt
    · exact Or.inl (Or.inl hlt)
    · rcases String.le_total a.entityType b.entityType with hle | hle
      · exact Or.inl (Or.inr ⟨heq, hle⟩)
      · exact Or.inr (Or.inr ⟨heq.symm, hle⟩)
    · exact Or.inr (Or.inl hgt)

instance : IsTrans PresidioMatch fun a b => a.le b = true where
  trans a b c hab hbc := by
    rw [PresidioMatch.le_iff] at *
    rcases hab with hlt | ⟨heq, hle⟩
    · rcases hbc with hlt' | ⟨heq', -⟩
      · exact Or.inl (hlt.trans hlt')
      · exact Or.inl (heq' ▸ hlt)
    · rcases hbc with hlt' | ⟨heq', hle'⟩
      · exact Or.inl (heq ▸ hlt')
      · exact Or.inr ⟨heq.trans heq', String.le_trans hle hle'⟩

/-- Matches that the order does not part have one start and one type. -/
theorem PresidioMatch.le_antisymm (h : a.le b = true) (h' : b.le a = true) :
    a.start = b.start ∧ a.entityType = b.entityType := by
  rw [le_iff] at h h'
  rcases h with h | ⟨heq, hle⟩
  · rcases h' with h' | ⟨heq', -⟩
    · exact absurd h h'.asymm
    · exact absurd heq' h.ne'
  · rcases h' with h' | ⟨-, hle'⟩
    · exact absurd heq h'.ne'
    · exact ⟨heq, String.le_antisymm hle hle'⟩

end Order

/-! ## Reproducible verdicts -/

section Unambiguous

variable (h : Unambiguous piiMap findings)

include h

theorem Unambiguous.eq_of_key (hf : Unbeaten piiMap findings f) (hg : Unbeaten piiMap findings g)
    (hkey : f.key = g.key) : f = g := by
  obtain ⟨hscore, hlanguage⟩ := PiiFinding.tied (hg.best f hf.mem hf.kept hkey)
    (hf.best g hg.mem hg.kept hkey.symm)
  have htext := h.texts f g hf hg hkey
  simp only [PiiFinding.key, Prod.mk.injEq] at hkey
  cases f
  cases g
  simp_all

/-- The survivors are the same, in one order or another. -/
theorem Unambiguous.survivors_perm (hperm : findings'.Perm findings) :
    (dedupAndGate findings' piiMap).Perm (dedupAndGate findings piiMap) := by
  have hsub {xs ys : List PiiFinding} (hxs : xs.Perm findings) (hys : ys.Perm findings) :
      dedupAndGate xs piiMap ⊆ dedupAndGate ys piiMap := by
    intro f hf
    have hbest := (unbeaten_of_mem hf).perm hxs.symm
    have hkey := mem_keys_dedupAndGate.mpr ⟨f, hys.mem_iff.mpr hbest.mem, hbest.kept, rfl⟩
    obtain ⟨g, hg, hkey⟩ := List.mem_map.mp hkey
    rw [h.eq_of_key hbest ((unbeaten_of_mem hg).perm hys.symm) hkey.symm]
    exact hg
  refine (List.perm_ext_iff_of_nodup nodup_keys_dedupAndGate.of_map
    nodup_keys_dedupAndGate.of_map).mpr fun f => ⟨fun hf => ?_, fun hf => ?_⟩
  · exact hsub hperm (List.Perm.refl _) hf
  · exact hsub (List.Perm.refl _) hperm hf

/-- Survivors of one start and type are one. -/
theorem Unambiguous.eq_of_match (hf : f ∈ dedupAndGate findings piiMap)
    (hg : g ∈ dedupAndGate findings piiMap) (hstart : f.start = g.start)
    (htype : f.entityType = g.entityType) : f = g := by
  have hf' := unbeaten_of_mem hf
  have hg' := unbeaten_of_mem hg
  have hend := h.spans f hf'.mem g hg'.mem hf'.kept hg'.kept hstart htype
  refine h.eq_of_key hf' hg' ?_
  rw [PiiFinding.key, PiiFinding.key, hstart, hend, htype]

/-- Where nothing is ambiguous, the order does not show. -/
theorem Unambiguous.mapFindings_perm (hperm : findings'.Perm findings) :
    mapFindings findings' piiMap = mapFindings findings piiMap := by
  have hsurvivors := h.survivors_perm hperm
  have hfloors := hsurvivors.map fun f => piiMap.typeFloor f.entityType
  have hmatches : ((dedupAndGate findings' piiMap).map (·.toMatch piiMap)).insertionSort
        (fun a b => a.le b) =
      ((dedupAndGate findings piiMap).map (·.toMatch piiMap)).insertionSort fun a b => a.le b := by
    refine List.Perm.eq_of_pairwise ?_ (List.pairwise_insertionSort _ _)
      (List.pairwise_insertionSort _ _) ((List.perm_insertionSort _ _).trans
        ((hsurvivors.map _).trans (List.perm_insertionSort _ _).symm))
    intro a b ha hb hab hba
    rw [List.mem_insertionSort] at ha hb
    obtain ⟨f, hf, rfl⟩ := List.mem_map.mp ha
    obtain ⟨g, hg, rfl⟩ := List.mem_map.mp hb
    obtain ⟨hstart, htype⟩ := PresidioMatch.le_antisymm hab hba
    rw [h.eq_of_match (hsurvivors.mem_iff.mp hf) hg hstart htype]
  simp only [mapFindings, hmatches, hfloors.countP_eq, maxTier_perm (hfloors.append_right _)]

end Unambiguous

section Order

variable {x y : PiiFinding} {rest : List PiiFinding}

/-- Survivors that no further finding beats stay in front. -/
theorem prefix_foldl (hfront : best <+: findings')
    (hbest : ∀ f ∈ best, ∀ g ∈ findings, piiMap.drops g = false → g.key = f.key →
      g.beats f = false) :
    best <+: findings.foldl (fun best f => if piiMap.drops f then best else keepBest best f)
      findings' := by
  induction findings generalizing findings' with
  | nil => exact hfront
  | cons g gs ih =>
    rw [List.foldl_cons]
    refine ih ?_ fun f hf x hx => hbest f hf x (List.mem_cons_of_mem _ hx)
    split_ifs with hdrop
    · exact hfront
    · have hsame : best.map (fun current =>
          if current.key = g.key ∧ g.beats current then g else current) = best := by
        refine (List.map_congr_left fun current hcurrent => if_neg ?_).trans (List.map_id _)
        rintro ⟨hkey, hbeats⟩
        rw [hbest current hcurrent g List.mem_cons_self (Bool.eq_false_iff.mpr hdrop)
          hkey.symm] at hbeats
        cases hbeats
      rw [keepBest]
      split_ifs with hin
      · rw [← hsame]
        exact hfront.map _
      · exact hfront.trans (List.prefix_append _ _)

/-- An unbeaten finding that comes first survives. -/
theorem Unbeaten.exists_front (hf : Unbeaten piiMap findings f) :
    ∃ findings', findings'.Perm findings ∧ f ∈ dedupAndGate findings' piiMap := by
  have hperm := List.perm_cons_erase hf.mem
  refine ⟨f :: findings.erase f, hperm.symm, ?_⟩
  have hfront : [f] <+: dedupAndGate (f :: findings.erase f) piiMap := by
    rw [dedupAndGate, List.foldl_cons, if_neg (Bool.eq_false_iff.mp hf.kept)]
    apply prefix_foldl (List.prefix_refl [f])
    intro x hx g hg hkept hkey
    obtain rfl := List.mem_singleton.mp hx
    exact hf.best g (List.mem_of_mem_erase hg) hkept hkey
  exact hfront.subset (List.mem_singleton_self f)

/-- Of two unbeaten findings for different keys, either may come out in front of the other. -/
theorem Unbeaten.exists_pair (hf : Unbeaten piiMap findings f) (hg : Unbeaten piiMap findings g)
    (hkey : f.key ≠ g.key) :
    ∃ findings', findings'.Perm findings ∧ [f, g] <+: dedupAndGate findings' piiMap := by
  have hne : g ≠ f := fun h => hkey (congrArg PiiFinding.key h.symm)
  have hmem : g ∈ findings.erase f := (List.mem_erase_of_ne hne).mpr hg.mem
  have hperm : findings.Perm (f :: g :: (findings.erase f).erase g) :=
    (List.perm_cons_erase hf.mem).trans ((List.perm_cons_erase hmem).cons f)
  refine ⟨_, hperm.symm, ?_⟩
  have hnew : g.key ∉ [f].map PiiFinding.key := fun h => hkey (List.mem_singleton.mp h).symm
  rw [dedupAndGate, List.foldl_cons, List.foldl_cons, if_neg (Bool.eq_false_iff.mp hf.kept),
    if_neg (Bool.eq_false_iff.mp hg.kept)]
  have htwo : keepBest (keepBest [] f) g = [f, g] := if_neg hnew
  rw [htwo]
  apply prefix_foldl (List.prefix_refl [f, g])
  intro x hx y hy hkept hxy
  have hy' := List.mem_of_mem_erase (List.mem_of_mem_erase hy)
  rcases List.mem_pair.mp hx with rfl | rfl
  · exact hf.best y hy' hkept hxy
  · exact hg.best y hy' hkept hxy

/-- The span and the type of a match are its finding's, so a verdict holds one match for each. -/
theorem nodup_matches (piiMap : PiiMap) (findings : List PiiFinding) :
    ((mapFindings findings piiMap).matches_.map
      fun m => (m.start, m.end_, m.entityType)).Nodup := by
  have hperm := (List.perm_insertionSort (fun a b : PresidioMatch => a.le b = true)
    ((dedupAndGate findings piiMap).map (·.toMatch piiMap))).map
      fun m => (m.start, m.end_, m.entityType)
  rw [List.map_map] at hperm
  exact hperm.nodup_iff.mpr nodup_keys_dedupAndGate

/-- Two matches of a list without repetition come in one order. -/
theorem pair_swap_absurd {α : Type*} {a b : α} {l : List α} (hl : l.Nodup)
    (h : List.Sublist [a, b] l) (h' : List.Sublist [b, a] l) : False := by
  induction l with
  | nil => cases h
  | cons c l ih =>
    obtain ⟨hc, hl⟩ := List.nodup_cons.mp hl
    rcases List.sublist_cons_iff.mp h with hab | ⟨r, hr, hb⟩
    · rcases List.sublist_cons_iff.mp h' with hba | ⟨r', hr', -⟩
      · exact ih hl hab hba
      · obtain ⟨rfl, -⟩ := List.cons.inj hr'
        exact hc (hab.subset (List.mem_cons_of_mem a List.mem_cons_self))
    · obtain ⟨rfl, rfl⟩ := List.cons.inj hr
      rcases List.sublist_cons_iff.mp h' with hba | ⟨r', hr', -⟩
      · exact hc (hba.subset (List.mem_cons_of_mem b List.mem_cons_self))
      · obtain ⟨rfl, -⟩ := List.cons.inj hr'
        exact hc (hb.subset List.mem_cons_self)

end Order

section Reproducible

variable (h : Reproducible piiMap findings)

include h

/-- Unbeaten findings are in the verdict that no order changes. -/
theorem Reproducible.toMatch_mem (hf : Unbeaten piiMap findings f) :
    f.toMatch piiMap ∈ (mapFindings findings piiMap).matches_ := by
  obtain ⟨findings', hperm, hmem⟩ := hf.exists_front
  rw [← h.1 findings' hperm]
  exact (List.mem_insertionSort _).mpr (List.mem_map_of_mem hmem)

/-- Two of one start and type, for different keys, would be there in both orders. -/
theorem Reproducible.pair_sublist (hf : Unbeaten piiMap findings f)
    (hg : Unbeaten piiMap findings g) (hkey : f.key ≠ g.key) (hstart : f.start = g.start)
    (htype : f.entityType = g.entityType) :
    List.Sublist [f.toMatch piiMap, g.toMatch piiMap] (mapFindings findings piiMap).matches_ := by
  obtain ⟨findings', hperm, hpair⟩ := hf.exists_pair hg hkey
  rw [← h.1 findings' hperm]
  have hle : (f.toMatch piiMap).le (g.toMatch piiMap) = true := by
    refine PresidioMatch.le_iff.mpr (Or.inr ⟨hstart, ?_⟩)
    exact (congrArg (f.entityType ≤ ·) htype).mp (String.le_refl f.entityType)
  exact List.pair_sublist_insertionSort hle (hpair.sublist.map _)

theorem Reproducible.unambiguous : Unambiguous piiMap findings where
  spans f hf g hg hf' hg' hstart htype := by
    by_contra hend
    -- the survivors for the two spans
    obtain ⟨f', hmem, hkey⟩ := List.mem_map.mp (mem_keys_dedupAndGate.mpr ⟨f, hf, hf', rfl⟩)
    obtain ⟨g', hmem', hkey'⟩ := List.mem_map.mp (mem_keys_dedupAndGate.mpr ⟨g, hg, hg', rfl⟩)
    have hf'' := unbeaten_of_mem hmem
    have hg'' := unbeaten_of_mem hmem'
    simp only [PiiFinding.key, Prod.mk.injEq] at hkey hkey'
    have hne : f'.end_ ≠ g'.end_ := by
      rw [hkey.2.1, hkey'.2.1]
      exact hend
    have hstart' : f'.start = g'.start := by rw [hkey.1, hkey'.1, hstart]
    have htype' : f'.entityType = g'.entityType := by rw [hkey.2.2, hkey'.2.2, htype]
    have hkeys : f'.key ≠ g'.key := fun h => hne (Prod.mk.inj (Prod.mk.inj h).2).1
    exact pair_swap_absurd (nodup_matches piiMap findings).of_map
      (h.pair_sublist hf'' hg'' hkeys hstart' htype')
      (h.pair_sublist hg'' hf'' hkeys.symm hstart'.symm htype'.symm)
  texts f g hf hg hkey := by
    have hsame := List.inj_on_of_nodup_map (nodup_matches piiMap findings)
      (h.toMatch_mem hf) (h.toMatch_mem hg) hkey
    exact congrArg PresidioMatch.matchedText hsame

end Reproducible

/-- **The verdict is reproducible exactly when nothing is ambiguous.** -/
theorem reproducible_iff (piiMap : PiiMap) (findings : List PiiFinding) :
    Reproducible piiMap findings ↔ Unambiguous piiMap findings := by
  refine ⟨fun h => h.unambiguous, fun h => ⟨fun _ hperm => ?_, fun _ hf => ?_⟩⟩
  · exact h.mapFindings_perm hperm
  · exact mapFindings_duplicate hf

/-- Two names that start in one place, one inside the other: the verdict has them as they came. -/
theorem nested_names_not_reproducible :
    ¬ Reproducible ⟨"v1", [], 3, 10⟩
      [⟨"PERSON", 0, 5, 1 / 2, "en", "Maria"⟩, ⟨"PERSON", 0, 12, 1 / 2, "es", "Maria Garcia"⟩] := by
  intro h
  have hswap := h.1 _ (List.Perm.swap _ _ [])
  have hfirst := congrArg (fun v => v.matches_.map (·.end_)) hswap
  revert hfirst
  decide

end Eyenet
