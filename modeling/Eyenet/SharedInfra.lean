import Eyenet.Dict
import Eyenet.EventLog
import Mathlib.Algebra.Order.Floor.Ring
import Mathlib.Algebra.Order.BigOperators.Ring.Finset
import Mathlib.Analysis.SpecialFunctions.Log.Basic
import Mathlib.Data.Finset.Sort
import Mathlib.Data.String.Basic

/-!
# Shared infrastructure

`propose_infra_edges` (`linker/infra_linker.py`) links the actors that share contact handles, links
and wallets. It finds the pairs through an inverted index of the indicators, of which those that too
many actors carry are left out, and scores a pair by the weighted Jaccard index of its indicators.

* `ActorIndicators.mem_candidates` — the pairs that the index finds.
* `ActorIndicators.bruteForceEdges` — one pass over all pairs.
* `proposeInfraEdges_perm` — the index finds what the pass finds, with scores to four places.
-/

namespace Eyenet

/-- `Mapping[UUID, set[str]]`, by its items. -/
structure ActorIndicators where
  items : List (Uuid × List String)
  nodup : (items.map Prod.fst).Nodup
  sets : ∀ p ∈ items, p.2.Nodup

/-- `InfraEdge` -/
structure InfraEdge (K : Type*) where
  actorA : Uuid
  actorB : Uuid
  score : K
  shared : List String

/-- `combinations(l, 2)` -/
def combinations2 {α : Type*} : List α → List (α × α)
  | [] => []
  | a :: l => l.map (fun b => (a, b)) ++ combinations2 l

section Code

variable {K : Type*} [Field K] [LinearOrder K] [IsStrictOrderedRing K] [FloorRing K]

section Round

local instance atLeastTwo_two : Nat.AtLeastTwo 2 := ⟨le_rfl⟩

/-- `round(x, 4)`: the nearest, and the even one where two are as near. -/
def roundScore (x : K) : K :=
  let y := x * 10000
  let n := ⌊y⌋
  let nearest := if y - n < 1 / 2 then n else if 1 / 2 < y - n then n + 1
    else if n % 2 = 0 then n else n + 1
  nearest / 10000

end Round

namespace ActorIndicators

variable (m : ActorIndicators) (maxDf : ℤ) (idf : ℕ → ℕ → K) (weightFloor : K)

/-- `actor_indicators[a]` -/
def indicators (a : Uuid) : List String := (m.items.lookup a).getD []

/-- `postings` -/
def postings : List (String × List Uuid) :=
  Dict.collect Prod.fst Prod.snd (m.items.flatMap fun p => p.2.map fun ind => (ind, p.1))

/-- `df` -/
def df : List (String × ℕ) := m.postings.map fun p => (p.1, p.2.length)

/-- `linkable` -/
def linkable : List String := (m.df.filter fun p => 2 ≤ p.2 ∧ (p.2 : ℤ) ≤ maxDf).map Prod.fst

/-- `idf[ind]` -/
def weight (ind : String) : K := idf ((m.df.lookup ind).getD 0) m.items.length

/-- `candidates` -/
def candidates : List (Uuid × Uuid) :=
  ((m.linkable maxDf).flatMap fun ind =>
    combinations2 (((m.postings.lookup ind).getD []).insertionSort (· ≤ ·))).dedup

/-- The edge of a candidate pair, if it has one. -/
def edge? (a b : Uuid) : Option (InfraEdge K) :=
  let ia := (m.indicators a).filter (· ∈ m.linkable maxDf)
  let ib := (m.indicators b).filter (· ∈ m.linkable maxDf)
  let shared := ia.filter (· ∈ ib)
  let union := ia ++ ib.filter (· ∉ ia)
  let num := (shared.map (m.weight idf)).sum
  let den := (union.map (m.weight idf)).sum
  let score := if 0 < den then roundScore (num / den) else 0
  if shared = [] then none
  else if weightFloor ≤ score then some ⟨a, b, score, shared.insertionSort (· ≤ ·)⟩
  else none

/-- `propose_infra_edges` -/
def proposeInfraEdges : List (InfraEdge K) :=
  if m.items.length < 2 then []
  else ((m.candidates maxDf).filterMap fun p => m.edge? maxDf idf weightFloor p.1 p.2).insertionSort
    fun e e' => e'.score ≤ e.score

end ActorIndicators

end Code

/-- `_idf` -/
noncomputable def idf (df n : ℕ) : ℝ := Real.log ((n + 1) / (df + 1)) + 1

/-! ## One pass over all pairs -/

namespace ActorIndicators

variable (m : ActorIndicators) (maxDf : ℤ)

def actors : List Uuid := m.items.map Prod.fst

/-- How many actors carry an indicator. -/
def frequency (ind : String) : ℕ := m.items.countP fun p => ind ∈ p.2

/-- More than one actor carries the indicator, and not too many. -/
def Linkable (ind : String) : Prop := 2 ≤ m.frequency ind ∧ (m.frequency ind : ℤ) ≤ maxDf

instance : DecidablePred (m.Linkable maxDf) := fun ind =>
  inferInstanceAs (Decidable (2 ≤ m.frequency ind ∧ (m.frequency ind : ℤ) ≤ maxDf))

/-- The linkable indicators of both. -/
def sharedBy (a b : Uuid) : Finset String :=
  ((m.indicators a).toFinset ∩ (m.indicators b).toFinset).filter (m.Linkable maxDf)

/-- The linkable indicators of either. -/
def eitherOf (a b : Uuid) : Finset String :=
  ((m.indicators a).toFinset ∪ (m.indicators b).toFinset).filter (m.Linkable maxDf)

variable {K : Type*} [Field K] [LinearOrder K]

/-- The weighted Jaccard index of two actors. -/
def jaccard (idf : ℕ → ℕ → K) (a b : Uuid) : K :=
  (∑ ind ∈ m.sharedBy maxDf a b, idf (m.frequency ind) m.items.length) /
    ∑ ind ∈ m.eitherOf maxDf a b, idf (m.frequency ind) m.items.length

/-- All pairs of actors that share a linkable indicator and whose index, read with a number of
places, reaches the floor. -/
def bruteForceEdges (idf : ℕ → ℕ → K) (weightFloor : K) (places : K → K) : List (InfraEdge K) :=
  (combinations2 (m.actors.insertionSort (· ≤ ·))).filterMap fun p =>
    if (m.sharedBy maxDf p.1 p.2).Nonempty ∧ weightFloor ≤ places (m.jaccard maxDf idf p.1 p.2) then
      some ⟨p.1, p.2, places (m.jaccard maxDf idf p.1 p.2), (m.sharedBy maxDf p.1 p.2).sort⟩
    else none

end ActorIndicators

/-! ## The index -/

theorem mem_combinations2 {α : Type*} [LinearOrder α] {a b : α} {l : List α}
    (h : l.Pairwise (· < ·)) : (a, b) ∈ combinations2 l ↔ a ∈ l ∧ b ∈ l ∧ a < b := by
  induction l with
  | nil => simp [combinations2]
  | cons c l ih =>
    obtain ⟨hc, hl⟩ := List.pairwise_cons.mp h
    rw [combinations2, List.mem_append, List.mem_map, ih hl]
    simp only [Prod.mk.injEq, List.mem_cons]
    refine ⟨?_, ?_⟩
    · rintro (⟨x, hx, rfl, rfl⟩ | ⟨ha, hb, hab⟩)
      · exact ⟨Or.inl rfl, Or.inr hx, hc x hx⟩
      · exact ⟨Or.inr ha, Or.inr hb, hab⟩
    · rintro ⟨rfl | ha, rfl | hb, hab⟩
      · exact absurd hab (lt_irrefl _)
      · exact Or.inl ⟨b, hb, rfl, rfl⟩
      · exact absurd hab (hc a ha).asymm
      · exact Or.inr ⟨ha, hb, hab⟩

theorem fst_mem_combinations2 {α : Type*} {p : α × α} {l : List α} (h : p ∈ combinations2 l) :
    p.1 ∈ l := by
  induction l with
  | nil => cases h
  | cons c l ih =>
    rcases List.mem_append.mp h with h | h
    · obtain ⟨b, -, rfl⟩ := List.mem_map.mp h
      exact List.mem_cons_self
    · exact List.mem_cons_of_mem c (ih h)

theorem nodup_combinations2 {α : Type*} {l : List α} (h : l.Nodup) : (combinations2 l).Nodup := by
  induction l with
  | nil => exact List.nodup_nil
  | cons c l ih =>
    obtain ⟨hc, hl⟩ := List.nodup_cons.mp h
    refine List.nodup_append.mpr ⟨hl.map fun b b' hb => (Prod.mk.inj hb).2, ih hl, ?_⟩
    rintro p hp p' hp' rfl
    obtain ⟨b, -, rfl⟩ := List.mem_map.mp hp
    exact hc (fst_mem_combinations2 hp')

/-- A sorted list without repetition is strictly sorted. -/
theorem pairwise_lt_sorted {α : Type*} [LinearOrder α] {l : List α} (h : l.Nodup) :
    (l.insertionSort (· ≤ ·)).Pairwise (· < ·) := by
  have hnodup : (l.insertionSort (· ≤ ·)).Nodup :=
    (List.perm_insertionSort (· ≤ ·) l).nodup_iff.mpr h
  exact (List.pairwise_insertionSort (· ≤ ·) l).imp₂ (fun _ _ => lt_of_le_of_ne) hnodup

namespace ActorIndicators

variable {m : ActorIndicators} {maxDf : ℤ} {a b : Uuid} {ind : String}

theorem mem_indicators : ind ∈ m.indicators a ↔ ∃ p ∈ m.items, p.1 = a ∧ ind ∈ p.2 := by
  rw [indicators]
  refine ⟨?_, ?_⟩
  · intro h
    cases hlookup : m.items.lookup a with
    | none =>
      rw [hlookup] at h
      cases h
    | some inds =>
      rw [hlookup] at h
      exact ⟨(a, inds), (Dict.mem_iff_lookup m.nodup).mpr hlookup, rfl, h⟩
  · rintro ⟨⟨a, inds⟩, hp, rfl, hind⟩
    rw [(Dict.mem_iff_lookup m.nodup).mp hp]
    exact hind

theorem nodup_indicators (m : ActorIndicators) (a : Uuid) : (m.indicators a).Nodup := by
  rw [indicators]
  cases hlookup : m.items.lookup a with
  | none => exact List.nodup_nil
  | some inds => exact m.sets _ ((Dict.mem_iff_lookup m.nodup).mpr hlookup)

/-- **The postings** of an indicator are the actors that carry it. -/
theorem lookup_postings (m : ActorIndicators) (ind : String) :
    (m.postings.lookup ind).getD [] = (m.items.filter fun p => ind ∈ p.2).map Prod.fst := by
  rw [postings, Dict.lookup_collect]
  have hsets := m.sets
  generalize m.items = items at hsets
  induction items with
  | nil => rfl
  | cons p items ih =>
    have ih := ih fun q hq => hsets q (List.mem_cons_of_mem p hq)
    rw [List.flatMap_cons, List.filter_append, List.map_append, ih, List.filter_map, List.map_map]
    have hone : p.2.filter (· = ind) = if ind ∈ p.2 then [ind] else [] := by
      rw [List.filter_eq, (hsets p List.mem_cons_self).count]
      split_ifs <;> rfl
    change (p.2.filter (· = ind)).map (fun _ => p.1) ++ _ = _
    rw [hone, List.filter_cons]
    by_cases hin : ind ∈ p.2 <;> simp [hin]

theorem mem_lookup_postings :
    a ∈ (m.postings.lookup ind).getD [] ↔ ind ∈ m.indicators a := by
  rw [lookup_postings, mem_indicators, List.mem_map]
  simp only [List.mem_filter, decide_eq_true_eq]
  refine ⟨?_, ?_⟩
  · rintro ⟨p, ⟨hp, hind⟩, rfl⟩
    exact ⟨p, hp, rfl, hind⟩
  · rintro ⟨p, hp, rfl, hind⟩
    exact ⟨p, ⟨hp, hind⟩, rfl⟩

/-- The document frequency. -/
theorem lookup_df (m : ActorIndicators) (ind : String) :
    (m.df.lookup ind).getD 0 = m.frequency ind := by
  have hlength := congrArg List.length (lookup_postings m ind)
  rw [List.length_map, ← List.countP_eq_length_filter] at hlength
  rw [frequency, ← hlength, df]
  generalize m.postings = postings
  induction postings with
  | nil => rfl
  | cons p postings ih =>
    rw [List.map_cons, List.lookup_cons, List.lookup_cons]
    cases ind == p.1 with
    | true => rfl
    | false => exact ih

theorem mem_linkable : ind ∈ m.linkable maxDf ↔ m.Linkable maxDf ind := by
  have hkeys : (m.df.map Prod.fst).Nodup := by
    rw [df, List.map_map]
    exact Dict.nodup_keys_collect _ _ _
  rw [linkable, Linkable, ← lookup_df]
  simp only [List.mem_map, List.mem_filter, decide_eq_true_eq]
  refine ⟨?_, ?_⟩
  · rintro ⟨⟨ind, n⟩, ⟨hp, hn⟩, rfl⟩
    rw [(Dict.mem_iff_lookup hkeys).mp hp]
    exact hn
  · intro hn
    cases hlookup : m.df.lookup ind with
    | none =>
      rw [hlookup] at hn
      exact absurd hn.1 (by decide)
    | some n =>
      rw [hlookup] at hn
      exact ⟨(ind, n), ⟨(Dict.mem_iff_lookup hkeys).mpr hlookup, hn⟩, rfl⟩

/-- **The candidates** are the pairs with a linkable indicator in common. -/
theorem mem_candidates : (a, b) ∈ m.candidates maxDf ↔ a < b ∧ (m.sharedBy maxDf a b).Nonempty := by
  have hnodup (ind : String) : ((m.postings.lookup ind).getD []).Nodup := by
    rw [lookup_postings]
    exact (List.filter_sublist.map Prod.fst).nodup m.nodup
  rw [candidates, List.mem_dedup, List.mem_flatMap]
  simp only [mem_combinations2 (pairwise_lt_sorted (hnodup _)), List.mem_insertionSort,
    mem_lookup_postings, mem_linkable, Finset.Nonempty, sharedBy, Finset.mem_filter,
    Finset.mem_inter, List.mem_toFinset]
  grind

/-! ## The edges -/

variable {K : Type*} [Field K] [LinearOrder K] [IsStrictOrderedRing K] [FloorRing K]
  {idf : ℕ → ℕ → K} {weightFloor : K}

omit [Field K] [LinearOrder K] [IsStrictOrderedRing K] [FloorRing K] in
theorem weight_eq (m : ActorIndicators) (idf : ℕ → ℕ → K) (ind : String) :
    m.weight idf ind = idf (m.frequency ind) m.items.length := by
  rw [weight, lookup_df]

theorem toFinset_shared (m : ActorIndicators) (maxDf : ℤ) (a b : Uuid) :
    (((m.indicators a).filter (· ∈ m.linkable maxDf)).filter
      (· ∈ (m.indicators b).filter (· ∈ m.linkable maxDf))).toFinset = m.sharedBy maxDf a b := by
  ext ind
  simp only [sharedBy, List.mem_toFinset, List.mem_filter, decide_eq_true_eq, mem_linkable,
    Finset.mem_filter, Finset.mem_inter]
  tauto

theorem toFinset_union (m : ActorIndicators) (maxDf : ℤ) (a b : Uuid) :
    ((m.indicators a).filter (· ∈ m.linkable maxDf) ++
      ((m.indicators b).filter (· ∈ m.linkable maxDf)).filter
        (· ∉ (m.indicators a).filter (· ∈ m.linkable maxDf))).toFinset =
      m.eitherOf maxDf a b := by
  ext ind
  simp only [eitherOf, List.mem_toFinset, List.mem_append, List.mem_filter, decide_eq_true_eq,
    mem_linkable, Finset.mem_filter, Finset.mem_union]
  tauto

theorem nodup_union (m : ActorIndicators) (maxDf : ℤ) (a b : Uuid) :
    ((m.indicators a).filter (· ∈ m.linkable maxDf) ++
      ((m.indicators b).filter (· ∈ m.linkable maxDf)).filter
        (· ∉ (m.indicators a).filter (· ∈ m.linkable maxDf))).Nodup := by
  refine List.nodup_append.mpr ⟨(m.nodup_indicators a).filter _,
    ((m.nodup_indicators b).filter _).filter _, fun ind hind ind' hind' => ?_⟩
  rintro rfl
  exact of_decide_eq_true (List.mem_filter.mp hind').2 hind

/-- The edge of a pair that shares an indicator, in terms of the sets. -/
theorem edge?_eq (hidf : ∀ df n, df ≤ n → 0 < idf df n)
    (hshared : (m.sharedBy maxDf a b).Nonempty) :
    m.edge? maxDf idf weightFloor a b =
      if weightFloor ≤ roundScore (m.jaccard maxDf idf a b) then
        some ⟨a, b, roundScore (m.jaccard maxDf idf a b), (m.sharedBy maxDf a b).sort⟩
      else none := by
  have hunion := List.sum_toFinset (m.weight idf) (m.nodup_union maxDf a b)
  have hnodup := ((m.nodup_indicators a).filter (· ∈ m.linkable maxDf)).filter
    (· ∈ (m.indicators b).filter (· ∈ m.linkable maxDf))
  have hboth := List.sum_toFinset (m.weight idf) hnodup
  have hsort : (m.sharedBy maxDf a b).sort = (((m.indicators a).filter
      (· ∈ m.linkable maxDf)).filter
        (· ∈ (m.indicators b).filter (· ∈ m.linkable maxDf))).insertionSort (· ≤ ·) := by
    rw [← toFinset_shared, ← List.toFinset_eq_of_perm _ _ (List.perm_insertionSort (· ≤ ·) _)]
    exact (List.toFinset_sort (· ≤ ·) ((List.perm_insertionSort _ _).nodup_iff.mpr hnodup)).mpr
      (List.pairwise_insertionSort _ _)
  rw [toFinset_union] at hunion
  rw [toFinset_shared] at hboth
  have hne : ((m.indicators a).filter (· ∈ m.linkable maxDf)).filter
      (· ∈ (m.indicators b).filter (· ∈ m.linkable maxDf)) ≠ [] := by
    intro hnil
    rw [← toFinset_shared, hnil] at hshared
    exact absurd hshared (by simp)
  -- a shared indicator has a positive weight
  have hpos : 0 < ∑ ind ∈ m.eitherOf maxDf a b, m.weight idf ind := by
    obtain ⟨ind, hind⟩ := hshared
    refine Finset.sum_pos (fun ind _ => ?_) ⟨ind, ?_⟩
    · rw [weight_eq]
      exact hidf _ _ List.countP_le_length
    · simp only [sharedBy, eitherOf, Finset.mem_filter, Finset.mem_inter,
        Finset.mem_union] at hind ⊢
      exact ⟨Or.inl hind.1.1, hind.2⟩
  have hjaccard : m.jaccard maxDf idf a b = (∑ ind ∈ m.sharedBy maxDf a b, m.weight idf ind) /
      ∑ ind ∈ m.eitherOf maxDf a b, m.weight idf ind := by
    simp only [jaccard, weight_eq]
  rw [hunion] at hpos
  rw [edge?, hsort, hjaccard, hunion, hboth]
  simp only [if_neg hne, if_pos hpos]

/-! ## The pass -/

theorem nodup_actors (m : ActorIndicators) : m.actors.Nodup := m.nodup

theorem indicators_mem_actors (h : ind ∈ m.indicators a) : a ∈ m.actors := by
  obtain ⟨p, hp, rfl, -⟩ := mem_indicators.mp h
  exact List.mem_map_of_mem hp

theorem sharedBy_mem_actors (h : (m.sharedBy maxDf a b).Nonempty) :
    a ∈ m.actors ∧ b ∈ m.actors := by
  obtain ⟨ind, hind⟩ := h
  simp only [sharedBy, Finset.mem_filter, Finset.mem_inter, List.mem_toFinset] at hind
  exact ⟨indicators_mem_actors hind.1.1, indicators_mem_actors hind.1.2⟩

theorem mem_pairs (m : ActorIndicators) (a b : Uuid) :
    (a, b) ∈ combinations2 (m.actors.insertionSort (· ≤ ·)) ↔
      a ∈ m.actors ∧ b ∈ m.actors ∧ a < b := by
  rw [mem_combinations2 (pairwise_lt_sorted m.nodup_actors), List.mem_insertionSort,
    List.mem_insertionSort]

theorem nodup_pairs (m : ActorIndicators) :
    (combinations2 (m.actors.insertionSort (· ≤ ·))).Nodup :=
  nodup_combinations2 ((List.perm_insertionSort _ _).nodup_iff.mpr m.nodup_actors)

/-- The candidates are the pairs that share something, in some order. -/
theorem candidates_perm (m : ActorIndicators) (maxDf : ℤ) : (m.candidates maxDf).Perm
    ((combinations2 (m.actors.insertionSort (· ≤ ·))).filter
      fun p => (m.sharedBy maxDf p.1 p.2).Nonempty) := by
  have hnodup : (m.candidates maxDf).Nodup := List.nodup_dedup _
  refine (List.perm_ext_iff_of_nodup hnodup (m.nodup_pairs.filter _)).mpr ?_
  rintro ⟨a, b⟩
  rw [mem_candidates, List.mem_filter, mem_pairs, decide_eq_true_eq]
  refine ⟨fun h => ?_, fun h => ⟨h.1.2.2, h.2⟩⟩
  obtain ⟨ha, hb⟩ := sharedBy_mem_actors h.2
  exact ⟨⟨ha, hb, h.1⟩, h.2⟩

omit [IsStrictOrderedRing K] [FloorRing K] in
/-- The pass goes over the pairs that share something. -/
theorem bruteForceEdges_eq (m : ActorIndicators) (maxDf : ℤ) (idf : ℕ → ℕ → K) (weightFloor : K)
    (places : K → K) : m.bruteForceEdges maxDf idf weightFloor places =
      ((combinations2 (m.actors.insertionSort (· ≤ ·))).filter
        fun p => (m.sharedBy maxDf p.1 p.2).Nonempty).filterMap fun p =>
          if weightFloor ≤ places (m.jaccard maxDf idf p.1 p.2) then
            some ⟨p.1, p.2, places (m.jaccard maxDf idf p.1 p.2), (m.sharedBy maxDf p.1 p.2).sort⟩
          else none := by
  rw [bruteForceEdges, List.filterMap_filter]
  refine List.filterMap_congr fun p _ => ?_
  by_cases hshared : (m.sharedBy maxDf p.1 p.2).Nonempty <;> simp [hshared]

/-- **The index finds what the pass finds**, whatever the weights are. -/
theorem proposeInfraEdges_perm (hidf : ∀ df n, df ≤ n → 0 < idf df n) :
    (m.proposeInfraEdges maxDf idf weightFloor).Perm
      (m.bruteForceEdges maxDf idf weightFloor roundScore) := by
  rw [proposeInfraEdges, bruteForceEdges_eq]
  split_ifs with hfew
  · -- one actor makes no pair
    have hnone : m.candidates maxDf = [] := by
      refine List.eq_nil_iff_forall_not_mem.mpr ?_
      rintro ⟨a, b⟩ hab
      obtain ⟨hlt, hshared⟩ := mem_candidates.mp hab
      obtain ⟨ha, hb⟩ := sharedBy_mem_actors hshared
      have hboth : [a, b] ⊆ m.actors :=
        List.cons_subset.mpr ⟨ha, List.cons_subset.mpr ⟨hb, List.nil_subset _⟩⟩
      have htwo : [a, b].length ≤ m.actors.length := by
        apply List.Nodup.length_le_of_subset _ hboth
        simp [hlt.ne]
      rw [actors, List.length_map] at htwo
      exact absurd htwo (Nat.not_le.mpr hfew)
    have hperm := m.candidates_perm maxDf
    rw [hnone] at hperm
    rw [hperm.symm.eq_nil]
    exact List.Perm.refl _
  · refine (List.perm_insertionSort _ _).trans ?_
    have hedges : ((m.candidates maxDf).filterMap fun p => m.edge? maxDf idf weightFloor p.1 p.2) =
        (m.candidates maxDf).filterMap fun p =>
          if weightFloor ≤ roundScore (m.jaccard maxDf idf p.1 p.2) then
            some ⟨p.1, p.2, roundScore (m.jaccard maxDf idf p.1 p.2),
              (m.sharedBy maxDf p.1 p.2).sort⟩
          else none :=
      List.filterMap_congr fun p hp => edge?_eq hidf (mem_candidates.mp hp).2
    rw [hedges]
    exact (m.candidates_perm maxDf).filterMap _

omit [IsStrictOrderedRing K] [FloorRing K] in
/-- An edge of the pass is the edge of a pair. -/
theorem bruteForceEdges_pair {e : InfraEdge K} {places : K → K} {p : Uuid × Uuid}
    (h : e ∈ if (m.sharedBy maxDf p.1 p.2).Nonempty ∧
        weightFloor ≤ places (m.jaccard maxDf idf p.1 p.2) then
      some (⟨p.1, p.2, places (m.jaccard maxDf idf p.1 p.2), (m.sharedBy maxDf p.1 p.2).sort⟩ :
        InfraEdge K)
      else none) : (e.actorA, e.actorB) = p := by
  split_ifs at h
  · obtain rfl := Option.some.inj h
    rfl
  · cases h

omit [IsStrictOrderedRing K] [FloorRing K] in
theorem nodup_bruteForceEdges (m : ActorIndicators) (maxDf : ℤ) (idf : ℕ → ℕ → K)
    (weightFloor : K) (places : K → K) :
    ((m.bruteForceEdges maxDf idf weightFloor places).map fun e => (e.actorA, e.actorB)).Nodup := by
  rw [bruteForceEdges, List.map_filterMap]
  refine m.nodup_pairs.filterMap fun p q x hp hq => ?_
  obtain ⟨e, he, rfl⟩ := Option.mem_map.mp hp
  obtain ⟨e', he', hpair⟩ := Option.mem_map.mp hq
  rw [← bruteForceEdges_pair he, ← bruteForceEdges_pair he', hpair]

omit [IsStrictOrderedRing K] [FloorRing K] in
theorem bruteForceEdges_lt {places : K → K} {e : InfraEdge K}
    (h : e ∈ m.bruteForceEdges maxDf idf weightFloor places) : e.actorA < e.actorB := by
  obtain ⟨p, hp, hedge⟩ := List.mem_filterMap.mp h
  rw [← bruteForceEdges_pair hedge, mem_pairs] at hp
  exact hp.2.2

end ActorIndicators

theorem idf_pos (df n : ℕ) (h : df ≤ n) : 0 < idf df n := by
  have hle : (1 : ℝ) ≤ (n + 1) / (df + 1) := by
    rw [one_le_div (by positivity)]
    exact_mod_cast Nat.succ_le_succ h
  have hlog : 0 ≤ Real.log ((n + 1) / (df + 1)) := Real.log_nonneg hle
  rw [idf]
  linarith

/-- **Shared infrastructure**: the edges are those of one pass over all pairs, each pair once and
its smaller id first, with the index rounded to four places before it is held against the floor. -/
theorem shared_infra_edges (m : ActorIndicators) (maxDf : ℤ) (weightFloor : ℝ) :
    (∀ e, e ∈ m.proposeInfraEdges maxDf idf weightFloor ↔
      e ∈ m.bruteForceEdges maxDf idf weightFloor roundScore) ∧
    ((m.proposeInfraEdges maxDf idf weightFloor).map fun e => (e.actorA, e.actorB)).Nodup ∧
    ∀ e ∈ m.proposeInfraEdges maxDf idf weightFloor, e.actorA < e.actorB := by
  have hperm : (m.proposeInfraEdges maxDf idf weightFloor).Perm
      (m.bruteForceEdges maxDf idf weightFloor roundScore) := m.proposeInfraEdges_perm idf_pos
  refine ⟨fun e => hperm.mem_iff, ?_, fun e he => ?_⟩
  · exact (hperm.map _).nodup_iff.mpr (m.nodup_bruteForceEdges maxDf idf weightFloor roundScore)
  · exact ActorIndicators.bruteForceEdges_lt (hperm.mem_iff.mp he)

/-- Two actors with two handles in common, of three. -/
def sharedHandles : ActorIndicators where
  items := [(1, ["@a", "@b", "@c"]), (2, ["@a", "@b"]), (3, ["@c"])]
  nodup := by decide
  sets := by decide

/-- Two thirds are proposed at a floor of 0.6667. -/
theorem shared_infra_rounds_up : ¬ ∀ (m : ActorIndicators) (maxDf : ℤ) (weightFloor : ℝ) (e),
    e ∈ m.proposeInfraEdges maxDf idf weightFloor ↔
      e ∈ m.bruteForceEdges maxDf idf weightFloor id := by
  intro h
  have hshared : sharedHandles.sharedBy 15 1 2 = {"@a", "@b"} := by decide
  have heither : sharedHandles.eitherOf 15 1 2 = {"@a", "@b", "@c"} := by decide
  have hfrequency : sharedHandles.frequency "@a" = 2 ∧ sharedHandles.frequency "@b" = 2 ∧
      sharedHandles.frequency "@c" = 2 := by decide
  have hjaccard : sharedHandles.jaccard 15 idf 1 2 = 2 / 3 := by
    have hpos := (idf_pos 2 sharedHandles.items.length (by decide)).ne'
    rw [ActorIndicators.jaccard, hshared, heither, Finset.sum_pair (by decide),
      Finset.sum_insert (by decide), Finset.sum_pair (by decide), hfrequency.1, hfrequency.2.1,
      hfrequency.2.2]
    field_simp
    ring
  have hround : roundScore (2 / 3 : ℝ) = 6667 / 10000 := by
    have hfloor : ⌊(2 / 3 * 10000 : ℝ)⌋ = 6666 := by
      rw [Int.floor_eq_iff]
      norm_num
    rw [roundScore, hfloor]
    norm_num
  have hedge : (⟨1, 2, 6667 / 10000, (sharedHandles.sharedBy 15 1 2).sort⟩ : InfraEdge ℝ) ∈
      sharedHandles.bruteForceEdges 15 idf (6667 / 10000) roundScore := by
    refine List.mem_filterMap.mpr ⟨(1, 2), (ActorIndicators.mem_pairs _ _ _).mpr (by decide), ?_⟩
    rw [if_pos ⟨by rw [hshared]; exact ⟨"@a", by decide⟩, by rw [hjaccard, hround]⟩, hjaccard,
      hround]
  have hpropose := (sharedHandles.proposeInfraEdges_perm idf_pos).mem_iff.mpr hedge
  obtain ⟨p, -, hp⟩ := List.mem_filterMap.mp ((h sharedHandles 15 _ _).mp hpropose)
  obtain rfl := ActorIndicators.bruteForceEdges_pair hp
  rw [hjaccard] at hp
  split_ifs at hp with hfloor
  norm_num at hfloor

end Eyenet
