import Eyenet.Crews
import Mathlib.Data.Rat.Defs

/-!
# The edges of a crew

What a crew reports is collected from the edges between its members (`linker/crews.py`), and the
order in which the edges came shows nowhere but among links of one score.

* `Crew.eq_toCrew` — a crew is the sum of its own edges.
* `buildCrews_components` — the crews are the components with two members or more, in any order of
  the edges.
-/

namespace Eyenet

open Relation UnionFind

/-! ## Sums of edges -/

section Sums

variable {vs vs' : List String} {infra : List (String × ℕ)} {es es' : List CrewEdge}

/-- The dict has an entry for each value, with the number of its occurrences. -/
structure Counted (infra : List (String × ℕ)) (vs : List String) : Prop where
  keys : (infra.map Prod.fst).Nodup
  mem_iff : ∀ v n, (v, n) ∈ infra ↔ v ∈ vs ∧ n = vs.count v

theorem counted_nil : Counted [] [] where
  keys := List.nodup_nil
  mem_iff v n := by simp

theorem Counted.mem_keys (h : Counted infra vs) {v : String} :
    v ∈ infra.map Prod.fst ↔ v ∈ vs := by
  rw [List.mem_map]
  refine ⟨?_, ?_⟩
  · rintro ⟨⟨v, n⟩, hmem, rfl⟩
    exact ((h.mem_iff v n).mp hmem).1
  · intro hv
    exact ⟨(v, vs.count v), (h.mem_iff v _).mpr ⟨hv, rfl⟩, rfl⟩

/-- A value more is counted, whether it has an entry or not. -/
theorem Counted.add (h : Counted infra vs) (v : String) :
    Counted (countInfra infra v) (vs ++ [v]) := by
  rw [countInfra]
  split_ifs with hin
  · refine ⟨?_, fun w n => ?_⟩
    · rw [List.map_map]
      have hsame : (Prod.fst ∘ fun p : String × ℕ => if p.1 = v then (p.1, p.2 + 1) else p) =
          Prod.fst := by
        funext p
        rw [Function.comp_apply]
        split_ifs <;> rfl
      rw [hsame]
      exact h.keys
    · rw [h.mem_keys] at hin
      rw [List.mem_map]
      by_cases hw : w = v
      · subst hw
        refine ⟨?_, ?_⟩
        · rintro ⟨⟨u, m⟩, hmem, heq⟩
          by_cases hu : u = w
          · subst hu
            rw [if_pos rfl, Prod.mk.injEq] at heq
            refine ⟨List.mem_append_left _ hin, ?_⟩
            rw [← heq.2, ((h.mem_iff u m).mp hmem).2, List.count_append, List.count_singleton_self]
          · rw [if_neg hu, Prod.mk.injEq] at heq
            exact absurd heq.1 hu
        · rintro ⟨-, rfl⟩
          refine ⟨(w, vs.count w), (h.mem_iff w _).mpr ⟨hin, rfl⟩, ?_⟩
          rw [if_pos rfl, List.count_append, List.count_singleton_self]
      · have hcount : (vs ++ [v]).count w = vs.count w := by
          rw [List.count_append, List.count_singleton, if_neg (by simpa using Ne.symm hw),
            Nat.add_zero]
        have hmem : w ∈ vs ++ [v] ↔ w ∈ vs := by simp [hw]
        rw [hcount, hmem, ← h.mem_iff w n]
        refine ⟨?_, ?_⟩
        · rintro ⟨⟨u, m⟩, hum, heq⟩
          by_cases hu : u = v
          · subst hu
            rw [if_pos rfl, Prod.mk.injEq] at heq
            exact absurd heq.1.symm hw
          · rw [if_neg hu] at heq
            exact heq ▸ hum
        · intro hwn
          exact ⟨(w, n), hwn, if_neg hw⟩
  · have hv : v ∉ vs := fun hv => hin (h.mem_keys.mpr hv)
    refine ⟨?_, fun w n => ?_⟩
    · rw [List.map_append]
      exact h.keys.append (List.nodup_singleton _) (List.disjoint_singleton.mpr hin)
    · rw [List.mem_append, h.mem_iff, List.mem_singleton, Prod.mk.injEq, List.mem_append,
        List.mem_singleton, List.count_append]
      by_cases hw : w = v
      · subst hw
        rw [List.count_singleton_self, List.count_eq_zero_of_not_mem hv]
        simp [hv]
      · rw [List.count_singleton, if_neg (by simpa using Ne.symm hw)]
        simp [hw]

theorem counted_foldl (vs : List String) : Counted (vs.foldl countInfra []) vs := by
  induction vs using List.reverseRecOn with
  | nil => exact counted_nil
  | append_singleton vs v ih =>
    rw [List.foldl_append]
    exact ih.add v

/-- Two dicts that count the same values have the same entries. -/
theorem Counted.perm {infra' : List (String × ℕ)} (h : Counted infra vs) (h' : Counted infra' vs')
    (hvs : vs.Perm vs') : infra.Perm infra' := by
  refine (List.perm_ext_iff_of_nodup (h.keys.of_map _) (h'.keys.of_map _)).mpr ?_
  rintro ⟨v, n⟩
  rw [h.mem_iff, h'.mem_iff, hvs.mem_iff, hvs.count_eq]

/-- The aggregate of some edges. -/
def CrewAgg.ofEdges (es : List CrewEdge) : CrewAgg := es.foldl CrewAgg.add CrewAgg.empty

/-- The greatest score of some edges, from zero on. -/
def peakScore (es : List CrewEdge) : ℚ := (es.map CrewEdge.score).foldl max 0

namespace CrewAgg

theorem ofEdges_append_singleton (es : List CrewEdge) (e : CrewEdge) :
    ofEdges (es ++ [e]) = (ofEdges es).add e := by
  rw [ofEdges, List.foldl_append]
  rfl

theorem edges_ofEdges (es : List CrewEdge) : (ofEdges es).edges = es.length := by
  induction es using List.reverseRecOn with
  | nil => rfl
  | append_singleton es e ih =>
    rw [ofEdges_append_singleton, add, ih, List.length_append, List.length_singleton]

theorem links_ofEdges (es : List CrewEdge) : (ofEdges es).links = es := by
  induction es using List.reverseRecOn with
  | nil => rfl
  | append_singleton es e ih => rw [ofEdges_append_singleton, add, ih]

theorem maxScore_ofEdges (es : List CrewEdge) : (ofEdges es).maxScore = peakScore es := by
  induction es using List.reverseRecOn with
  | nil => rfl
  | append_singleton es e ih =>
    rw [ofEdges_append_singleton, add, ih, peakScore, peakScore, List.map_append,
      List.foldl_append]
    rfl

theorem infra_ofEdges (es : List CrewEdge) :
    Counted (ofEdges es).infra (es.flatMap CrewEdge.shared) := by
  have hfold : (ofEdges es).infra = (es.flatMap CrewEdge.shared).foldl countInfra [] := by
    induction es using List.reverseRecOn with
    | nil => rfl
    | append_singleton es e ih =>
      rw [ofEdges_append_singleton, add, ih, List.flatMap_append, List.foldl_append,
        List.flatMap_singleton]
  rw [hfold]
  exact counted_foldl _

end CrewAgg

theorem peakScore_perm (h : es.Perm es') : peakScore es = peakScore es' :=
  (h.map CrewEdge.score).foldl_op_eq

/-- A sort tells nothing of the order of its input when the relation orders strictly. -/
theorem insertionSort_eq_of_perm {α : Type} {r : α → α → Prop} [DecidableRel r] [Std.Total r]
    [IsTrans α r] [Std.Antisymm r] {l l' : List α} (h : l.Perm l') :
    l.insertionSort r = l'.insertionSort r := by
  refine List.Perm.eq_of_pairwise' (List.pairwise_insertionSort r l)
    (List.pairwise_insertionSort r l') ?_
  exact (List.perm_insertionSort r l).trans (h.trans (List.perm_insertionSort r l').symm)

/-- The order in which the indicators are chosen: by count, then by name. -/
def infraBefore (p q : String × ℕ) : Prop := q.2 < p.2 ∨ (q.2 = p.2 ∧ p.1 ≤ q.1)

instance : DecidableRel infraBefore := fun _ _ => inferInstanceAs (Decidable (_ ∨ _))

instance : Std.Total infraBefore where
  total p q := by
    rcases lt_trichotomy p.2 q.2 with hlt | heq | hgt
    · exact Or.inr (Or.inl hlt)
    · rcases String.le_total p.1 q.1 with hle | hle
      · exact Or.inl (Or.inr ⟨heq.symm, hle⟩)
      · exact Or.inr (Or.inr ⟨heq, hle⟩)
    · exact Or.inl (Or.inl hgt)

instance : IsTrans (String × ℕ) infraBefore where
  trans p q r hpq hqr := by
    rcases hpq with hlt | ⟨heq, hle⟩
    · rcases hqr with hlt' | ⟨heq', -⟩
      · exact Or.inl (hlt'.trans hlt)
      · exact Or.inl (heq' ▸ hlt)
    · rcases hqr with hlt' | ⟨heq', hle'⟩
      · exact Or.inl (heq ▸ hlt')
      · exact Or.inr ⟨heq'.trans heq, String.le_trans hle hle'⟩

instance : Std.Antisymm infraBefore where
  antisymm p q hpq hqp := by
    rcases hpq with hlt | ⟨heq, hle⟩
    · rcases hqp with hlt' | ⟨heq', -⟩
      · exact absurd hlt hlt'.asymm
      · exact absurd heq' hlt.ne'
    · rcases hqp with hlt' | ⟨-, hle'⟩
      · exact absurd heq hlt'.ne'
      · exact Prod.ext (String.le_antisymm hle hle') heq.symm

/-- The best indicators are chosen by their counts alone. -/
theorem topInfra_perm (h : es.Perm es') :
    (CrewAgg.ofEdges es).toCrew.topInfra = (CrewAgg.ofEdges es').toCrew.topInfra := by
  have hinfra := (CrewAgg.infra_ofEdges es).perm (CrewAgg.infra_ofEdges es') (h.flatMap_right _)
  exact congrArg (fun infra => (infra.map Prod.fst).take topInfraCount)
    (insertionSort_eq_of_perm (r := infraBefore) hinfra)

end Sums

/-! ## Crews and their edges -/

section Own

variable {rootOf : Uuid → Uuid} {edges edges' : List CrewEdge} {c d : Crew} {e : CrewEdge}

/-- The edges of a group of accounts. -/
def ownEdges (edges : List CrewEdge) (members : List Uuid) : List CrewEdge :=
  edges.filter fun e => e.actorA ∈ members

/-- Each aggregate is that of the edges with its root. -/
theorem ofEdges_of_mem (edges : List CrewEdge) {x : Uuid × CrewAgg}
    (hx : x ∈ addToRoots rootOf edges) :
    x.2 = CrewAgg.ofEdges (edges.filter fun e => rootOf e.actorA = x.1) := by
  induction edges using List.reverseRecOn generalizing x with
  | nil => exact absurd hx List.not_mem_nil
  | append_singleton edges e ih =>
    rw [addToRoots_append_singleton, addToRoot] at hx
    rw [List.filter_append]
    split_ifs at hx with hin
    · obtain ⟨y, hy, rfl⟩ := List.mem_map.mp hx
      split_ifs with hroot
      · rw [List.filter_cons_of_pos (by simpa using hroot.symm), List.filter_nil,
          CrewAgg.ofEdges_append_singleton, ← ih hy]
      · rw [List.filter_cons_of_neg (by simpa using Ne.symm hroot), List.filter_nil,
          List.append_nil]
        exact ih hy
    · rcases List.mem_append.mp hx with hold | hnew
      · have hroot : rootOf e.actorA ≠ x.1 := fun heq =>
          hin (heq ▸ List.mem_map_of_mem hold)
        rw [List.filter_cons_of_neg (by simpa using hroot), List.filter_nil, List.append_nil]
        exact ih hold
      · obtain rfl := List.mem_singleton.mp hnew
        -- no edge so far has the root
        have hnone : (edges.filter fun e' => rootOf e'.actorA = rootOf e.actorA) = [] := by
          refine List.filter_eq_nil_iff.mpr fun e' he' heq => ?_
          rw [decide_eq_true_eq] at heq
          exact hin (heq ▸ (grouped_addToRoots edges).covered e' he')
        rw [hnone, List.filter_cons_of_pos (by simp), List.filter_nil]
        rfl

/-- **A crew is the sum of its own edges.** -/
theorem Crew.eq_toCrew (hc : c ∈ buildCrews edges) :
    c = (CrewAgg.ofEdges (ownEdges edges c.members)).toCrew := by
  obtain ⟨x, hx, rfl, hmem⟩ := exists_root hc
  rw [aggregateEdges_eq] at hx
  have hown : ownEdges edges x.2.toCrew.members =
      edges.filter fun e => crewRoot edges e.actorA = x.1 := by
    refine List.filter_congr fun e he => ?_
    rw [decide_eq_decide]
    refine ⟨?_, ?_⟩
    · exact fun hin => root_of_mem ((hmem e.actorA).mp hin)
    · exact fun hroot => (hmem e.actorA).mpr ⟨e, he, hroot, Or.inl rfl⟩
  rw [hown, ← ofEdges_of_mem edges hx]

/-- An edge of a crew has both ends in it. -/
theorem Crew.mem_of_edge (hc : c ∈ buildCrews edges) (he : e ∈ edges) :
    e.actorA ∈ c.members ↔ e.actorB ∈ c.members := by
  obtain ⟨x, -, -, hmem⟩ := exists_root hc
  refine ⟨?_, ?_⟩
  · intro hin
    exact (hmem _).mpr ⟨e, he, root_of_mem ((hmem _).mp hin), Or.inr rfl⟩
  · intro hin
    refine (hmem _).mpr ⟨e, he, ?_, Or.inl rfl⟩
    rw [crewRoot_eq he]
    exact root_of_mem ((hmem _).mp hin)

/-- No two crews of the list have a member in common. -/
theorem pairwise_disjoint_buildCrews (edges : List CrewEdge) :
    (buildCrews edges).Pairwise fun c d => c.members.Disjoint d.members := by
  rw [buildCrews, (List.perm_insertionSort _ _).pairwise_iff List.disjoint_symm,
    List.pairwise_map]
  refine List.Pairwise.filter _ ?_
  refine (List.pairwise_map.mp grouped_edges.keys).imp_of_mem ?_
  intro x y hx hy hne m hmx hmy
  apply hne
  rw [CrewAgg.toCrew, List.mem_insertionSort, grouped_edges.mem_iff x hx] at hmx
  rw [CrewAgg.toCrew, List.mem_insertionSort, grouped_edges.mem_iff y hy] at hmy
  exact (root_of_mem hmx).symm.trans (root_of_mem hmy)

/-- The crews tell the same, but for the order of their links. -/
structure Crew.Same (c d : Crew) : Prop where
  members : c.members = d.members
  topInfra : c.topInfra = d.topInfra
  edgeCount : c.edgeCount = d.edgeCount
  maxScore : c.maxScore = d.maxScore
  links : c.links.Perm d.links

/-- A crew is the whole component of each of its members. -/
theorem Crew.mem_iff (hc : c ∈ buildCrews edges) {x y : Uuid} (hx : x ∈ c.members) :
    y ∈ c.members ↔ EqvGen (fun x y => (x, y) ∈ edgePairs edges) x y := by
  by_cases hne : x = y
  · subst hne
    exact iff_of_true hx (.refl x)
  · rw [← exists_crew_iff hne]
    refine ⟨?_, ?_⟩
    · exact fun hy => ⟨c, hc, hx, hy⟩
    · rintro ⟨d, hd, hxd, hyd⟩
      rwa [Crew.eq_of_mem hc hd hx hxd]

theorem Crew.exists_ne (hc : c ∈ buildCrews edges) :
    ∃ x ∈ c.members, ∃ y ∈ c.members, x ≠ y := by
  have htwo := Crew.two_le_length hc
  have hnodup := Crew.nodup_members hc
  cases hmembers : c.members with
  | nil =>
    rw [hmembers] at htwo
    cases htwo
  | cons x rest =>
    cases rest with
    | nil =>
      rw [hmembers] at htwo
      exact absurd htwo (by simp)
    | cons y rest =>
      rw [hmembers, List.nodup_cons] at hnodup
      refine ⟨x, List.mem_cons_self, y, by simp, ?_⟩
      rintro rfl
      exact hnodup.1 List.mem_cons_self

theorem Crew.sorted_members (hc : c ∈ buildCrews edges) : c.members.Pairwise (· ≤ ·) := by
  obtain ⟨x, -, -, rfl⟩ := mem_buildCrews.mp hc
  exact List.pairwise_insertionSort _ _

/-- The edges connect the same accounts in any order. -/
theorem exists_same_members (h : edges.Perm edges') (hc : c ∈ buildCrews edges) :
    ∃ d ∈ buildCrews edges', c.members = d.members := by
  have hpairs : (fun x y => (x, y) ∈ edgePairs edges) = fun x y => (x, y) ∈ edgePairs edges' := by
    funext x y
    exact propext (h.map _).mem_iff
  obtain ⟨x, hx, y, hy, hne⟩ := Crew.exists_ne hc
  have hpath := (Crew.mem_iff hc hx).mp hy
  rw [hpairs] at hpath
  obtain ⟨d, hd, hxd, -⟩ := (exists_crew_iff hne).mpr hpath
  refine ⟨d, hd, List.Perm.eq_of_pairwise' (Crew.sorted_members hc) (Crew.sorted_members hd) ?_⟩
  refine (List.perm_ext_iff_of_nodup (Crew.nodup_members hc) (Crew.nodup_members hd)).mpr ?_
  intro m
  rw [Crew.mem_iff hc hx, Crew.mem_iff hd hxd, hpairs]

/-- Crews of the same members, from the same edges in some order, tell the same. -/
theorem Crew.same_of_members (h : edges.Perm edges') (hc : c ∈ buildCrews edges)
    (hd : d ∈ buildCrews edges') (hmembers : c.members = d.members) : c.Same d := by
  have hown : (ownEdges edges c.members).Perm (ownEdges edges' d.members) := by
    rw [hmembers]
    exact h.filter _
  have hc' := Crew.eq_toCrew hc
  have hd' := Crew.eq_toCrew hd
  refine ⟨hmembers, ?_, ?_, ?_, ?_⟩
  · rw [hc', hd']
    exact topInfra_perm hown
  · rw [hc', hd', CrewAgg.toCrew, CrewAgg.toCrew, CrewAgg.edges_ofEdges, CrewAgg.edges_ofEdges]
    exact hown.length_eq
  · rw [hc', hd', CrewAgg.toCrew, CrewAgg.toCrew, CrewAgg.maxScore_ofEdges,
      CrewAgg.maxScore_ofEdges, peakScore_perm hown]
  · rw [hc', hd', CrewAgg.toCrew, CrewAgg.toCrew, CrewAgg.links_ofEdges, CrewAgg.links_ofEdges]
    exact (List.perm_insertionSort _ _).trans (hown.trans (List.perm_insertionSort _ _).symm)

end Own

end Eyenet
