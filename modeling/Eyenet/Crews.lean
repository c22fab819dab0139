import Eyenet.Linker
import Eyenet.UnionFind
import Mathlib.Data.List.Induction
import Mathlib.Data.List.Nodup
import Mathlib.Data.List.Sort

/-!
# Crews

A crew is a connected component of the graph of accounts that share infrastructure
(`linker/crews.py`): union-find over the edges, then one aggregate for each root.

* `exists_crew_iff` — two accounts are in one crew exactly when the edges connect them.
* `Crew.eq_of_mem` — crews with a common member are one crew.
-/

namespace Eyenet

open Relation UnionFind

/-- `(actor_a, actor_b, score, shared_indicators)` -/
structure CrewEdge where
  actorA : Uuid
  actorB : Uuid
  score : ℚ
  shared : List String
  deriving DecidableEq

/-- `Crew` -/
structure Crew where
  members : List Uuid
  topInfra : List String
  edgeCount : ℕ
  maxScore : ℚ
  links : List CrewEdge
  deriving DecidableEq

/-- `_Agg`; `members` is a set, and `infra` a dict by its items. -/
structure CrewAgg where
  members : List Uuid
  infra : List (String × ℕ)
  edges : ℕ
  maxScore : ℚ
  links : List CrewEdge

/-- `_TOP_INFRA` -/
def topInfraCount : ℕ := 8

/-- `infra[v] += 1` -/
def countInfra (infra : List (String × ℕ)) (v : String) : List (String × ℕ) :=
  if v ∈ infra.map Prod.fst then infra.map fun p => if p.1 = v then (p.1, p.2 + 1) else p
  else infra ++ [(v, 1)]

namespace CrewAgg

/-- `_Agg()` -/
def empty : CrewAgg := ⟨[], [], 0, 0, []⟩

/-- One edge more. -/
def add (agg : CrewAgg) (e : CrewEdge) : CrewAgg where
  members := (agg.members.insert e.actorA).insert e.actorB
  infra := e.shared.foldl countInfra agg.infra
  edges := agg.edges + 1
  maxScore := max agg.maxScore e.score
  links := agg.links ++ [e]

end CrewAgg

/-- The crew of an aggregate. -/
def CrewAgg.toCrew (agg : CrewAgg) : Crew where
  members := agg.members.insertionSort (· ≤ ·)
  topInfra := ((agg.infra.insertionSort fun p q => q.2 < p.2 ∨ (q.2 = p.2 ∧ p.1 ≤ q.1)).map
    Prod.fst).take topInfraCount
  edgeCount := agg.edges
  maxScore := round4 agg.maxScore
  links := agg.links.insertionSort fun e e' => e'.score ≤ e.score

/-- The order of the crews: the greater, then the one with the higher score. -/
def Crew.Before (c d : Crew) : Prop :=
  d.members.length < c.members.length ∨
    (d.members.length = c.members.length ∧ d.maxScore ≤ c.maxScore)

instance (c d : Crew) : Decidable (c.Before d) := inferInstanceAs (Decidable (_ ∨ _))

/-- The aggregate of a root gets an edge. -/
def addToRoot (aggs : List (Uuid × CrewAgg)) (root : Uuid) (e : CrewEdge) :
    List (Uuid × CrewAgg) :=
  if root ∈ aggs.map Prod.fst then
    aggs.map fun x => if x.1 = root then (x.1, x.2.add e) else x
  else aggs ++ [(root, CrewAgg.empty.add e)]

/-- One round of the second loop, with the parents and the aggregates. -/
def aggregateEdge (fuel : ℕ) (state : (Uuid → Uuid) × List (Uuid × CrewAgg)) (e : CrewEdge) :
    (Uuid → Uuid) × List (Uuid × CrewAgg) :=
  let found := find fuel state.1 e.actorA
  (found.2, addToRoot state.2 found.1 e)

/-- The aggregates of the roots, and the parents after the searches. -/
def aggregateEdges (fuel : ℕ) (parent : Uuid → Uuid) (edges : List CrewEdge) :
    (Uuid → Uuid) × List (Uuid × CrewAgg) :=
  edges.foldl (aggregateEdge fuel) (parent, [])

/-- `build_crews` -/
def buildCrews (edges : List CrewEdge) : List Crew :=
  -- no path is longer than the number of unions
  let fuel := edges.length
  let parent := unionAll fuel (edges.map fun e => (e.actorA, e.actorB))
  let aggs := (aggregateEdges fuel parent edges).2
  ((aggs.filter fun x => 2 ≤ x.2.members.length).map fun x => x.2.toCrew).insertionSort
    fun c d => c.Before d

/-! ## Aggregates -/

section Aggregates

variable {rootOf : Uuid → Uuid} {edges : List CrewEdge} {aggs : List (Uuid × CrewAgg)}
  {e : CrewEdge} {m : Uuid}

theorem CrewAgg.mem_add {agg : CrewAgg} :
    m ∈ (agg.add e).members ↔ m ∈ agg.members ∨ m = e.actorA ∨ m = e.actorB := by
  rw [CrewAgg.add, List.mem_insert_iff, List.mem_insert_iff, or_comm, or_comm (a := m = e.actorA),
    or_assoc]

theorem CrewAgg.nodup_add {agg : CrewAgg} (h : agg.members.Nodup) : (agg.add e).members.Nodup :=
  (h.insert).insert

/-- One aggregate for each root that an edge has, with the ends of its edges. -/
structure Grouped (rootOf : Uuid → Uuid) (edges : List CrewEdge) (aggs : List (Uuid × CrewAgg)) :
    Prop where
  keys : (aggs.map Prod.fst).Nodup
  nodup : ∀ x ∈ aggs, x.2.members.Nodup
  mem_iff : ∀ x ∈ aggs, ∀ m, m ∈ x.2.members ↔
    ∃ e ∈ edges, rootOf e.actorA = x.1 ∧ (m = e.actorA ∨ m = e.actorB)
  covered : ∀ e ∈ edges, rootOf e.actorA ∈ aggs.map Prod.fst

theorem grouped_nil : Grouped rootOf [] [] where
  keys := List.nodup_nil
  nodup _ h := absurd h List.not_mem_nil
  mem_iff _ h := absurd h List.not_mem_nil
  covered _ h := absurd h List.not_mem_nil

/-- An edge with another root has no part in an aggregate. -/
theorem exists_append_iff {x : Uuid} (hroot : rootOf e.actorA ≠ x) :
    (∃ e' ∈ edges ++ [e], rootOf e'.actorA = x ∧ (m = e'.actorA ∨ m = e'.actorB)) ↔
      ∃ e' ∈ edges, rootOf e'.actorA = x ∧ (m = e'.actorA ∨ m = e'.actorB) := by
  refine ⟨?_, ?_⟩
  · rintro ⟨e', he', hx, hm⟩
    rcases List.mem_append.mp he' with hold | hnew
    · exact ⟨e', hold, hx, hm⟩
    · rw [List.mem_singleton.mp hnew] at hx
      exact absurd hx hroot
  · rintro ⟨e', he', hx, hm⟩
    exact ⟨e', List.mem_append_left _ he', hx, hm⟩

/-- An edge with the root of an aggregate adds its ends. -/
theorem exists_append_self_iff :
    (∃ e' ∈ edges ++ [e], rootOf e'.actorA = rootOf e.actorA ∧
        (m = e'.actorA ∨ m = e'.actorB)) ↔
      (∃ e' ∈ edges, rootOf e'.actorA = rootOf e.actorA ∧ (m = e'.actorA ∨ m = e'.actorB)) ∨
        m = e.actorA ∨ m = e.actorB := by
  refine ⟨?_, ?_⟩
  · rintro ⟨e', he', hx, hm⟩
    rcases List.mem_append.mp he' with hold | hnew
    · exact Or.inl ⟨e', hold, hx, hm⟩
    · rw [List.mem_singleton.mp hnew] at hm
      exact Or.inr hm
  · rintro (⟨e', he', hx, hm⟩ | hm)
    · exact ⟨e', List.mem_append_left _ he', hx, hm⟩
    · exact ⟨e, List.mem_append_right _ (List.mem_singleton_self e), rfl, hm⟩

/-- An edge that joins an aggregate leaves the roots as they are. -/
theorem map_fst_update :
    (aggs.map fun x => if x.1 = rootOf e.actorA then (x.1, x.2.add e) else x).map Prod.fst =
      aggs.map Prod.fst := by
  rw [List.map_map]
  refine List.map_congr_left fun x _ => ?_
  rw [Function.comp_apply]
  split_ifs <;> rfl

/-- The edge's root has an aggregate, which takes the edge. -/
theorem Grouped.update (h : Grouped rootOf edges aggs)
    (hin : rootOf e.actorA ∈ aggs.map Prod.fst) :
    Grouped rootOf (edges ++ [e])
      (aggs.map fun x => if x.1 = rootOf e.actorA then (x.1, x.2.add e) else x) where
  keys := by
    rw [map_fst_update]
    exact h.keys
  nodup := by
    intro x hx
    obtain ⟨y, hy, rfl⟩ := List.mem_map.mp hx
    split_ifs
    · exact CrewAgg.nodup_add (h.nodup y hy)
    · exact h.nodup y hy
  mem_iff := by
    intro x hx m
    obtain ⟨y, hy, rfl⟩ := List.mem_map.mp hx
    split_ifs with hroot
    · rw [CrewAgg.mem_add, h.mem_iff y hy, hroot, exists_append_self_iff]
    · rw [h.mem_iff y hy, exists_append_iff (Ne.symm hroot)]
  covered := by
    intro e' he'
    rw [map_fst_update]
    rcases List.mem_append.mp he' with hold | hnew
    · exact h.covered e' hold
    · exact List.mem_singleton.mp hnew ▸ hin

/-- The edge's root gets an aggregate. -/
theorem Grouped.insert (h : Grouped rootOf edges aggs)
    (hin : rootOf e.actorA ∉ aggs.map Prod.fst) :
    Grouped rootOf (edges ++ [e]) (aggs ++ [(rootOf e.actorA, CrewAgg.empty.add e)]) where
  keys := by
    rw [List.map_append]
    exact h.keys.append (List.nodup_singleton _) (List.disjoint_singleton.mpr hin)
  nodup := by
    intro x hx
    rcases List.mem_append.mp hx with hold | hnew
    · exact h.nodup x hold
    · rw [List.mem_singleton.mp hnew]
      exact CrewAgg.nodup_add List.nodup_nil
  mem_iff := by
    intro x hx m
    rcases List.mem_append.mp hx with hold | hnew
    · have hroot : rootOf e.actorA ≠ x.1 := by
        intro heq
        exact hin (heq ▸ List.mem_map_of_mem hold)
      rw [h.mem_iff x hold, exists_append_iff hroot]
    · rw [List.mem_singleton.mp hnew, CrewAgg.mem_add, exists_append_self_iff]
      refine or_congr_left (iff_of_false List.not_mem_nil ?_)
      -- no edge so far has the root
      rintro ⟨e', he', heq, -⟩
      exact hin (heq ▸ h.covered e' he')
  covered := by
    intro e' he'
    rw [List.map_append, List.mem_append]
    rcases List.mem_append.mp he' with hold | hnew
    · exact Or.inl (h.covered e' hold)
    · exact Or.inr (List.mem_singleton.mp hnew ▸ List.mem_singleton_self _)

theorem Grouped.add (h : Grouped rootOf edges aggs) :
    Grouped rootOf (edges ++ [e]) (addToRoot aggs (rootOf e.actorA) e) := by
  rw [addToRoot]
  split_ifs with hin
  · exact h.update hin
  · exact h.insert hin

/-- The aggregates, given the root of each account. -/
def addToRoots (rootOf : Uuid → Uuid) (edges : List CrewEdge) : List (Uuid × CrewAgg) :=
  edges.foldl (fun aggs e => addToRoot aggs (rootOf e.actorA) e) []

theorem addToRoots_append_singleton (rootOf : Uuid → Uuid) (edges : List CrewEdge)
    (e : CrewEdge) : addToRoots rootOf (edges ++ [e]) =
      addToRoot (addToRoots rootOf edges) (rootOf e.actorA) e := by
  rw [addToRoots, List.foldl_append]
  rfl

theorem grouped_addToRoots (edges : List CrewEdge) :
    Grouped rootOf edges (addToRoots rootOf edges) := by
  induction edges using List.reverseRecOn with
  | nil => exact grouped_nil
  | append_singleton edges e ih =>
    rw [addToRoots_append_singleton]
    exact ih.add

/-- The searches of the second loop return the roots that the unions left. By induction on the
edges, with what was aggregated before. -/
theorem foldl_aggregateEdge {fuel k : ℕ} {parent : Uuid → Uuid} (hfuel : k ≤ fuel)
    (edges : List CrewEdge) (hforest : Forest parent k) (hroots : ∀ y, parent^[k] y = rootOf y) :
    (edges.foldl (aggregateEdge fuel) (parent, aggs)).2 =
      edges.foldl (fun aggs e => addToRoot aggs (rootOf e.actorA) e) aggs := by
  induction edges generalizing parent aggs with
  | nil => rfl
  | cons e edges ih =>
    obtain ⟨hroot, hforest', hsame⟩ := hforest.found hfuel (x := e.actorA)
    rw [List.foldl_cons, List.foldl_cons, aggregateEdge, hroot, hroots]
    exact ih hforest' fun y => (hsame y).trans (hroots y)

end Aggregates

/-! ## Components -/

section Components

variable {edges : List CrewEdge} {c d : Crew} {x y m : Uuid}

/-- The pairs that the edges connect. -/
def edgePairs (edges : List CrewEdge) : List (Uuid × Uuid) :=
  edges.map fun e => (e.actorA, e.actorB)

/-- The root of an account after all unions. -/
def crewRoot (edges : List CrewEdge) (x : Uuid) : Uuid :=
  (unionAll edges.length (edgePairs edges))^[edges.length] x

theorem connects_edges :
    Connects (unionAll edges.length (edgePairs edges)) edges.length (edgePairs edges) := by
  have hlength : (edgePairs edges).length = edges.length := List.length_map ..
  have hconnects := root_unionAll_iff hlength.le
  rwa [hlength] at hconnects

theorem aggregateEdges_eq :
    (aggregateEdges edges.length (unionAll edges.length (edgePairs edges)) edges).2 =
      addToRoots (crewRoot edges) edges :=
  foldl_aggregateEdge le_rfl edges connects_edges.forest fun _ => rfl

theorem grouped_edges :
    Grouped (crewRoot edges) edges
      (aggregateEdges edges.length (unionAll edges.length (edgePairs edges)) edges).2 := by
  rw [aggregateEdges_eq]
  exact grouped_addToRoots edges

/-- The ends of an edge have one root. -/
theorem crewRoot_eq {e : CrewEdge} (he : e ∈ edges) :
    crewRoot edges e.actorA = crewRoot edges e.actorB :=
  (connects_edges.root_eq_iff _ _).mpr (.rel _ _ (List.mem_map.mpr ⟨e, he, rfl⟩))

/-- A crew is made from an aggregate with two members or more. -/
theorem mem_buildCrews : c ∈ buildCrews edges ↔
    ∃ x ∈ (aggregateEdges edges.length (unionAll edges.length (edgePairs edges)) edges).2,
      2 ≤ x.2.members.length ∧ x.2.toCrew = c := by
  simp only [buildCrews, List.mem_insertionSort, List.mem_map, List.mem_filter, decide_eq_true_eq,
    and_assoc]
  rfl

/-- The members of a crew have one root, which no other crew's members have. -/
theorem exists_root (hc : c ∈ buildCrews edges) : ∃ x ∈ (aggregateEdges edges.length
    (unionAll edges.length (edgePairs edges)) edges).2, x.2.toCrew = c ∧
      ∀ m, m ∈ c.members ↔ ∃ e ∈ edges, crewRoot edges e.actorA = x.1 ∧
        (m = e.actorA ∨ m = e.actorB) := by
  obtain ⟨x, hx, -, rfl⟩ := mem_buildCrews.mp hc
  refine ⟨x, hx, rfl, fun m => ?_⟩
  rw [← grouped_edges.mem_iff x hx m]
  exact List.mem_insertionSort _

theorem Crew.nodup_members (hc : c ∈ buildCrews edges) : c.members.Nodup := by
  obtain ⟨x, hx, -, rfl⟩ := mem_buildCrews.mp hc
  exact (List.perm_insertionSort _ _).nodup_iff.mpr (grouped_edges.nodup x hx)

theorem Crew.two_le_length (hc : c ∈ buildCrews edges) : 2 ≤ c.members.length := by
  obtain ⟨x, -, htwo, rfl⟩ := mem_buildCrews.mp hc
  exact htwo.trans_eq (List.length_insertionSort _ _).symm

/-- The root of a member is that of its aggregate. -/
theorem root_of_mem {root : Uuid}
    (h : ∃ e ∈ edges, crewRoot edges e.actorA = root ∧ (m = e.actorA ∨ m = e.actorB)) :
    crewRoot edges m = root := by
  obtain ⟨e, he, hroot, rfl | rfl⟩ := h
  · exact hroot
  · rw [← crewRoot_eq he, hroot]

/-- **Crews are disjoint.** -/
theorem Crew.eq_of_mem (hc : c ∈ buildCrews edges) (hd : d ∈ buildCrews edges)
    (hmc : m ∈ c.members) (hmd : m ∈ d.members) : c = d := by
  obtain ⟨x, hx, rfl, hxm⟩ := exists_root hc
  obtain ⟨y, hy, rfl, hym⟩ := exists_root hd
  have hroot : x.1 = y.1 :=
    (root_of_mem ((hxm m).mp hmc)).symm.trans (root_of_mem ((hym m).mp hmd))
  rw [List.inj_on_of_nodup_map grouped_edges.keys hx hy hroot]

/-- An account that an edge leads to is connected to another one by an edge. -/
theorem exists_edge_of_eqvGen (h : EqvGen (fun x y => (x, y) ∈ edgePairs edges) x y)
    (hne : x ≠ y) : ∃ e ∈ edges, x = e.actorA ∨ x = e.actorB := by
  -- an account without an edge is connected to itself alone
  have halone : ∀ {x y : Uuid}, EqvGen (fun x y => (x, y) ∈ edgePairs edges) x y → x ≠ y →
      (∃ e ∈ edges, x = e.actorA ∨ x = e.actorB) ∧ ∃ e ∈ edges, y = e.actorA ∨ y = e.actorB := by
    intro x y h
    induction h with
    | rel x y h =>
      obtain ⟨e, he, heq⟩ := List.mem_map.mp h
      obtain ⟨rfl, rfl⟩ := Prod.mk.inj heq
      exact fun _ => ⟨⟨e, he, Or.inl rfl⟩, e, he, Or.inr rfl⟩
    | refl x => exact fun hne => absurd rfl hne
    | symm x y _ ih => exact fun hne => (ih hne.symm).symm
    | trans x y z _ _ ih ih' =>
      intro hne
      by_cases hxy : x = y
      · subst hxy
        exact ih' hne
      · by_cases hyz : y = z
        · subst hyz
          exact ih hxy
        · exact ⟨(ih hxy).1, (ih' hyz).2⟩
  exact (halone h hne).1

/-- **Crews are the connected components.** Two accounts are in one crew exactly when the edges
connect them. -/
theorem exists_crew_iff (hne : x ≠ y) :
    (∃ c ∈ buildCrews edges, x ∈ c.members ∧ y ∈ c.members) ↔
      EqvGen (fun x y => (x, y) ∈ edgePairs edges) x y := by
  rw [← connects_edges.root_eq_iff]
  refine ⟨?_, ?_⟩
  · rintro ⟨c, hc, hx, hy⟩
    obtain ⟨z, -, -, hmem⟩ := exists_root hc
    exact (root_of_mem ((hmem x).mp hx)).trans (root_of_mem ((hmem y).mp hy)).symm
  · intro hroot
    have hconnected := (connects_edges.root_eq_iff x y).mp hroot
    obtain ⟨e, he, hex⟩ := exists_edge_of_eqvGen hconnected hne
    obtain ⟨e', he', hey⟩ := exists_edge_of_eqvGen (.symm _ _ hconnected) hne.symm
    have hrootA : crewRoot edges x = crewRoot edges e.actorA := by
      rcases hex with rfl | rfl
      · rfl
      · exact (crewRoot_eq he).symm
    have hrootB : crewRoot edges y = crewRoot edges e'.actorA := by
      rcases hey with rfl | rfl
      · rfl
      · exact (crewRoot_eq he').symm
    obtain ⟨z, hz, hzroot⟩ := List.mem_map.mp (grouped_edges.covered e he)
    have hxz : x ∈ z.2.members :=
      (grouped_edges.mem_iff z hz x).mpr ⟨e, he, hzroot.symm, hex⟩
    have hyz : y ∈ z.2.members := by
      refine (grouped_edges.mem_iff z hz y).mpr ⟨e', he', ?_, hey⟩
      rw [hzroot, ← hrootB, ← hrootA]
      exact hroot.symm
    have htwo : 2 ≤ z.2.members.length := by
      have hsub : [x, y] ⊆ z.2.members := by
        intro m hm
        rcases List.mem_cons.mp hm with rfl | hm
        · exact hxz
        · exact List.mem_singleton.mp hm ▸ hyz
      have hnodup : [x, y].Nodup := by simpa using hne
      exact (List.subperm_of_subset hnodup hsub).length_le
    refine ⟨z.2.toCrew, mem_buildCrews.mpr ⟨z, hz, htwo, rfl⟩, ?_, ?_⟩
    · exact (List.mem_insertionSort _).mpr hxz
    · exact (List.mem_insertionSort _).mpr hyz

end Components

end Eyenet
