import Mathlib.Data.ENat.Lattice
import Mathlib.Data.Finset.Card
import Mathlib.Data.List.Nodup

/-!
# Breadth-first search to a depth

A search goes over a graph from some roots, in a queue whose entries carry the depth at which they
were found. Whether a node was visited is looked at when it leaves the queue; the successors of a
node at the limit are not looked at.

* `BreadthFirst.Reach` — walks of a length from a root.
* `BreadthFirst.Inv` — the queue is ordered by depth, which makes a visit one at the least depth.
* `BreadthFirst.loop_terminates` — the search ends, in an infinite graph too.
* `BreadthFirst.search_spec` — what it has visited: the nodes within the limit, each once, with its
  distance.
-/

namespace Eyenet

namespace BreadthFirst

variable {α : Type*} (roots : List α) (next : α → List α)

/-- A walk of a length from a root. -/
inductive Reach : ℕ → α → Prop
  | root {a : α} : a ∈ roots → Reach 0 a
  | step {n : ℕ} {a b : α} : Reach n a → b ∈ next a → Reach (n + 1) b

/-- The length of the shortest walk. -/
noncomputable def distance (a : α) : ℕ∞ := ⨅ (n : ℕ) (_ : Reach roots next n a), (n : ℕ∞)

variable {roots next} in
theorem distance_le_iff {n : ℕ} {a : α} :
    distance roots next a ≤ n ↔ ∃ k ≤ n, Reach roots next k a := by
  refine ⟨fun h => ?_, ?_⟩
  · by_contra hnot
    have hle : ((n + 1 : ℕ) : ℕ∞) ≤ distance roots next a := by
      refine le_iInf fun k => le_iInf fun hk => ENat.natCast_le_natCast.mpr ?_
      by_contra hlt
      exact hnot ⟨k, by omega, hk⟩
    have hle' := ENat.natCast_le_natCast.mp (hle.trans h)
    omega
  · rintro ⟨k, hk, hreach⟩
    exact (iInf_le_of_le k (iInf_le_of_le hreach le_rfl)).trans (ENat.natCast_le_natCast.mpr hk)

variable [DecidableEq α] (limit : ℕ)

/-- Takes the entries from the queue in turn; a node that was visited is left out. -/
def loop : ℕ → List (α × ℕ) → List (α × ℕ) → Option (List (α × ℕ))
  | _, [], visited => some visited
  | 0, _ :: _, _ => none
  | fuel + 1, (a, depth) :: queue, visited =>
    if a ∈ visited.map Prod.fst then loop fuel queue visited
    else if limit ≤ depth then loop fuel queue (visited ++ [(a, depth)])
    else
      let unseen := (next a).filter (· ∉ (visited ++ [(a, depth)]).map Prod.fst)
      loop fuel (queue ++ unseen.map fun b => (b, depth + 1)) (visited ++ [(a, depth)])

/-- What the search visits, in turn, and the depth of each. -/
def search (fuel : ℕ) : Option (List (α × ℕ)) :=
  loop next limit fuel (roots.map fun a => (a, 0)) []

/-- The nodes within a number of steps. -/
def ball : ℕ → List α
  | 0 => roots
  | n + 1 => ball n ++ (ball n).flatMap next

variable {roots next limit} {queue visited found : List (α × ℕ)} {fuel : ℕ}

/-- More fuel changes nothing. -/
theorem loop_mono {fuel' : ℕ} (hle : fuel ≤ fuel')
    (h : loop next limit fuel queue visited = some found) :
    loop next limit fuel' queue visited = some found := by
  induction fuel generalizing fuel' queue visited with
  | zero =>
    cases queue with
    | nil => cases fuel' <;> exact h
    | cons entry queue => cases h
  | succ fuel ih =>
    cases queue with
    | nil => cases fuel' <;> exact h
    | cons entry queue =>
      obtain ⟨fuel', rfl⟩ : ∃ k, fuel' = k + 1 := ⟨fuel' - 1, by omega⟩
      have hle' : fuel ≤ fuel' := by omega
      obtain ⟨a, depth⟩ := entry
      rw [loop] at h ⊢
      split_ifs at h ⊢ with hseen hlimit
      · exact ih hle' h
      · exact ih hle' h
      · exact ih hle' h

omit [DecidableEq α] in
theorem Reach.mem_ball {n : ℕ} {a : α} (h : Reach roots next n a) : a ∈ ball roots next n := by
  induction h with
  | root h => exact h
  | step h hnext ih => exact List.mem_append_right _ (List.mem_flatMap.mpr ⟨_, ih, hnext⟩)

omit [DecidableEq α] in
theorem ball_mono {n m : ℕ} (h : n ≤ m) : ball roots next n ⊆ ball roots next m := by
  induction m, h using Nat.le_induction with
  | base => exact List.Subset.refl _
  | succ m hm ih => exact fun a ha => List.mem_append_left _ (ih ha)

/-! ## The invariant -/

/-- A node is visited within a depth, or queued with that depth. -/
def Met (queue visited : List (α × ℕ)) (n : ℕ) (a : α) : Prop :=
  (∃ k ≤ n, (a, k) ∈ visited) ∨ (a, n) ∈ queue

variable (roots next limit) in
/-- The queue is ordered by depth and holds two depths at most, the visited nodes are not deeper,
and the successors of what was visited above the limit have been met one step deeper. -/
structure Inv (queue visited : List (α × ℕ)) : Prop where
  nodup : (visited.map Prod.fst).Nodup
  ordered : queue.Pairwise fun p q => p.2 ≤ q.2
  narrow : ∀ p ∈ queue, ∀ q ∈ queue, q.2 ≤ p.2 + 1
  passed : ∀ p ∈ visited, ∀ q ∈ queue, p.2 ≤ q.2
  reach : ∀ p, p ∈ visited ∨ p ∈ queue → Reach roots next p.2 p.1 ∧ p.2 ≤ limit
  roots_met : ∀ a ∈ roots, Met queue visited 0 a
  next_met : ∀ p ∈ visited, p.2 < limit → ∀ b ∈ next p.1, Met queue visited (p.2 + 1) b

omit [DecidableEq α] in
theorem inv_init (roots : List α) (next : α → List α) (limit : ℕ) :
    Inv roots next limit (roots.map fun a => (a, 0)) [] where
  nodup := List.nodup_nil
  ordered := List.pairwise_map.mpr (List.pairwise_of_forall fun _ _ => le_rfl)
  narrow p hp q hq := by
    obtain ⟨a, -, rfl⟩ := List.mem_map.mp hq
    exact Nat.zero_le _
  passed p hp := absurd hp List.not_mem_nil
  reach p hp := by
    obtain ⟨a, ha, rfl⟩ := List.mem_map.mp (hp.resolve_left List.not_mem_nil)
    exact ⟨.root ha, Nat.zero_le limit⟩
  roots_met a ha := Or.inr (List.mem_map.mpr ⟨a, ha, rfl⟩)
  next_met p hp := absurd hp List.not_mem_nil

variable {a : α} {depth : ℕ}

omit [DecidableEq α] in
/-- A visited node that leaves the queue was visited no deeper. -/
theorem Inv.skip (h : Inv roots next limit ((a, depth) :: queue) visited)
    (hseen : a ∈ visited.map Prod.fst) : Inv roots next limit queue visited := by
  obtain ⟨⟨a', k⟩, hk, rfl⟩ := List.mem_map.mp hseen
  have hle : k ≤ depth := h.passed _ hk _ List.mem_cons_self
  have hmet {n : ℕ} {b : α} (hb : Met ((a', depth) :: queue) visited n b) :
      Met queue visited n b := by
    rcases hb with hb | hb
    · exact Or.inl hb
    · rcases List.mem_cons.mp hb with hb | hb
      · obtain ⟨rfl, rfl⟩ := Prod.mk.inj hb
        exact Or.inl ⟨k, hle, hk⟩
      · exact Or.inr hb
  exact
    { nodup := h.nodup
      ordered := (List.pairwise_cons.mp h.ordered).2
      narrow := fun p hp q hq =>
        h.narrow p (List.mem_cons_of_mem _ hp) q (List.mem_cons_of_mem _ hq)
      passed := fun p hp q hq => h.passed p hp q (List.mem_cons_of_mem _ hq)
      reach := fun p hp => h.reach p (hp.imp_right (List.mem_cons_of_mem _))
      roots_met := fun b hb => hmet (h.roots_met b hb)
      next_met := fun p hp hlt b hb => hmet (h.next_met p hp hlt b hb) }

omit [DecidableEq α] in
/-- A node that is visited, with the successors that go to the queue. -/
theorem Inv.visit (h : Inv roots next limit ((a, depth) :: queue) visited)
    (hnew : a ∉ visited.map Prod.fst) {bs : List α}
    (hbs : ∀ b ∈ bs, b ∈ next a ∧ depth < limit)
    (hnext : depth < limit → ∀ b ∈ next a,
      b ∈ bs ∨ b ∈ (visited ++ [(a, depth)]).map Prod.fst) :
    Inv roots next limit (queue ++ bs.map fun b => (b, depth + 1)) (visited ++ [(a, depth)]) := by
  have hreach := (h.reach (a, depth) (Or.inr List.mem_cons_self)).1
  have hdepth : ∀ p ∈ visited ++ [(a, depth)], p.2 ≤ depth := by
    intro p hp
    rcases List.mem_append.mp hp with hp | hp
    · exact h.passed p hp _ List.mem_cons_self
    · rw [List.mem_singleton.mp hp]
  have hqueue : ∀ q ∈ queue ++ bs.map fun b => (b, depth + 1), depth ≤ q.2 ∧ q.2 ≤ depth + 1 := by
    intro q hq
    rcases List.mem_append.mp hq with hq | hq
    · exact ⟨(List.pairwise_cons.mp h.ordered).1 q hq,
        h.narrow _ List.mem_cons_self q (List.mem_cons_of_mem _ hq)⟩
    · obtain ⟨b, -, rfl⟩ := List.mem_map.mp hq
      exact ⟨Nat.le_succ depth, le_rfl⟩
  have hmet {n : ℕ} {b : α} (hb : Met ((a, depth) :: queue) visited n b) :
      Met (queue ++ bs.map fun b => (b, depth + 1)) (visited ++ [(a, depth)]) n b := by
    rcases hb with ⟨k, hk, hb⟩ | hb
    · exact Or.inl ⟨k, hk, List.mem_append_left _ hb⟩
    · rcases List.mem_cons.mp hb with hb | hb
      · obtain ⟨rfl, rfl⟩ := Prod.mk.inj hb
        exact Or.inl ⟨n, le_rfl, List.mem_append_right _ (List.mem_singleton_self _)⟩
      · exact Or.inr (List.mem_append_left _ hb)
  refine
    { nodup := ?_
      ordered := ?_
      narrow := fun p hp q hq => (hqueue q hq).2.trans (Nat.succ_le_succ (hqueue p hp).1)
      passed := fun p hp q hq => (hdepth p hp).trans (hqueue q hq).1
      reach := ?_
      roots_met := fun b hb => hmet (h.roots_met b hb)
      next_met := ?_ }
  · rw [List.map_append, List.nodup_append]
    refine ⟨h.nodup, List.nodup_singleton _, fun b hb b' hb' => ?_⟩
    rw [List.mem_singleton.mp hb']
    exact ne_of_mem_of_not_mem hb hnew
  · refine List.pairwise_append.mpr ⟨(List.pairwise_cons.mp h.ordered).2, ?_, ?_⟩
    · exact List.pairwise_map.mpr (List.pairwise_of_forall fun _ _ => le_rfl)
    · intro p hp q hq
      obtain ⟨b, -, rfl⟩ := List.mem_map.mp hq
      exact (hqueue p (List.mem_append_left _ hp)).2
  · rintro p (hp | hp)
    · rcases List.mem_append.mp hp with hp | hp
      · exact h.reach p (Or.inl hp)
      · rw [List.mem_singleton.mp hp]
        exact h.reach _ (Or.inr List.mem_cons_self)
    · rcases List.mem_append.mp hp with hp | hp
      · exact h.reach p (Or.inr (List.mem_cons_of_mem _ hp))
      · obtain ⟨b, hb, rfl⟩ := List.mem_map.mp hp
        exact ⟨.step hreach (hbs b hb).1, (hbs b hb).2⟩
  · intro p hp hlt b hb
    rcases List.mem_append.mp hp with hp | hp
    · exact hmet (h.next_met p hp hlt b hb)
    · obtain rfl := List.mem_singleton.mp hp
      rcases hnext hlt b hb with hb' | hb'
      · exact Or.inr (List.mem_append_right _ (List.mem_map.mpr ⟨b, hb', rfl⟩))
      · obtain ⟨⟨b', k⟩, hk, rfl⟩ := List.mem_map.mp hb'
        exact Or.inl ⟨k, (hdepth _ hk).trans (Nat.le_succ depth), hk⟩

/-- What one turn of the loop does to the invariant. -/
theorem Inv.turn (h : Inv roots next limit ((a, depth) :: queue) visited)
    (hnew : a ∉ visited.map Prod.fst) (hlimit : depth < limit) :
    Inv roots next limit
      (queue ++ ((next a).filter (· ∉ (visited ++ [(a, depth)]).map Prod.fst)).map
        fun b => (b, depth + 1)) (visited ++ [(a, depth)]) := by
  refine h.visit hnew (fun b hb => ⟨List.mem_of_mem_filter hb, hlimit⟩) fun _ b hb => ?_
  by_cases hseen : b ∈ (visited ++ [(a, depth)]).map Prod.fst
  · exact Or.inr hseen
  · exact Or.inl (List.mem_filter.mpr ⟨hb, decide_eq_true hseen⟩)

omit [DecidableEq α] in
/-- At the limit no successor goes to the queue. -/
theorem Inv.last (h : Inv roots next limit ((a, depth) :: queue) visited)
    (hnew : a ∉ visited.map Prod.fst) (hlimit : limit ≤ depth) :
    Inv roots next limit queue (visited ++ [(a, depth)]) := by
  have hvisit : Inv roots next limit (queue ++ ([] : List α).map fun b => (b, depth + 1))
      (visited ++ [(a, depth)]) := by
    apply h.visit hnew
    · exact fun b hb => absurd hb List.not_mem_nil
    · exact fun hlt => absurd hlt (not_lt.mpr hlimit)
  rwa [List.map_nil, List.append_nil] at hvisit

/-- What a run of the loop does to the invariant. -/
theorem Inv.loop (h : Inv roots next limit queue visited)
    (hloop : loop next limit fuel queue visited = some found) : Inv roots next limit [] found := by
  induction fuel generalizing queue visited with
  | zero =>
    cases queue with
    | nil =>
      obtain rfl := Option.some.inj hloop
      exact h
    | cons entry queue => cases hloop
  | succ fuel ih =>
    cases queue with
    | nil =>
      obtain rfl := Option.some.inj hloop
      exact h
    | cons entry queue =>
      obtain ⟨a, depth⟩ := entry
      rw [BreadthFirst.loop] at hloop
      split_ifs at hloop with hseen hlimit
      · exact ih (h.skip hseen) hloop
      · exact ih (h.last hseen hlimit) hloop
      · exact ih (h.turn hseen (not_le.mp hlimit)) hloop

/-! ## The end -/

omit [DecidableEq α] in
/-- With an empty queue, every walk within the limit leads to a node that was visited no deeper. -/
theorem Inv.complete (h : Inv roots next limit [] found) {n : ℕ} (hreach : Reach roots next n a)
    (hn : n ≤ limit) : ∃ k ≤ n, (a, k) ∈ found := by
  have hmet {n : ℕ} {a : α} (hm : Met [] found n a) : ∃ k ≤ n, (a, k) ∈ found :=
    hm.resolve_right List.not_mem_nil
  induction hreach with
  | root ha => exact hmet (h.roots_met _ ha)
  | step hreach hb ih =>
    obtain ⟨k, hk, hmem⟩ := ih (by omega)
    obtain ⟨k', hk', hmem'⟩ := hmet (h.next_met _ hmem (by omega) _ hb)
    exact ⟨k', by omega, hmem'⟩

omit [DecidableEq α] in
/-- What is visited has its distance. -/
theorem Inv.mem_iff (h : Inv roots next limit [] found) {k : ℕ} :
    (a, k) ∈ found ↔ IsLeast {n | Reach roots next n a} k ∧ k ≤ limit := by
  refine ⟨fun hmem => ?_, ?_⟩
  · obtain ⟨hreach, hk⟩ := h.reach _ (Or.inl hmem)
    refine ⟨⟨hreach, fun n hn => ?_⟩, hk⟩
    by_contra hlt
    obtain ⟨j, hj, hmem'⟩ := h.complete hn (by omega)
    have hsame := List.inj_on_of_nodup_map h.nodup hmem hmem' rfl
    have hjk : k = j := congrArg Prod.snd hsame
    omega
  · rintro ⟨⟨hreach, hleast⟩, hk⟩
    obtain ⟨j, hj, hmem⟩ := h.complete hreach hk
    obtain rfl : j = k := le_antisymm hj (hleast (h.reach _ (Or.inl hmem)).1)
    exact hmem

/-- **The search ends**: a turn shortens the queue or visits one more node of the ball. -/
theorem loop_terminates (h : Inv roots next limit queue visited) :
    ∃ fuel found, loop next limit fuel queue visited = some found := by
  induction hcard : ((ball roots next limit).toFinset \ (visited.map Prod.fst).toFinset).card
    using Nat.strong_induction_on generalizing queue visited with
  | _ n ih =>
    induction queue with
    | nil => exact ⟨0, visited, rfl⟩
    | cons entry queue ihqueue =>
      obtain ⟨a, depth⟩ := entry
      by_cases hseen : a ∈ visited.map Prod.fst
      · obtain ⟨fuel, found, hloop⟩ := ihqueue (h.skip hseen)
        refine ⟨fuel + 1, found, ?_⟩
        rw [loop, if_pos hseen, hloop]
      · have hless : ((ball roots next limit).toFinset \
            ((visited ++ [(a, depth)]).map Prod.fst).toFinset).card < n := by
          obtain ⟨hreach, hle⟩ := h.reach (a, depth) (Or.inr List.mem_cons_self)
          rw [← hcard]
          refine Finset.card_lt_card (Finset.ssubset_iff_of_subset ?_ |>.mpr ⟨a, ?_, ?_⟩)
          · intro b hb
            simp only [Finset.mem_sdiff, List.mem_toFinset, List.map_append, List.mem_append,
              not_or] at hb ⊢
            exact ⟨hb.1, hb.2.1⟩
          · rw [Finset.mem_sdiff, List.mem_toFinset, List.mem_toFinset]
            exact ⟨ball_mono hle hreach.mem_ball, hseen⟩
          · simp
        by_cases hlimit : limit ≤ depth
        · obtain ⟨fuel, found, hloop⟩ := ih _ hless (h.last hseen hlimit) rfl
          refine ⟨fuel + 1, found, ?_⟩
          rw [loop, if_neg hseen, if_pos hlimit, hloop]
        · obtain ⟨fuel, found, hloop⟩ := ih _ hless (h.turn hseen (not_le.mp hlimit)) rfl
          refine ⟨fuel + 1, found, ?_⟩
          rw [loop, if_neg hseen, if_neg hlimit]
          exact hloop

/-- **The search** ends, and has visited each node within the limit once, at its distance. -/
theorem search_spec (roots : List α) (next : α → List α) (limit : ℕ) : ∃ fuel found,
    (∀ fuel' ≥ fuel, search roots next limit fuel' = some found) ∧ (found.map Prod.fst).Nodup ∧
      ∀ a k, (a, k) ∈ found ↔ IsLeast {n | Reach roots next n a} k ∧ k ≤ limit := by
  obtain ⟨fuel, found, hloop⟩ := loop_terminates (inv_init roots next limit)
  have hinv := (inv_init roots next limit).loop hloop
  exact ⟨fuel, found, fun fuel' hle => loop_mono hle hloop, hinv.nodup, fun a k => hinv.mem_iff⟩

omit [DecidableEq α] in
/-- The nodes that are visited are those within the limit. -/
theorem mem_visited_iff (h : ∀ a k, (a, k) ∈ found ↔
      IsLeast {n | Reach roots next n a} k ∧ k ≤ limit) :
    a ∈ found.map Prod.fst ↔ distance roots next a ≤ limit := by
  rw [distance_le_iff]
  refine ⟨fun hmem => ?_, ?_⟩
  · obtain ⟨⟨a, k⟩, hk, rfl⟩ := List.mem_map.mp hmem
    obtain ⟨hleast, hle⟩ := (h a k).mp hk
    exact ⟨k, hle, hleast.1⟩
  · rintro ⟨n, hle, hreach⟩
    have hleast : IsLeast {n | Reach roots next n a} (sInf {n | Reach roots next n a}) :=
      ⟨Nat.sInf_mem ⟨n, hreach⟩, fun _ hm => Nat.sInf_le hm⟩
    exact List.mem_map_of_mem ((h a _).mpr ⟨hleast, (hleast.2 hreach).trans hle⟩)

end BreadthFirst

end Eyenet
