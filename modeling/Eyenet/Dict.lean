import Mathlib.Algebra.BigOperators.Group.List.Basic
import Mathlib.Algebra.GroupWithZero.Nat
import Mathlib.Data.List.Induction
import Mathlib.Data.List.Nodup

/-!
# Dicts

A dict is a list of items under distinct keys, in the order in which the keys came. A key that is
there keeps its place when it gets another value.

* `Dict.lookup_assign` — what a dict says after an assignment.
* `Dict.lookup_gather` — elements that are folded into the entries of their keys: the entry of a key
  is the fold over the elements of that key.
-/

namespace Eyenet

namespace Dict

variable {α κ ν : Type*} [DecidableEq κ] {d : List (κ × ν)} {k k' : κ} {v : ν} {l : List κ}

/-! ## Items -/

theorem mem_iff_lookup (h : (d.map Prod.fst).Nodup) : (k, v) ∈ d ↔ d.lookup k = some v := by
  induction d with
  | nil => simp
  | cons p d ih =>
    obtain ⟨hp, hd⟩ := List.nodup_cons.mp h
    rw [List.lookup_cons, List.mem_cons]
    by_cases hk : k = p.1
    · have hnot : (k, v) ∉ d := fun hmem => hp (hk ▸ List.mem_map_of_mem (f := Prod.fst) hmem)
      subst hk
      simp [hnot, Prod.ext_iff, eq_comm]
    · have hne : (k, v) ≠ p := fun hp => hk (congrArg Prod.fst hp)
      rw [beq_false_of_ne hk]
      simp [hne, ih hd]

theorem lookup_isSome : (d.lookup k).isSome ↔ k ∈ d.map Prod.fst := by
  simp [List.lookup_isSome_iff]

theorem lookup_eq_none : d.lookup k = none ↔ k ∉ d.map Prod.fst := by
  rw [← lookup_isSome, Bool.not_eq_true, Option.isSome_eq_false_iff, Option.isNone_iff_eq_none]

/-! ## Assignments -/

/-- `d[k] = v` -/
def assign (d : List (κ × ν)) (k : κ) (v : ν) : List (κ × ν) :=
  if k ∈ d.map Prod.fst then d.map fun p => if p.1 = k then (k, v) else p else d ++ [(k, v)]

theorem keys_assign (d : List (κ × ν)) (k : κ) (v : ν) : (assign d k v).map Prod.fst =
    if k ∈ d.map Prod.fst then d.map Prod.fst else d.map Prod.fst ++ [k] := by
  rw [assign]
  split_ifs
  · rw [List.map_map]
    refine List.map_congr_left fun p _ => ?_
    by_cases hp : p.1 = k <;> simp [hp]
  · rw [List.map_append, List.map_singleton]

theorem nodup_keys_assign (h : (d.map Prod.fst).Nodup) : ((assign d k v).map Prod.fst).Nodup := by
  rw [keys_assign]
  split_ifs with hin
  · exact h
  · refine List.nodup_append.mpr ⟨h, List.nodup_singleton k, fun k₁ hk₁ k₂ hk₂ => ?_⟩
    rw [List.mem_singleton.mp hk₂]
    exact ne_of_mem_of_not_mem hk₁ hin

@[simp] theorem mem_keys_assign :
    k' ∈ (assign d k v).map Prod.fst ↔ k' = k ∨ k' ∈ d.map Prod.fst := by
  rw [keys_assign]
  split_ifs with hin
  · refine ⟨Or.inr, ?_⟩
    rintro (rfl | h)
    · exact hin
    · exact h
  · rw [List.mem_append, List.mem_singleton, or_comm]

theorem lookup_overwrite (d : List (κ × ν)) (k k' : κ) (v : ν) :
    (d.map fun p => if p.1 = k then (k, v) else p).lookup k' =
      if k' = k then (d.lookup k).map fun _ => v else d.lookup k' := by
  induction d with
  | nil => simp
  | cons p d ih =>
    rw [List.map_cons, List.lookup_cons, ih, List.lookup_cons, List.lookup_cons]
    by_cases hp : p.1 = k
    · by_cases hk : k' = k
      · simp [hp, hk]
      · have hkp : (k' == k) = false := beq_false_of_ne hk
        simp [hp, hk, hkp]
    · have hkp : (k == p.1) = false := beq_false_of_ne (Ne.symm hp)
      by_cases hk : k' = k <;> simp [hp, hk, hkp]

@[simp] theorem lookup_assign (d : List (κ × ν)) (k k' : κ) (v : ν) :
    (assign d k v).lookup k' = if k' = k then some v else d.lookup k' := by
  rw [assign]
  by_cases hin : k ∈ d.map Prod.fst
  · obtain ⟨old, hold⟩ := Option.isSome_iff_exists.mp (lookup_isSome.mpr hin)
    rw [if_pos hin, lookup_overwrite, hold]
    rfl
  · rw [if_neg hin, List.lookup_append]
    by_cases hk : k' = k
    · subst hk
      simp [lookup_eq_none.mpr hin]
    · have hne : (k' == k) = false := beq_false_of_ne hk
      simp [List.lookup_cons, hk, hne]

theorem mem_of_mem_assign {p : κ × ν} (h : p ∈ assign d k v) : p ∈ d ∨ p = (k, v) := by
  rw [assign] at h
  split_ifs at h
  · obtain ⟨q, hq, hp⟩ := List.mem_map.mp h
    split_ifs at hp
    · exact Or.inr hp.symm
    · exact Or.inl (hp ▸ hq)
  · exact (List.mem_append.mp h).imp_right List.mem_singleton.mp

/-! ## Gathering -/

section Gather

variable (key : α → κ) (f : Option ν → α → ν)

/-- Folds each element into the entry of its key, in turn. -/
def gather (l : List α) : List (κ × ν) :=
  l.foldl (fun d a => assign d (key a) (f (d.lookup (key a)) a)) []

theorem gather_append_singleton (l : List α) (a : α) : gather key f (l ++ [a]) =
    assign (gather key f l) (key a) (f ((gather key f l).lookup (key a)) a) := by
  rw [gather, List.foldl_concat]
  rfl

theorem nodup_keys_gather (l : List α) : ((gather key f l).map Prod.fst).Nodup := by
  induction l using List.reverseRec with
  | nil => exact List.nodup_nil
  | append_singleton l a ih =>
    rw [gather_append_singleton]
    exact nodup_keys_assign ih

/-- **The entry of a key** is the fold over the elements of that key. -/
theorem lookup_gather (l : List α) (k : κ) : (gather key f l).lookup k =
    (l.filter fun a => key a = k).foldl (fun o a => some (f o a)) none := by
  induction l using List.reverseRec with
  | nil => rfl
  | append_singleton l a ih =>
    rw [gather_append_singleton, lookup_assign, List.filter_append, List.foldl_append, ← ih]
    by_cases hk : k = key a
    · subst hk
      simp
    · simp [hk, Ne.symm hk]

theorem mem_keys_gather {l : List α} : k ∈ (gather key f l).map Prod.fst ↔ ∃ a ∈ l, key a = k := by
  induction l using List.reverseRec with
  | nil => simp [gather]
  | append_singleton l a ih =>
    rw [gather_append_singleton, mem_keys_assign, ih]
    simp only [List.mem_append, List.mem_singleton]
    grind

end Gather

/-- `d[k] = v`, for each pair in turn. -/
def ofPairs (l : List (κ × ν)) : List (κ × ν) := gather Prod.fst (fun _ p => p.2) l

/-- The last pair of a key decides. -/
theorem lookup_ofPairs (l : List (κ × ν)) (k : κ) :
    (ofPairs l).lookup k = ((l.filter fun p => p.1 = k).getLast?).map Prod.snd := by
  rw [ofPairs, lookup_gather]
  induction l.filter fun p => p.1 = k using List.reverseRec with
  | nil => rfl
  | append_singleton l a ih => rw [List.foldl_concat, List.getLast?_concat, Option.map_some]

theorem ofPairs_append_singleton (l : List (κ × ν)) (k : κ) (v : ν) :
    ofPairs (l ++ [(k, v)]) = assign (ofPairs l) k v := gather_append_singleton Prod.fst _ l (k, v)

theorem mem_keys_ofPairs {l : List (κ × ν)} :
    k ∈ (ofPairs l).map Prod.fst ↔ k ∈ l.map Prod.fst := by
  rw [ofPairs, mem_keys_gather, List.mem_map]

theorem mem_of_mem_ofPairs {l : List (κ × ν)} {p : κ × ν} (h : p ∈ ofPairs l) : p ∈ l := by
  induction l using List.reverseRec with
  | nil => exact h
  | append_singleton l q ih =>
    rw [ofPairs_append_singleton] at h
    rw [List.mem_append, List.mem_singleton]
    exact (mem_of_mem_assign h).imp_left ih

/-- Pairs of distinct keys are the items of their dict. -/
theorem ofPairs_eq_self {l : List (κ × ν)} (h : (l.map Prod.fst).Nodup) : ofPairs l = l := by
  induction l using List.reverseRec with
  | nil => rfl
  | append_singleton l p ih =>
    obtain ⟨k, v⟩ := p
    rw [List.map_append, List.map_singleton] at h
    have hl := ih (List.Nodup.of_append_left h)
    have hnew : k ∉ l.map Prod.fst := fun hk =>
      List.disjoint_of_nodup_append h hk (List.mem_singleton_self k)
    rw [ofPairs_append_singleton, hl, assign, if_neg hnew]

section Weight

variable {w : κ × ν → ℕ}

/-- What is overwritten no longer counts. -/
theorem sum_overwrite (h : (d.map Prod.fst).Nodup) (hk : k ∈ d.map Prod.fst) (hw : ∀ p, 0 < w p) :
    ((d.map fun p => if p.1 = k then (k, v) else p).map w).sum < (d.map w).sum + w (k, v) := by
  induction d with
  | nil => cases hk
  | cons p d ih =>
    rw [List.map_cons, List.nodup_cons] at h
    simp only [List.map_cons, List.sum_cons]
    by_cases hp : p.1 = k
    · have hrest : (d.map fun p => if p.1 = k then (k, v) else p) = d := by
        conv_rhs => rw [← List.map_id d]
        refine List.map_congr_left fun q hq => ?_
        have hne : q.1 ≠ k := fun hq' => h.1 (hp ▸ hq' ▸ List.mem_map_of_mem hq)
        rw [if_neg hne, id_eq]
      have hpos := hw p
      rw [if_pos hp, hrest]
      omega
    · have hlt := ih h.2 ((List.mem_cons.mp hk).resolve_left (Ne.symm hp))
      rw [if_neg hp]
      omega

/-- The items of a dict weigh less than the pairs, if two of them had the same key. -/
theorem sum_ofPairs (hw : ∀ p, 0 < w p) (l : List (κ × ν)) :
    ((ofPairs l).map w).sum ≤ (l.map w).sum ∧
      ((l.map w).sum ≤ ((ofPairs l).map w).sum → (l.map Prod.fst).Nodup) := by
  induction l using List.reverseRec with
  | nil => exact ⟨Nat.zero_le _, fun _ => List.nodup_nil⟩
  | append_singleton l p ih =>
    obtain ⟨hle, hnodup⟩ := ih
    obtain ⟨k₁, v₁⟩ := p
    rw [ofPairs_append_singleton, assign, List.map_append, List.sum_append, List.map_singleton,
      List.sum_singleton]
    split_ifs with hin
    · have hlt : (((ofPairs l).map fun p => if p.1 = k₁ then (k₁, v₁) else p).map w).sum <
          ((ofPairs l).map w).sum + w (k₁, v₁) :=
        sum_overwrite (nodup_keys_gather Prod.fst _ l) hin hw
      exact ⟨by omega, fun h => by omega⟩
    · rw [List.map_append, List.sum_append, List.map_singleton, List.sum_singleton]
      refine ⟨by omega, fun h => ?_⟩
      rw [mem_keys_ofPairs] at hin
      rw [List.map_append, List.map_singleton, List.nodup_append]
      refine ⟨hnodup (by omega), List.nodup_singleton _, fun k hk k' hk' => ?_⟩
      rw [List.mem_singleton.mp hk']
      exact ne_of_mem_of_not_mem hk hin

end Weight

section Tally

variable {M : Type*} [AddMonoid M] (key : α → κ) (c : α → M)

/-- `d[k] = d.get(k, 0) + c`, for each element in turn. -/
def tally (l : List α) : List (κ × M) := gather key (fun o a => o.getD 0 + c a) l

theorem nodup_keys_tally (l : List α) : ((tally key c l).map Prod.fst).Nodup :=
  nodup_keys_gather key _ l

omit [DecidableEq κ] in
theorem foldl_tally (l : List α) (x : M) :
    l.foldl (fun o a => some (o.getD 0 + c a)) (some x) = some (x + (l.map c).sum) := by
  induction l generalizing x with
  | nil => simp
  | cons a l ih =>
    rw [List.foldl_cons, Option.getD_some, ih, List.map_cons, List.sum_cons, add_assoc]

/-- The sum over the elements of a key. -/
theorem lookup_tally {l : List α} {a : α} (ha : a ∈ l) : (tally key c l).lookup (key a) =
    some ((l.filter fun b => key b = key a).map c).sum := by
  rw [tally, lookup_gather]
  have hmem : a ∈ l.filter fun b => key b = key a := List.mem_filter.mpr ⟨ha, by simp⟩
  generalize l.filter (fun b => key b = key a) = bs at hmem
  cases bs with
  | nil => cases hmem
  | cons b bs =>
    rw [List.foldl_cons, foldl_tally, Option.getD_none, zero_add, List.map_cons, List.sum_cons]

end Tally

section Collect

variable {β : Type*} (key : α → κ) (val : α → β)

/-- `d.setdefault(k, []).append(v)`, for each element in turn. -/
def collect (l : List α) : List (κ × List β) := gather key (fun vs a => vs.getD [] ++ [val a]) l

theorem nodup_keys_collect (l : List α) : ((collect key val l).map Prod.fst).Nodup :=
  nodup_keys_gather key _ l

/-- The values of a key, in their order. -/
theorem lookup_collect (l : List α) (k : κ) :
    ((collect key val l).lookup k).getD [] = (l.filter fun a => key a = k).map val := by
  induction l using List.reverseRec with
  | nil => rfl
  | append_singleton l a ih =>
    rw [collect, gather_append_singleton, ← collect, lookup_assign, List.filter_append,
      List.map_append, ← ih]
    by_cases hk : k = key a
    · subst hk
      simp
    · simp [hk, Ne.symm hk]

end Collect

/-- `Counter` -/
def count (l : List κ) : List (κ × ℕ) := gather id (fun o _ => o.getD 0 + 1) l

theorem nodup_keys_count (l : List κ) : ((count l).map Prod.fst).Nodup := nodup_keys_gather id _ l

/-- A count of zero is a key that is not there. -/
theorem lookup_count (l : List κ) (k : κ) :
    (count l).lookup k = if k ∈ l then some (l.countP (· = k)) else none := by
  induction l using List.reverseRec with
  | nil => rfl
  | append_singleton l a ih =>
    rw [count, gather_append_singleton, ← count, lookup_assign, ih, id_eq]
    by_cases hk : k = a
    · subst hk
      by_cases hin : k ∈ l
      · simp [ih, hin]
      · have hzero : l.countP (· = k) = 0 :=
          List.countP_eq_zero.mpr fun a ha => by simpa using ne_of_mem_of_not_mem ha hin
        simp [ih, hin, hzero]
    · simp [hk, Ne.symm hk]

theorem mem_count {n : ℕ} : (k, n) ∈ count l ↔ k ∈ l ∧ l.countP (· = k) = n := by
  rw [mem_iff_lookup (nodup_keys_count l), lookup_count]
  by_cases hin : k ∈ l <;> simp [hin]

end Dict

end Eyenet
