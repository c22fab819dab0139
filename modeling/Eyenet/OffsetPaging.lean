import Mathlib.Data.List.Nodup
import Mathlib.Data.List.Sort
import Mathlib.Order.Basic

/-!
# Paging by offset

Rows are asked for page by page, in descending order of a key: page `k` of size `l` skips `k * l`
rows and takes `l`. Each request sorts anew, and rows of one key may come in another order each
time.

* `OffsetPaging.take_perm` — a cut that no key straddles holds the same rows in every order.
* `OffsetPaging.pages_complete_iff` — the pages hold every row once, whatever the orders, exactly
  when no key straddles the end of a page.
* `OffsetPaging.mem_windows_of_growing` and `OffsetPaging.nodup_windows_of_shrinking` — what the
  pages show of a list that changes between them.
-/

namespace Eyenet

open scoped List

namespace OffsetPaging

variable {α κ : Type*} [LinearOrder κ] (key : α → κ)

/-- An order in which the rows may come: descending by key. -/
structure IsOrder (rows sorted : List α) : Prop where
  perm : sorted.Perm rows
  sorted : sorted.Pairwise fun a b => key b ≤ key a

/-- A page of the rows, in some order. -/
def IsPage (rows : List α) (offset limit : ℕ) (page : List α) : Prop :=
  ∃ sorted, IsOrder key rows sorted ∧ page = (sorted.drop offset).take limit

/-- Some rows of this key are among the first `n`, and some are not. -/
def Straddles (rows : List α) (n : ℕ) (k : κ) : Prop :=
  rows.countP (fun a => k < key a) < n ∧ n < rows.countP fun a => k ≤ key a

variable {key} {rows sorted sorted' : List α} {n l : ℕ}

/-! ## Cuts -/

theorem exists_isOrder (key : α → κ) (rows : List α) : ∃ sorted, IsOrder key rows sorted := by
  refine ⟨rows.mergeSort fun a b => decide (key b ≤ key a), List.mergeSort_perm _ _, ?_⟩
  have h : (rows.mergeSort fun a b => decide (key b ≤ key a)).Pairwise
      fun a b => decide (key b ≤ key a) = true := by
    apply List.pairwise_mergeSort
    · intro a b c hab hbc
      rw [decide_eq_true_eq] at hab hbc ⊢
      exact hbc.trans hab
    · intro a b
      rw [Bool.or_eq_true, decide_eq_true_eq, decide_eq_true_eq]
      exact le_total _ _
  exact h.imp of_decide_eq_true

section Upward

variable {p : κ → Bool} (hp : ∀ {k k' : κ}, k ≤ k' → p k = true → p k' = true)

include hp

/-- In descending order the rows that an upward predicate accepts come first. -/
theorem filter_eq_take (h : sorted.Pairwise fun a b => key b ≤ key a) :
    sorted.filter (fun a => p (key a)) = sorted.take (sorted.countP fun a => p (key a)) := by
  induction sorted with
  | nil => rfl
  | cons a sorted ih =>
    obtain ⟨hhead, htail⟩ := List.pairwise_cons.mp h
    by_cases ha : p (key a) = true
    · rw [List.filter_cons_of_pos (p := fun a => p (key a)) ha,
        List.countP_cons_of_pos (p := fun a => p (key a)) ha, List.take_succ_cons, ih htail]
    · have hnone : ∀ b ∈ sorted, ¬p (key b) = true := fun b hb hpb => ha (hp (hhead b hb) hpb)
      rw [List.filter_cons_of_neg (p := fun a => p (key a)) ha,
        List.countP_cons_of_neg (p := fun a => p (key a)) ha, List.countP_eq_zero.mpr hnone,
        List.take_zero, List.filter_eq_nil_iff.mpr hnone]

theorem lt_countP_iff (h : sorted.Pairwise fun a b => key b ≤ key a) {i : ℕ}
    (hi : i < sorted.length) :
    i < sorted.countP (fun a => p (key a)) ↔ p (key sorted[i]) = true := by
  have hfirst := filter_eq_take hp h
  constructor
  · intro hlt
    have hmem : sorted[i] ∈ sorted.take (sorted.countP fun a => p (key a)) :=
      List.mem_take_iff_getElem.mpr ⟨i, by omega, rfl⟩
    rw [← hfirst] at hmem
    exact (List.mem_filter.mp hmem).2
  · intro hpi
    by_contra hge
    -- the rows before this one are as large, and are too many
    have hall : ∀ b ∈ sorted.take (i + 1), p (key b) = true := by
      intro b hb
      obtain ⟨j, hj, rfl⟩ := List.mem_take_iff_getElem.mp hb
      rcases Nat.lt_or_ge j i with hlt | hle
      · exact hp (List.pairwise_iff_getElem.mp h j i (by omega) hi hlt) hpi
      · obtain rfl : j = i := by omega
        exact hpi
    have hcount := (List.take_sublist (i + 1) sorted).countP_le (p := fun a => p (key a))
    rw [List.countP_eq_length.mpr hall, List.length_take_of_le hi] at hcount
    omega

end Upward

theorem upward_le (k : κ) {k' k'' : κ} (h : k' ≤ k'') (hk : decide (k ≤ k') = true) :
    decide (k ≤ k'') = true :=
  decide_eq_true ((of_decide_eq_true hk).trans h)

theorem upward_lt (k : κ) {k' k'' : κ} (h : k' ≤ k'') (hk : decide (k < k') = true) :
    decide (k < k'') = true :=
  decide_eq_true ((of_decide_eq_true hk).trans_le h)

/-- A cut within the rows that no key straddles lies right after the rows from some key on. -/
theorem exists_countP_eq (h : IsOrder key rows sorted) (hpos : 0 < n) (hn : n ≤ rows.length)
    (hcut : ∀ k, ¬Straddles key rows n k) : ∃ k, rows.countP (fun a => k ≤ key a) = n := by
  have hlen : n - 1 < sorted.length := by
    rw [h.perm.length_eq]
    omega
  refine ⟨key sorted[n - 1], ?_⟩
  have hlow : n - 1 < rows.countP fun a => key sorted[n - 1] ≤ key a := by
    rw [← h.perm.countP_eq]
    exact (lt_countP_iff (upward_le _) h.sorted hlen).mpr (decide_eq_true le_rfl)
  have hup : ¬n - 1 < rows.countP fun a => key sorted[n - 1] < key a := by
    rw [← h.perm.countP_eq]
    intro hlt
    have hself := (lt_countP_iff (upward_lt _) h.sorted hlen).mp hlt
    exact lt_irrefl _ (of_decide_eq_true hself)
  apply Nat.le_antisymm
  · exact not_lt.mp fun hlt => hcut _ ⟨by omega, hlt⟩
  · omega

/-- A key that straddles a cut is that of the rows on both sides of it. -/
theorem Straddles.key_eq {k : κ} (hk : Straddles key rows n k) (h : IsOrder key rows sorted)
    (hpos : 0 < n) : ∃ (A B : List α) (x y : α), sorted = A ++ x :: y :: B ∧
      A.length + 1 = n ∧ key x = k ∧ key y = k := by
  obtain ⟨hfew, hmany⟩ := hk
  have hn : n < sorted.length := by
    rw [h.perm.length_eq]
    exact hmany.trans_le List.countP_le_length
  have hn' : n - 1 < sorted.length := by omega
  rw [← h.perm.countP_eq] at hfew hmany
  have hle : ¬k < key sorted[n - 1] := by
    intro hlt
    have hcount := (lt_countP_iff (upward_lt k) h.sorted hn').mpr (decide_eq_true hlt)
    omega
  have hge : k ≤ key sorted[n] :=
    of_decide_eq_true ((lt_countP_iff (upward_le k) h.sorted hn).mp hmany)
  have hpair : key sorted[n] ≤ key sorted[n - 1] :=
    List.pairwise_iff_getElem.mp h.sorted (n - 1) n hn' hn (by omega)
  refine ⟨sorted.take (n - 1), sorted.drop (n + 1), sorted[n - 1], sorted[n], ?_, ?_, ?_, ?_⟩
  · have hsucc : n - 1 + 1 = n := by omega
    conv_lhs => rw [← List.take_append_drop (n - 1) sorted]
    rw [List.drop_eq_getElem_cons hn', hsucc, List.drop_eq_getElem_cons hn]
  · rw [List.length_take_of_le hn'.le]
    omega
  · exact le_antisymm (not_lt.mp hle) (hge.trans hpair)
  · exact le_antisymm (hpair.trans (not_lt.mp hle)) hge

/-- A cut that no key straddles holds the same rows in every order. -/
theorem take_perm (h : IsOrder key rows sorted) (h' : IsOrder key rows sorted')
    (hcut : n < rows.length → 0 < n → ∀ k, ¬Straddles key rows n k) :
    (sorted.take n).Perm (sorted'.take n) := by
  rcases Nat.lt_or_ge n rows.length with hn | hn
  · rcases Nat.eq_zero_or_pos n with rfl | hpos
    · rw [List.take_zero, List.take_zero]
    · obtain ⟨k, hk⟩ := exists_countP_eq h hpos hn.le (hcut hn hpos)
      have htake : ∀ {s : List α}, IsOrder key rows s → s.take n = s.filter fun a => k ≤ key a := by
        intro s hs
        rw [filter_eq_take (upward_le k) hs.sorted, hs.perm.countP_eq, hk]
      rw [htake h, htake h']
      exact (h.perm.trans h'.perm.symm).filter _
  · rw [List.take_of_length_le (by rw [h.perm.length_eq]; exact hn),
      List.take_of_length_le (by rw [h'.perm.length_eq]; exact hn)]
    exact h.perm.trans h'.perm.symm

/-! ## Pages -/

/-- The rows that straddle a cut can change places across it. -/
theorem Straddles.exists_swapped {k : κ} (hk : Straddles key rows n k) (hpos : 0 < n) :
    ∃ A B x y, IsOrder key rows (A ++ x :: y :: B) ∧ IsOrder key rows (A ++ y :: x :: B) ∧
      A.length + 1 = n := by
  obtain ⟨sorted, h⟩ := exists_isOrder key rows
  obtain ⟨A, B, x, y, rfl, hlen, hx, hy⟩ := hk.key_eq h hpos
  refine ⟨A, B, x, y, h, ⟨?_, ?_⟩, hlen⟩
  · exact ((List.Perm.swap x y B).append_left A).trans h.perm
  · have hsorted := h.sorted
    simp only [List.pairwise_append, List.pairwise_cons, List.mem_cons,
      forall_eq_or_imp] at hsorted ⊢
    obtain ⟨hA, ⟨⟨-, hxB⟩, hyB, hB⟩, hcross⟩ := hsorted
    refine ⟨hA, ⟨⟨?_, hyB⟩, hxB, hB⟩, ?_⟩
    · rw [hx, hy]
    · intro a ha
      obtain ⟨hax, hay, haB⟩ := hcross a ha
      exact ⟨hay, hax, haB⟩

theorem mem_page {i o : ℕ} {x : α} (h : sorted[i]? = some x) (hlow : o ≤ i) (hup : i < o + l) :
    x ∈ (sorted.drop o).take l := by
  apply List.mem_of_getElem? (i := i - o)
  rw [List.getElem?_take_of_lt (by omega), List.getElem?_drop, Nat.add_sub_cancel' hlow, h]

/-- The pages up to a cut hold the rows before it. -/
theorem flatMap_pages_perm (hsorted : IsOrder key rows sorted) {pages : ℕ → List α}
    (hpages : ∀ k, IsPage key rows (k * l) l (pages k))
    (hcut : ∀ k, 0 < k → k * l < rows.length → ∀ t, ¬Straddles key rows (k * l) t) (m : ℕ) :
    ((List.range m).flatMap pages).Perm (sorted.take (m * l)) := by
  have hcut' : ∀ k, k * l < rows.length → 0 < k * l → ∀ t, ¬Straddles key rows (k * l) t :=
    fun k hk hpos => hcut k (Nat.pos_of_mul_pos_right hpos) hk
  induction m with
  | zero => simp
  | succ m ih =>
    obtain ⟨sorted', hsorted', hpage⟩ := hpages m
    have hsplit : sorted'.take ((m + 1) * l) = sorted'.take (m * l) ++ pages m := by
      rw [Nat.succ_mul, List.take_add, hpage]
    rw [List.range_succ, List.flatMap_append, List.flatMap_singleton]
    calc
      _ ~ sorted.take (m * l) ++ pages m := ih.append_right _
      _ ~ sorted'.take (m * l) ++ pages m :=
        (take_perm hsorted hsorted' (hcut' m)).append_right _
      _ = sorted'.take ((m + 1) * l) := hsplit.symm
      _ ~ sorted.take ((m + 1) * l) := take_perm hsorted' hsorted (hcut' (m + 1))

/-- The pages hold every row once, in whatever orders they come, exactly when no key straddles the
end of a page. -/
theorem pages_complete_iff (hnodup : rows.Nodup) (hl : 0 < l) :
    (∀ pages : ℕ → List α, (∀ k, IsPage key rows (k * l) l (pages k)) →
      ∀ m, rows.length ≤ m * l → ((List.range m).flatMap pages).Perm rows) ↔
    ∀ k, 0 < k → k * l < rows.length → ∀ t, ¬Straddles key rows (k * l) t := by
  constructor
  · intro hall k hk hlt t hstraddles
    obtain ⟨A, B, x, y, h, h', hlen⟩ := hstraddles.exists_swapped (Nat.mul_pos hk hl)
    have hk' : k < rows.length := (Nat.le_mul_of_pos_right k hl).trans_lt hlt
    -- the row before the cut is asked for again, now after it
    have hperm := hall (fun j => (((if j = k then A ++ y :: x :: B else A ++ x :: y :: B).drop
      (j * l)).take l)) ?_ rows.length (Nat.le_mul_of_pos_right _ hl)
    · have hnodup' := hperm.nodup_iff.mpr hnodup
      have hdisjoint := List.pairwise_iff_getElem.mp (List.nodup_flatMap.mp hnodup').2 (k - 1) k
        (by rw [List.length_range]; omega) (by rw [List.length_range]; exact hk')
        (by omega)
      simp only [Function.onFun, List.getElem_range, if_true] at hdisjoint
      rw [if_neg (by omega)] at hdisjoint
      have hprev : (k - 1) * l + l = k * l := by
        rw [← Nat.succ_mul, Nat.succ_eq_add_one, Nat.sub_add_cancel hk]
      refine hdisjoint (a := x) (mem_page (i := A.length) ?_ (by omega) (by omega))
        (mem_page (i := A.length + 1) ?_ (by omega) (by omega))
      · simp
      · simp
    · intro j
      by_cases hj : j = k
      · exact ⟨_, h', by rw [if_pos hj]⟩
      · exact ⟨_, h, by rw [if_neg hj]⟩
  · intro hcut pages hpages m hm
    obtain ⟨sorted, h⟩ := exists_isOrder key rows
    have hperm := flatMap_pages_perm h hpages hcut m
    rw [List.take_of_length_le (by rw [h.perm.length_eq]; exact hm)] at hperm
    exact hperm.trans h.perm

/-! ## Lists that change between the pages -/

section Changing

variable {lists : ℕ → List α} {xs ys : List α} {x : α} {l m : ℕ}

/-- The pages of one list, in a row. -/
theorem flatMap_windows (xs : List α) (l n : ℕ) :
    ((List.range n).flatMap fun i => (xs.drop (i * l)).take l) = xs.take (n * l) := by
  induction n with
  | zero => simp
  | succ n ih =>
    rw [List.range_succ, List.flatMap_append, List.flatMap_singleton, ih, Nat.succ_mul,
      List.take_add]

/-- In a longer list, an element stands no further to the front. -/
theorem idxOf_le_of_sublist [DecidableEq α] (h : xs.Sublist ys) (hnodup : ys.Nodup) (hx : x ∈ xs) :
    xs.idxOf x ≤ ys.idxOf x := by
  induction h with
  | slnil => exact absurd hx List.not_mem_nil
  | cons a h ih =>
    obtain ⟨hnot, hnodup⟩ := List.nodup_cons.mp hnodup
    have hne : a ≠ x := fun heq => hnot (heq ▸ h.subset hx)
    rw [List.idxOf_cons_ne _ hne]
    exact (ih hnodup hx).trans (Nat.le_succ _)
  | cons_cons a h ih =>
    by_cases hax : a = x
    · subst hax
      rw [List.idxOf_cons_self]
      exact Nat.zero_le _
    · rw [List.idxOf_cons_ne _ hax, List.idxOf_cons_ne _ hax]
      have hmem : x ∈ _ := (List.mem_cons.mp hx).resolve_left (Ne.symm hax)
      exact Nat.succ_le_succ (ih (List.nodup_cons.mp hnodup).2 hmem)

/-- Where the elements of a page stand. -/
theorem idxOf_of_mem_window [DecidableEq α] {o : ℕ} (hnodup : xs.Nodup)
    (hx : x ∈ (xs.drop o).take l) : x ∈ xs ∧ o ≤ xs.idxOf x ∧ xs.idxOf x < o + l := by
  obtain ⟨i, hi, rfl⟩ := List.mem_iff_getElem.mp hx
  rw [List.length_take, List.length_drop] at hi
  have hlt : o + i < xs.length := by omega
  rw [List.getElem_take, List.getElem_drop, hnodup.idxOf_getElem (o + i) hlt]
  exact ⟨List.getElem_mem hlt, Nat.le_add_right o i, by omega⟩

/-- **A growing list.** Up to a page that reaches the end, the pages show what was there first. -/
theorem mem_windows_of_growing (hgrow : ∀ k, (lists k).Sublist (lists (k + 1)))
    (hnodup : ∀ k, (lists k).Nodup) (hend : (lists m).length ≤ (m + 1) * l) (hx : x ∈ lists 0) :
    x ∈ (List.range (m + 1)).flatMap fun i => ((lists i).drop (i * l)).take l := by
  classical
  have hmem : ∀ k, x ∈ lists k := by
    intro k
    induction k with
    | zero => exact hx
    | succ k ih => exact (hgrow k).subset ih
  have hlater : ∀ k, (lists k).idxOf x ≤ (lists (k + 1)).idxOf x :=
    fun k => idxOf_le_of_sublist (hgrow k) (hnodup (k + 1)) (hmem k)
  have hlast : (lists m).idxOf x < (m + 1) * l :=
    (List.idxOf_lt_length_of_mem (hmem m)).trans_le hend
  -- the first page whose end the element is not behind
  have hexists : ∃ k, (lists k).idxOf x < (k + 1) * l := ⟨m, hlast⟩
  obtain ⟨k, hk, hfirst⟩ : ∃ k, (lists k).idxOf x < (k + 1) * l ∧
      ∀ j < k, ¬(lists j).idxOf x < (j + 1) * l :=
    ⟨Nat.find hexists, Nat.find_spec hexists, fun j hj => Nat.find_min hexists hj⟩
  have hkm : k ≤ m := Nat.le_of_not_lt fun hlt => hfirst m hlt hlast
  have hlow : k * l ≤ (lists k).idxOf x := by
    cases k with
    | zero => simp
    | succ j => exact (Nat.not_lt.mp (hfirst j (Nat.lt_succ_self j))).trans (hlater j)
  refine List.mem_flatMap.mpr ⟨k, List.mem_range.mpr (Nat.lt_succ_of_le hkm), ?_⟩
  refine mem_page (List.getElem?_idxOf (hmem k)) hlow ?_
  rwa [Nat.succ_mul] at hk

/-- **A shrinking list.** No two pages show the same. -/
theorem nodup_windows_of_shrinking (hshrink : ∀ k, (lists (k + 1)).Sublist (lists k))
    (hnodup : (lists 0).Nodup) (l n : ℕ) :
    ((List.range n).flatMap fun i => ((lists i).drop (i * l)).take l).Nodup := by
  classical
  have hnodup' : ∀ k, (lists k).Nodup := by
    intro k
    induction k with
    | zero => exact hnodup
    | succ k ih => exact ih.sublist (hshrink k)
  have hsub : ∀ {i j}, i ≤ j → (lists j).Sublist (lists i) := by
    intro i j hij
    induction j, hij using Nat.le_induction with
    | base => exact List.Sublist.refl _
    | succ j _ ih => exact (hshrink j).trans ih
  rw [List.nodup_flatMap]
  refine ⟨fun i _ => ?_, ?_⟩
  · exact (hnodup' i).sublist ((List.take_sublist _ _).trans (List.drop_sublist _ _))
  refine List.pairwise_lt_range.imp fun {i j} hij => ?_
  intro x hi hj
  obtain ⟨-, -, hup⟩ := idxOf_of_mem_window (hnodup' i) hi
  obtain ⟨hmem, hlow, -⟩ := idxOf_of_mem_window (hnodup' j) hj
  have hle := idxOf_le_of_sublist (hsub hij.le) (hnodup' i) hmem
  have hpages : i * l + l ≤ j * l := Nat.succ_mul i l ▸ Nat.mul_le_mul_right l hij
  omega

end Changing
end OffsetPaging

end Eyenet
