import Mathlib.Data.List.Sort

/-!
# Paging by cursor

A sorted source is read page by page. A request names the key of the last item received, and gets
the first items after it; a page that is not full is the last. A page may miss items: `visible`
says which items a request can see at all.

* `filter_insertionSort` — stable sorting commutes with filtering.
* `take_filter_eq_take` — when hidden items do not show in a page.
* `drain_total`, `drain_sublist` — draining terminates, and yields a part of the source in order.
* `drain_eq_iff` — draining yields the whole source exactly when every item is visible from the
  start of its own page and lies after it.
-/

namespace Eyenet

namespace Paging

variable {α κ : Type*}

/-! ## Sorting and filtering -/

section Sorting

variable {r : α → α → Prop} [DecidableRel r] {p : α → Bool} {a : α} {xs : List α}

theorem filter_orderedInsert [IsTrans α r] (h : xs.Pairwise r) :
    (xs.orderedInsert r a).filter p =
      if p a then (xs.filter p).orderedInsert r a else xs.filter p := by
  induction xs with
  | nil => by_cases ha : p a <;> simp [ha]
  | cons b xs ih =>
    have hhead : ∀ c ∈ xs, r b c := (List.pairwise_cons.mp h).1
    have hrest := ih (List.pairwise_cons.mp h).2
    rw [List.orderedInsert_cons]
    by_cases hab : r a b
    · rw [if_pos hab]
      by_cases ha : p a
      · have hle : ∀ c ∈ (b :: xs).filter p, r a c := by
          intro c hc
          rcases List.mem_cons.mp (List.mem_filter.mp hc).1 with rfl | hc
          · exact hab
          · exact trans_of r hab (hhead c hc)
        rw [List.filter_cons_of_pos ha, if_pos ha]
        cases hfilter : (b :: xs).filter p with
        | nil => rfl
        | cons c cs =>
          rw [List.orderedInsert_cons_of_le]
          exact hle c (by simp [hfilter])
      · rw [List.filter_cons_of_neg ha, if_neg ha]
    · rw [if_neg hab]
      by_cases hb : p b
      · rw [List.filter_cons_of_pos hb, List.filter_cons_of_pos hb, hrest]
        by_cases ha : p a
        · rw [if_pos ha, if_pos ha, List.orderedInsert_cons, if_neg hab]
        · rw [if_neg ha, if_neg ha]
      · rw [List.filter_cons_of_neg hb, List.filter_cons_of_neg hb, hrest]

/-- A stable sort commutes with filtering. -/
theorem filter_insertionSort [Std.Total r] [IsTrans α r] :
    (xs.insertionSort r).filter p = (xs.filter p).insertionSort r := by
  induction xs with
  | nil => rfl
  | cons a xs ih =>
    rw [List.insertionSort_cons, filter_orderedInsert (List.pairwise_insertionSort r xs), ih]
    by_cases ha : p a <;> simp [ha]

end Sorting

/-! ## Pages -/

section Pages

variable {p q : α → Bool} {n : ℕ} {x : α} {xs : List α}

/-- Hidden items do not show in a page exactly when the page holds none. -/
theorem take_filter_eq_take : (xs.filter p).take n = xs.take n ↔ ∀ x ∈ xs.take n, p x := by
  refine ⟨?_, ?_⟩
  · intro h x hx
    rw [← h] at hx
    exact (List.mem_filter.mp (List.mem_of_mem_take hx)).2
  · intro h
    have hpage : (xs.take n).filter p = xs.take n := List.filter_eq_self.mpr h
    conv_lhs => rw [← List.take_append_drop n xs, List.filter_append, hpage]
    rcases Nat.le_total n xs.length with hn | hn
    · have hlen : (xs.take n).length = n := List.length_take_of_le hn
      rw [List.take_append_of_le_length hlen.ge, List.take_take, min_self]
    · simp [List.drop_eq_nil_of_le hn, List.take_take]

/-- The page of a part of the source holds what the page of the whole holds of that part. -/
theorem mem_take_filter (hx : x ∈ xs.take n) (hp : p x) : x ∈ (xs.filter p).take n := by
  have hpre : (xs.take n).filter p <+: xs.filter p := (List.take_prefix n xs).filter p
  have hlen : ((xs.take n).filter p).length ≤ n :=
    (List.length_filter_le _ _).trans (List.length_take_le n xs)
  exact (List.prefix_take_iff.mpr ⟨hpre, hlen⟩).subset (List.mem_filter.mpr ⟨hx, hp⟩)

/-- The first items of a list, as a filter. -/
theorem filter_mem_take [DecidableEq α] (h : xs.Nodup) (n : ℕ) :
    xs.filter (fun x => decide (x ∈ xs.take n)) = xs.take n := by
  have hdisjoint : ∀ x ∈ xs.drop n, x ∉ xs.take n := by
    rw [← List.take_append_drop n xs, List.nodup_append] at h
    exact fun x hx hx' => h.2.2 x hx' x hx rfl
  conv_lhs => arg 2; rw [← List.take_append_drop n xs]
  rw [List.filter_append, List.filter_eq_self.mpr (by simp),
    List.filter_eq_nil_iff.mpr (by simpa using hdisjoint), List.append_nil]

/-- An item that a full page misses lies before the end of the page. -/
theorem exists_split_of_hidden (hx : x ∈ xs.take n) (hp : ¬ p x)
    (hfull : ((xs.filter p).take n).length = n) :
    ∃ pre post last, xs = pre ++ x :: post ∧ last ∈ post ∧
      ((xs.filter p).take n).getLast? = some last := by
  obtain ⟨pre, mid, hmid⟩ := List.append_of_mem hx
  have hxs : xs = pre ++ x :: (mid ++ xs.drop n) := by
    conv_lhs => rw [← List.take_append_drop n xs, hmid]
    simp
  have hshort : (pre.filter p).length < n := by
    have hlen : pre.length + (mid.length + 1) ≤ n := by
      have htake := List.length_take_le n xs
      rw [hmid] at htake
      simpa using htake
    exact (List.length_filter_le p pre).trans_lt (by omega)
  obtain ⟨post, hpost⟩ : ∃ post, post = mid ++ xs.drop n := ⟨_, rfl⟩
  rw [← hpost] at hxs
  have hpage : (xs.filter p).take n =
      pre.filter p ++ (post.filter p).take (n - (pre.filter p).length) := by
    rw [hxs, List.filter_append, List.filter_cons_of_neg hp, List.take_append,
      List.take_of_length_le hshort.le]
  have htail : (post.filter p).take (n - (pre.filter p).length) ≠ [] := by
    intro hnil
    rw [hpage, hnil, List.append_nil] at hfull
    omega
  obtain ⟨last, hlast⟩ := Option.isSome_iff_exists.mp (List.getLast?_isSome.mpr htail)
  refine ⟨pre, post, last, hxs, ?_, ?_⟩
  · exact (List.mem_filter.mp (List.mem_of_mem_take (List.mem_of_getLast? hlast))).1
  · rw [hpage, List.getLast?_append, hlast, Option.some_or]

/-- What a page leaves out of a strictly sorted source lies after its end. -/
theorem last_lt_of_not_mem_take [LinearOrder α] (hsorted : xs.Pairwise (· < ·)) (hn : 1 ≤ n)
    (hx : x ∈ xs) (hout : x ∉ xs.take n) :
    n ≤ (xs.take n).length ∧ ∃ last ∈ (xs.take n).getLast?, last < x := by
  rw [← List.take_append_drop n xs] at hx hsorted
  have hdrop : x ∈ xs.drop n := (List.mem_append.mp hx).resolve_left hout
  have hlen : n < xs.length := by
    by_contra hle
    rw [List.drop_eq_nil_of_le (not_lt.mp hle)] at hdrop
    exact List.not_mem_nil hdrop
  have htake : (xs.take n).length = n := List.length_take_of_le hlen.le
  refine ⟨htake.ge, ?_⟩
  have hne : xs.take n ≠ [] := List.ne_nil_of_length_pos (by omega)
  refine ⟨_, List.getLast?_eq_some_getLast hne, ?_⟩
  exact (List.pairwise_append.mp hsorted).2.2 _ (List.getLast_mem hne) x hdrop

end Pages

/-! ## Draining -/

section Drain

variable [LinearOrder κ] (key : α → κ)

/-- The item lies after the cursor. -/
def after (cursor : Option κ) (x : α) : Bool :=
  match cursor with
  | none => true
  | some c => decide (c < key x)

/-- Fetch pages, each from the end of the previous one, until one is not full; `none` when the fuel
runs out. -/
def drain (page : Option κ → List α) (limit : ℕ) : ℕ → Option κ → Option (List α)
  | 0, _ => none
  | fuel + 1, cursor =>
    match (page cursor).getLast? with
    | none => some []
    | some last =>
      if (page cursor).length < limit then some (page cursor)
      else (drain page limit fuel (some (key last))).map (page cursor ++ ·)

/-- Where the page of the item number `k` starts. -/
def pageStart (limit : ℕ) (cursor : Option κ) (xs : List α) (k : ℕ) : Option κ :=
  if k < limit then cursor else xs[k / limit * limit - 1]?.map key

/-- Every item lies after the start of its page and is visible from there. -/
def Windowed (visible : Option κ → α → Bool) (limit : ℕ) (cursor : Option κ) (xs : List α) : Prop :=
  ∀ k, ∀ x ∈ xs[k]?, after key (pageStart key limit cursor xs k) x ∧
    visible (pageStart key limit cursor xs k) x

instance (visible : Option κ → α → Bool) (limit : ℕ) (cursor : Option κ) (xs : List α) :
    Decidable (Windowed key visible limit cursor xs) :=
  decidable_of_iff (∀ k < xs.length, ∀ x ∈ xs[k]?,
      after key (pageStart key limit cursor xs k) x ∧
        visible (pageStart key limit cursor xs k) x) <| by
    refine forall_congr' fun k => ⟨fun h x hx => ?_, fun h _ => h⟩
    exact h (List.getElem?_eq_some_iff.mp hx).1 x hx

variable {key} {page : Option κ → List α} {limit : ℕ} {visible : Option κ → α → Bool}
variable {cursor : Option κ} {c : κ} {xs : List α} {x : α}

@[simp] theorem after_none : after key none x = true := rfl

@[simp] theorem after_some : after key (some c) x = true ↔ c < key x := by simp [after]

/-- A source with what its pages show: the visible items after the cursor, up to the limit. -/
structure Source (key : α → κ) (page : Option κ → List α) (limit : ℕ)
    (visible : Option κ → α → Bool) (all : List α) : Prop where
  sorted : all.Pairwise fun x y => key x ≤ key y
  nodup : all.Nodup
  limit_pos : 0 < limit
  page_eq : ∀ cursor,
    page cursor = ((all.filter (after key cursor)).filter (visible cursor)).take limit

/-- A sorted list falls apart at a cursor. -/
theorem filter_not_append_filter (h : xs.Pairwise fun x y => key x ≤ key y) :
    xs.filter (fun x => !after key (some c) x) ++ xs.filter (after key (some c)) = xs := by
  induction xs with
  | nil => rfl
  | cons x xs ih =>
    obtain ⟨hhead, htail⟩ := List.pairwise_cons.mp h
    by_cases hx : c < key x
    · have hall : ∀ y ∈ x :: xs, after key (some c) y := by
        intro y hy
        rcases List.mem_cons.mp hy with rfl | hy
        · exact after_some.mpr hx
        · exact after_some.mpr (hx.trans_le (hhead y hy))
      have hnone : (x :: xs).filter (fun x => !after key (some c) x) = [] := by
        rw [List.filter_eq_nil_iff]
        intro y hy
        simp [hall y hy]
      rw [hnone, List.nil_append, List.filter_eq_self.mpr hall]
    · have hout : after key (some c) x = false := by simpa [after] using hx
      simp only [List.filter_cons, hout, Bool.not_false, if_true, Bool.false_eq_true, if_false,
        List.cons_append]
      rw [ih htail]

theorem windowed_nil : Windowed key visible limit cursor [] := by simp [Windowed]

/-- The items of the first page are visible. -/
theorem Windowed.first (h : Windowed key visible limit cursor xs) (hx : x ∈ xs.take limit) :
    visible cursor x := by
  obtain ⟨k, hk⟩ := List.mem_iff_getElem?.mp hx
  rw [List.getElem?_take] at hk
  split at hk
  · next hlt =>
    have hwin := (h k x hk).2
    rwa [pageStart, if_pos hlt] at hwin
  · cases hk

omit [LinearOrder κ] in
/-- The pages after the first one are the pages of what is after the first page. -/
theorem pageStart_add (hlim : 0 < limit) (hlast : xs[limit - 1]?.map key = some c) (k : ℕ) :
    pageStart key limit cursor xs (limit + k) =
      pageStart key limit (some c) (xs.drop limit) k := by
  have hdiv : (limit + k) / limit = k / limit + 1 := Nat.add_div_left k hlim
  rw [pageStart, if_neg (by omega), hdiv, pageStart]
  by_cases hk : k < limit
  · rw [if_pos hk, Nat.div_eq_of_lt hk, Nat.zero_add, Nat.one_mul, hlast]
  · have hpos : 0 < k / limit := Nat.div_pos (not_lt.mp hk) hlim
    have hge : limit ≤ k / limit * limit := Nat.le_mul_of_pos_left limit hpos
    rw [if_neg hk, List.getElem?_drop, Nat.add_mul, Nat.one_mul]
    congr 2
    omega

namespace Source

variable {all out : List α} {fuel : ℕ} {last : α}

/-- The source after a cursor is sorted. -/
theorem sorted_after (h : Source key page limit visible all) :
    (all.filter (after key cursor)).Pairwise fun x y => key x ≤ key y :=
  h.sorted.filter _

theorem page_sublist (h : Source key page limit visible all) :
    (page cursor).Sublist (all.filter (after key cursor)) := by
  rw [h.page_eq]
  exact (List.take_sublist _ _).trans List.filter_sublist

/-- A page ends with its greatest key. -/
theorem le_last (h : Source key page limit visible all) (hlast : (page cursor).getLast? = some last)
    (hx : x ∈ page cursor) : key x ≤ key last := by
  obtain ⟨ys, hys⟩ := List.getLast?_eq_some_iff.mp hlast
  have hpage : (page cursor).Sublist (all.filter (after key cursor)) := h.page_sublist
  have hsorted := h.sorted_after.sublist hpage
  rw [hys] at hx hsorted
  rcases List.mem_append.mp hx with hx | hx
  · exact (List.pairwise_append.mp hsorted).2.2 x hx last (List.mem_singleton.mpr rfl)
  · rw [List.mem_singleton.mp hx]

/-- What lies after the last item of a page. -/
theorem filter_after_last (h : Source key page limit visible all)
    (hlast : (page cursor).getLast? = some last) :
    all.filter (after key (some (key last))) =
      (all.filter (after key cursor)).filter (after key (some (key last))) := by
  have hmem : last ∈ all.filter (after key cursor) :=
    h.page_sublist.subset (List.mem_of_getLast? hlast)
  have hlater := (List.mem_filter.mp hmem).2
  rw [List.filter_filter]
  congr 1
  funext x
  cases cursor with
  | none => simp
  | some c =>
    rw [Bool.eq_iff_iff]
    simp only [Bool.and_eq_true, after_some] at hlater ⊢
    exact ⟨fun hx => ⟨hx, hlater.trans hx⟩, fun hx => hx.1⟩

/-- Every page makes progress. -/
theorem length_after_last (h : Source key page limit visible all)
    (hlast : (page cursor).getLast? = some last) :
    (all.filter (after key (some (key last)))).length <
      (all.filter (after key cursor)).length := by
  rw [h.filter_after_last hlast]
  refine List.length_filter_lt_length_iff_exists.mpr ⟨last, ?_, by simp⟩
  exact h.page_sublist.subset (List.mem_of_getLast? hlast)

/-- **Termination.** -/
theorem drain_total (h : Source key page limit visible all)
    (hfuel : (all.filter (after key cursor)).length < fuel) :
    ∃ out, drain key page limit fuel cursor = some out := by
  induction fuel generalizing cursor with
  | zero => omega
  | succ fuel ih =>
    rw [drain]
    split
    · exact ⟨_, rfl⟩
    · next last hlast =>
      split
      · exact ⟨_, rfl⟩
      · have hless := h.length_after_last hlast
        have hrest : (all.filter (after key (some (key last)))).length < fuel := by omega
        obtain ⟨out, hout⟩ := ih hrest
        exact ⟨page cursor ++ out, by rw [hout, Option.map_some]⟩

/-- The pages are parts of the source, in order. -/
theorem drain_sublist (h : Source key page limit visible all)
    (hdrain : drain key page limit fuel cursor = some out) :
    out.Sublist (all.filter (after key cursor)) := by
  induction fuel generalizing cursor out with
  | zero => cases hdrain
  | succ fuel ih =>
    rw [drain] at hdrain
    split at hdrain
    · cases hdrain
      exact List.nil_sublist _
    · next last hlast =>
      split at hdrain
      · cases hdrain
        exact h.page_sublist
      · obtain ⟨rest, hrest, rfl⟩ := Option.map_eq_some_iff.mp hdrain
        have htail : rest.Sublist ((all.filter (after key cursor)).filter
            (after key (some (key last)))) := by
          rw [← h.filter_after_last hlast]
          exact ih hrest
        have hhead : (page cursor).Sublist ((all.filter (after key cursor)).filter
            fun x => !after key (some (key last)) x) := by
          have hpage : (page cursor).filter (fun x => !after key (some (key last)) x) =
              page cursor := by
            refine List.filter_eq_self.mpr fun x hx => ?_
            simpa [after] using h.le_last hlast hx
          rw [← hpage]
          exact h.page_sublist.filter _
        calc page cursor ++ rest
          _ |>.Sublist _ := hhead.append htail
          _ = _ := filter_not_append_filter h.sorted_after

/-- An item that its page hides is lost. -/
theorem drain_hidden (h : Source key page limit visible all)
    (hdrain : drain key page limit fuel cursor = some out)
    (hx : x ∈ (all.filter (after key cursor)).take limit) (hhidden : ¬ visible cursor x) :
    x ∉ out := by
  have hpage : x ∉ page cursor := by
    rw [h.page_eq]
    exact fun hmem => hhidden (List.mem_filter.mp (List.mem_of_mem_take hmem)).2
  cases fuel with
  | zero => cases hdrain
  | succ fuel =>
    rw [drain] at hdrain
    split at hdrain
    · cases hdrain
      exact List.not_mem_nil
    · next last hlast =>
      split at hdrain
      · cases hdrain
        exact hpage
      · next hfull =>
        obtain ⟨rest, hrest, rfl⟩ := Option.map_eq_some_iff.mp hdrain
        -- the page is full, so its end is behind the hidden item
        have hlen : (page cursor).length = limit := by
          refine le_antisymm ?_ (not_lt.mp hfull)
          rw [h.page_eq]
          exact List.length_take_le _ _
        rw [h.page_eq] at hlen hlast
        obtain ⟨pre, post, last', hsplit, hpost, hlast'⟩ :=
          exists_split_of_hidden hx hhidden hlen
        obtain rfl : last = last' := Option.some.inj (hlast.symm.trans hlast')
        have hsorted : (pre ++ x :: post).Pairwise fun x y => key x ≤ key y := by
          rw [← hsplit]
          exact h.sorted_after
        have hle : key x ≤ key last :=
          (List.pairwise_cons.mp (List.pairwise_append.mp hsorted).2.1).1 last hpost
        intro hmem
        rcases List.mem_append.mp hmem with hmem | hmem
        · exact hpage hmem
        · have hlater := (List.mem_filter.mp ((h.drain_sublist hrest).subset hmem)).2
          exact (after_some.mp hlater).not_ge hle

/-- What lies after a full first page. -/
theorem filter_after_full (h : Source key page limit visible all)
    (hsplit : all.filter (after key cursor) = xs) (hlast : xs[limit - 1]? = some last)
    (hvis : ∀ x ∈ xs.take limit, visible cursor x) :
    all.filter (after key (some (key last))) =
      (xs.drop limit).filter (after key (some (key last))) := by
  have hpage : page cursor = xs.take limit := by
    rw [h.page_eq, hsplit, take_filter_eq_take.mpr hvis]
  have hpageLast : (page cursor).getLast? = some last := by
    rw [hpage, List.getLast?_take, if_neg h.limit_pos.ne', hlast, Option.some_or]
  rw [h.filter_after_last hpageLast, hsplit]
  conv_lhs => rw [← List.take_append_drop limit xs, List.filter_append]
  have hnone : (xs.take limit).filter (after key (some (key last))) = [] := by
    rw [List.filter_eq_nil_iff]
    intro x hx
    rw [after_some, not_lt]
    exact h.le_last hpageLast (hpage ▸ hx)
  rw [hnone, List.nil_append]

/-- What the pages after a full first page have to be. -/
theorem windowed_iff_of_full (h : Source key page limit visible all)
    (hsplit : all.filter (after key cursor) = xs) (hlast : xs[limit - 1]? = some last)
    (hvis : ∀ x ∈ xs.take limit, visible cursor x) :
    Windowed key visible limit cursor xs ↔
      all.filter (after key (some (key last))) = xs.drop limit ∧
        Windowed key visible limit (some (key last)) (xs.drop limit) := by
  have hlim := h.limit_pos
  have hnext := h.filter_after_full hsplit hlast hvis
  have hstart : ∀ k, pageStart key limit cursor xs (limit + k) =
      pageStart key limit (some (key last)) (xs.drop limit) k :=
    pageStart_add hlim (by rw [hlast, Option.map_some])
  refine ⟨?_, ?_⟩
  · intro hwin
    refine ⟨?_, fun k x hx => ?_⟩
    · -- the first item of the second page is after the first page, and so are all others
      rw [hnext, List.filter_eq_self]
      intro x hx
      obtain ⟨k, hk⟩ := List.mem_iff_getElem?.mp hx
      cases hdrop : xs.drop limit with
      | nil => simp [hdrop] at hk
      | cons y ys =>
        have hy : xs[limit + 0]? = some y := by rw [← List.getElem?_drop, hdrop]; rfl
        have hfirst := (hwin _ y hy).1
        rw [hstart, pageStart, if_pos hlim] at hfirst
        have hsorted : (y :: ys).Pairwise fun x y => key x ≤ key y := by
          rw [← hdrop, ← hsplit]
          exact h.sorted_after.sublist (List.drop_sublist _ _)
        rw [hdrop] at hx
        rcases List.mem_cons.mp hx with rfl | hx
        · exact hfirst
        · exact after_some.mpr ((after_some.mp hfirst).trans_le
            ((List.pairwise_cons.mp hsorted).1 x hx))
    · rw [← hstart]
      exact hwin (limit + k) x (by rwa [Option.mem_def, ← List.getElem?_drop])
  · rintro ⟨-, hwin⟩ k x hx
    by_cases hk : k < limit
    · rw [pageStart, if_pos hk]
      have hmem : x ∈ xs.take limit :=
        List.mem_iff_getElem?.mpr ⟨k, by rw [List.getElem?_take, if_pos hk]; exact hx⟩
      refine ⟨?_, hvis x hmem⟩
      exact (List.mem_filter.mp (hsplit ▸ List.mem_of_mem_take hmem)).2
    · obtain ⟨j, rfl⟩ : ∃ j, k = limit + j := ⟨k - limit, by omega⟩
      rw [hstart]
      exact hwin j x (by rwa [Option.mem_def, List.getElem?_drop])

/-- **Completeness.** Draining yields the whole source exactly when every item is visible from the
start of its page and lies after it. -/
theorem drain_eq_iff (h : Source key page limit visible all)
    (hdrain : drain key page limit fuel cursor = some out) :
    out = all.filter (after key cursor) ↔
      Windowed key visible limit cursor (all.filter (after key cursor)) := by
  obtain ⟨xs, hxs⟩ : ∃ xs, all.filter (after key cursor) = xs := ⟨_, rfl⟩
  rw [hxs]
  induction fuel generalizing cursor out xs with
  | zero => cases hdrain
  | succ fuel ih =>
    by_cases hvis : ∀ x ∈ xs.take limit, visible cursor x
    · have hpage : page cursor = xs.take limit := by
        rw [h.page_eq, hxs, take_filter_eq_take.mpr hvis]
      rw [drain] at hdrain
      split at hdrain
      · next hnone =>
        cases hdrain
        rw [hpage, List.getLast?_eq_none_iff, List.take_eq_nil_iff] at hnone
        obtain rfl : xs = [] := hnone.resolve_left h.limit_pos.ne'
        simp [windowed_nil]
      · next last hlast =>
        split at hdrain
        · next hshort =>
          cases hdrain
          have hlen : xs.length < limit := by
            rw [hpage, List.length_take] at hshort
            omega
          rw [hpage, List.take_of_length_le hlen.le]
          refine iff_of_true rfl fun k x hx => ?_
          have hk : k < limit := (List.getElem?_eq_some_iff.mp hx).1.trans hlen
          rw [pageStart, if_pos hk]
          have hmem : x ∈ xs := List.mem_of_getElem? hx
          refine ⟨(List.mem_filter.mp (hxs ▸ hmem)).2, hvis x ?_⟩
          rwa [List.take_of_length_le hlen.le]
        · next hfull =>
          obtain ⟨rest, hrest, rfl⟩ := Option.map_eq_some_iff.mp hdrain
          have hlen : limit ≤ xs.length := by
            rw [hpage, List.length_take] at hfull
            omega
          have hlast' : xs[limit - 1]? = some last := by
            rw [hpage, List.getLast?_take, if_neg h.limit_pos.ne'] at hlast
            obtain ⟨y, hy⟩ : ∃ y, xs[limit - 1]? = some y :=
              ⟨_, List.getElem?_eq_getElem (by have := h.limit_pos; omega)⟩
            rwa [hy, Option.some_or, ← hy] at hlast
          rw [h.windowed_iff_of_full hxs hlast' hvis, hpage]
          have hcancel : xs.take limit ++ rest = xs ↔ rest = xs.drop limit := by
            conv_lhs => rhs; rw [← List.take_append_drop limit xs]
            exact List.append_right_inj _
          rw [hcancel]
          refine ⟨?_, ?_⟩
          · intro heq
            have hsub := h.drain_sublist hrest
            have hdrop : all.filter (after key (some (key last))) = xs.drop limit := by
              rw [h.filter_after_full hxs hlast' hvis] at hsub ⊢
              exact List.filter_sublist.eq_of_length_le (heq ▸ hsub).length_le
            exact ⟨hdrop, (ih hrest _ hdrop).mp heq⟩
          · rintro ⟨hdrop, hwin⟩
            exact (ih hrest _ hdrop).mpr hwin
    · push Not at hvis
      obtain ⟨x, hx, hhidden⟩ := hvis
      refine iff_of_false (fun heq => ?_) fun hwin => hhidden (hwin.first hx)
      refine h.drain_hidden hdrain (hxs ▸ hx) hhidden ?_
      rw [heq]
      exact List.mem_of_mem_take hx

end Source

end Drain

end Paging

end Eyenet
