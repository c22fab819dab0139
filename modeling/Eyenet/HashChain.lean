import Mathlib.Data.List.Infix
import Mathlib.Data.List.Perm.Basic

/-!
# Hash chains

An entry of a hash chain carries its content, the digest of the entry before it and its own
digest. The link function `link c g` recomputes the digest of content `c` behind digest `g`;
it is partial because serialising a content can fail.

* `verify` walks a chain the way an auditor does, `Linked` is what a successful walk means
  (`verify_eq_true_iff`).
* `Linked.eq_of_head_eq` — two chains that end in the same digest are the same chain, as long
  as no two of their hashed pairs collide and none of them hashes to the seed.
* `Linked.prefix_of_getLast_mem` — a chain whose last entry is an entry of another chain is a
  prefix of it. Reordering, deleting and inserting are all read off this one fact.
-/

namespace Eyenet

namespace HashChain

/-- One entry: what is hashed, the digest it links to, and its own digest. -/
structure Entry (κ δ : Type*) where
  /-- the hashed content -/
  content : κ
  /-- the digest of the entry before -/
  prev : δ
  /-- the digest of this entry -/
  self : δ
  deriving DecidableEq, Repr

variable {κ δ : Type*}

/-- The digest a chain ends in: the seed when it is empty. -/
def head : δ → List (Entry κ δ) → δ
  | g, [] => g
  | _, e :: es => head e.self es

/-- Every entry links to the digest before it and carries its own recomputed digest. -/
def Linked (link : κ → δ → Option δ) : δ → List (Entry κ δ) → Prop
  | _, [] => True
  | g, e :: es => e.prev = g ∧ link e.content g = some e.self ∧ Linked link e.self es

/-- Walk the chain from the seed: `some false` at the first broken link, `none` when a digest
cannot be recomputed. -/
def verify [DecidableEq δ] (link : κ → δ → Option δ) : δ → List (Entry κ δ) → Option Bool
  | _, [] => some true
  | g, e :: es =>
    if e.prev ≠ g then some false
    else match link e.content g with
      | none => none
      | some d => if d ≠ e.self then some false else verify link e.self es

variable {link : κ → δ → Option δ} {g : δ} {e : Entry κ δ} {A B W : List (Entry κ δ)}

@[simp] theorem head_nil : head g ([] : List (Entry κ δ)) = g := rfl

theorem head_append : head g (A ++ B) = head (head g A) B := by
  induction A generalizing g with
  | nil => rfl
  | cons a A ih => exact ih

@[simp] theorem head_concat : head g (A ++ [e]) = e.self := by
  rw [head_append]
  rfl

/-- The head is the last of the seed and the entries' digests. -/
theorem head_eq_getLast : head g A = (g :: A.map Entry.self).getLast (List.cons_ne_nil _ _) := by
  induction A generalizing g with
  | nil => rfl
  | cons a A ih =>
    rw [head, ih]
    rfl

@[simp] theorem linked_nil : Linked link g [] := trivial

theorem linked_append :
    Linked link g (A ++ B) ↔ Linked link g A ∧ Linked link (head g A) B := by
  induction A generalizing g with
  | nil => simp
  | cons a A ih => simp only [List.cons_append, Linked, ih, head, and_assoc]

/-- A chain grows by an entry that links to its head. -/
theorem linked_concat :
    Linked link g (A ++ [e]) ↔
      Linked link g A ∧ e.prev = head g A ∧ link e.content (head g A) = some e.self := by
  rw [linked_append]
  simp [Linked]

theorem Linked.initial (h : Linked link g B) (hp : A <+: B) : Linked link g A := by
  obtain ⟨C, rfl⟩ := hp
  exact (linked_append.mp h).1

/-- **A successful walk is exactly a linked chain.** -/
theorem verify_eq_true_iff [DecidableEq δ] : verify link g A = some true ↔ Linked link g A := by
  induction A generalizing g with
  | nil => simp [verify]
  | cons a A ih =>
    rw [verify, Linked]
    by_cases hprev : a.prev = g
    · rw [if_neg (not_not.mpr hprev)]
      cases hlink : link a.content g with
      | none => simp
      | some d =>
        by_cases hself : d = a.self
        · simp [hprev, hself, ih]
        · simp [hself]
    · simp [hprev]

/-- A walk that can recompute every digest ends in a verdict. -/
theorem verify_isSome [DecidableEq δ] (h : ∀ e ∈ A, ∀ g, (link e.content g).isSome) :
    (verify link g A).isSome := by
  induction A generalizing g with
  | nil => rfl
  | cons a A ih =>
    obtain ⟨d, hd⟩ := Option.isSome_iff_exists.mp (h a List.mem_cons_self g)
    rw [verify, hd]
    have hrest : (verify link a.self A).isSome := ih fun e he => h e (List.mem_cons_of_mem a he)
    split
    · rfl
    · dsimp only
      split
      · rfl
      · exact hrest

/-! ## Chains over a collision-free link -/

/-- The pairs of a content and the digest behind it that a walk from `g` hashes. -/
def hashed : δ → List (Entry κ δ) → List (κ × δ)
  | _, [] => []
  | g, e :: es => (e.content, g) :: hashed e.self es

/-- No two pairs in `H` are hashed to one digest, and none is hashed to the seed `g`. -/
structure CollisionFree (link : κ → δ → Option δ) (g : δ) (H : List (κ × δ)) : Prop where
  /-- equal digests come from equal pairs -/
  inj : ∀ {p q x}, p ∈ H → q ∈ H → link p.1 p.2 = some x → link q.1 q.2 = some x → p = q
  /-- the seed is no pair's digest -/
  fresh : ∀ {p}, p ∈ H → link p.1 p.2 ≠ some g

theorem CollisionFree.mono {H H' : List (κ × δ)} (h : CollisionFree link g H) (hsub : H' ⊆ H) :
    CollisionFree link g H' where
  inj hp hq := h.inj (hsub hp) (hsub hq)
  fresh hp := h.fresh (hsub hp)

theorem hashed_append : hashed g (A ++ B) = hashed g A ++ hashed (head g A) B := by
  induction A generalizing g with
  | nil => rfl
  | cons a A ih => rw [List.cons_append, hashed, hashed, ih, head, List.cons_append]

theorem hashed_initial (h : A <+: B) : hashed g A ⊆ hashed g B := by
  obtain ⟨C, rfl⟩ := h
  rw [hashed_append]
  exact List.subset_append_left _ _

/-- What is hashed is the content of an entry. -/
theorem content_of_mem_hashed {p : κ × δ} (h : p ∈ hashed g A) : ∃ e ∈ A, e.content = p.1 := by
  induction A generalizing g with
  | nil => exact absurd h List.not_mem_nil
  | cons a A ih =>
    rcases List.mem_cons.mp h with rfl | h
    · exact ⟨a, List.mem_cons_self, rfl⟩
    · obtain ⟨e, he, hcontent⟩ := ih h
      exact ⟨e, List.mem_cons_of_mem a he, hcontent⟩

theorem last_mem_hashed : (e.content, head g A) ∈ hashed g (A ++ [e]) := by
  rw [hashed_append]
  exact List.mem_append_right _ List.mem_cons_self

/-- **The head commits to the chain.** Two linked chains with one head are equal. By
induction from the end: equal digests give equal last entries and equal heads before them. -/
theorem Linked.eq_of_head_eq {H : List (κ × δ)} (hfree : CollisionFree link g H)
    (hA : Linked link g A) (hB : Linked link g B) (hHA : hashed g A ⊆ H) (hHB : hashed g B ⊆ H)
    (hhead : head g A = head g B) : A = B := by
  induction A using List.reverseRecOn generalizing B with
  | nil =>
    rcases List.eq_nil_or_concat B with rfl | ⟨B, b, rfl⟩
    · rfl
    · rw [List.concat_eq_append] at *
      obtain ⟨_, _, hlink⟩ := linked_concat.mp hB
      rw [head_concat, head_nil] at hhead
      rw [← hhead] at hlink
      exact absurd hlink (hfree.fresh (hHB last_mem_hashed))
  | append_singleton A a ih =>
    obtain ⟨hA', hprevA, hlinkA⟩ := linked_concat.mp hA
    rcases List.eq_nil_or_concat B with rfl | ⟨B, b, rfl⟩
    · rw [head_concat, head_nil] at hhead
      rw [hhead] at hlinkA
      exact absurd hlinkA (hfree.fresh (hHA last_mem_hashed))
    · rw [List.concat_eq_append] at *
      obtain ⟨hB', hprevB, hlinkB⟩ := linked_concat.mp hB
      rw [head_concat, head_concat] at hhead
      rw [← hhead] at hlinkB
      have hpair := hfree.inj (hHA last_mem_hashed) (hHB last_mem_hashed) hlinkA hlinkB
      obtain ⟨hcontent, hbefore⟩ := Prod.mk.inj hpair
      have hrest : A = B :=
        ih hA' hB' (List.Subset.trans (hashed_initial (List.prefix_append A [a])) hHA)
          (List.Subset.trans (hashed_initial (List.prefix_append B [b])) hHB) hbefore
      have hlast : a = b := by
        cases a
        cases b
        simp_all
      rw [hrest, hlast]

/-- A prefix that ends in a given entry. -/
theorem exists_prefix_getLast (he : e ∈ A) : ∃ P, P ++ [e] <+: A := by
  obtain ⟨P, Q, rfl⟩ := List.append_of_mem he
  exact ⟨P, Q, by simp⟩

/-- **A chain that ends inside another is a prefix of it.** -/
theorem Linked.prefix_of_getLast_mem {H : List (κ × δ)} (hfree : CollisionFree link g H)
    (hW : Linked link g (W ++ [e])) (hA : Linked link g A) (hHW : hashed g (W ++ [e]) ⊆ H)
    (hHA : hashed g A ⊆ H) (he : e ∈ A) : W ++ [e] <+: A := by
  obtain ⟨P, hP⟩ := exists_prefix_getLast he
  have heq : W ++ [e] = P ++ [e] := by
    apply Linked.eq_of_head_eq hfree hW (hA.initial hP) hHW
      (List.Subset.trans (hashed_initial hP) hHA)
    rw [head_concat, head_concat]
  rw [heq]
  exact hP

/-! ## Tampering -/

/-- How a chain `A` is tampered with; `W` is what becomes of it. -/
inductive Tampered (A W : List (Entry κ δ)) : Prop where
  /-- contents or links are altered, the entries' own digests are not -/
  | altered (hself : W.map Entry.self = A.map Entry.self) (hne : W ≠ A)
  /-- the entries come in another order -/
  | reordered (hperm : W.Perm A) (hne : W ≠ A)
  /-- entries are inserted, not all of them behind the last one -/
  | inserted (hsub : List.Sublist A W) (hne : ¬ A <+: W)
  /-- entries are deleted, not just the last ones -/
  | deleted (hsub : List.Sublist W A) (hne : ¬ W <+: A)

section Tamper

variable (hfree : CollisionFree link g (hashed g A ++ hashed g W))
variable (hA : Linked link g A) (hW : Linked link g W)

theorem head_eq_of_self_eq (hself : W.map Entry.self = A.map Entry.self) :
    head g W = head g A := by
  induction W generalizing A g with
  | nil =>
    cases A with
    | nil => rfl
    | cons a A => simp at hself
  | cons w W ih =>
    cases A with
    | nil => simp at hself
    | cons a A =>
      obtain ⟨hw, hrest⟩ := List.cons.inj hself
      rw [head, head, hw]
      exact ih hrest

include hfree hA hW

/-- A chain with the same digests is the same chain: no hashed field can be altered. -/
theorem Linked.eq_of_self_eq (hself : W.map Entry.self = A.map Entry.self) : W = A :=
  Linked.eq_of_head_eq hfree hW hA (List.subset_append_right _ _) (List.subset_append_left _ _)
    (head_eq_of_self_eq hself)

/-- A chain made of another's entries is a prefix of it. -/
theorem Linked.prefix_of_subset (hsub : W ⊆ A) : W <+: A := by
  rcases List.eq_nil_or_concat W with rfl | ⟨V, e, rfl⟩
  · exact List.nil_prefix
  · rw [List.concat_eq_append] at *
    exact Linked.prefix_of_getLast_mem hfree hW hA (List.subset_append_right _ _)
      (List.subset_append_left _ _) (hsub (by simp))

/-- A chain with the same entries in another order is the same chain. -/
theorem Linked.eq_of_perm (hperm : W.Perm A) : W = A :=
  (Linked.prefix_of_subset hfree hA hW hperm.subset).eq_of_length hperm.length_eq

/-- Entries can be added to a chain only behind it. -/
theorem Linked.prefix_of_sublist (hsub : List.Sublist A W) : A <+: W := by
  rcases List.eq_nil_or_concat A with rfl | ⟨B, e, rfl⟩
  · exact List.nil_prefix
  · rw [List.concat_eq_append] at *
    exact Linked.prefix_of_getLast_mem hfree hA hW (List.subset_append_left _ _)
      (List.subset_append_right _ _) (hsub.subset (by simp))

omit hW in
/-- **A chain that was tampered with is not linked.** -/
theorem Tampered.not_linked (h : Tampered A W) : ¬ Linked link g W := by
  intro hW
  cases h with
  | altered hself hne => exact hne (Linked.eq_of_self_eq hfree hA hW hself)
  | reordered hperm hne => exact hne (Linked.eq_of_perm hfree hA hW hperm)
  | inserted hsub hne => exact hne (Linked.prefix_of_sublist hfree hA hW hsub)
  | deleted hsub hne => exact hne (Linked.prefix_of_subset hfree hA hW hsub.subset)

end Tamper

end HashChain

end Eyenet
