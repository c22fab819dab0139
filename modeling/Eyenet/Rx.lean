import Mathlib.Data.List.Basic
import Mathlib.Logic.Function.Iterate
import Mathlib.Data.Nat.Init
import Mathlib.Order.Nat

/-!
# Regular expressions that are searched for

What matters is whether an expression matches somewhere in a text, not which match is reported. So
an expression is a relation between the places of a text: where a match begins and where it ends.

* `Rx.mem_ends` — the ends that are computed are those of the relation.
* `Rx.Found.widen` — a match that is found in some lines is found in all texts with these lines.
* `Rx.Agrees` — expressions that cannot be told apart in texts over an alphabet.
-/

namespace Eyenet

/-- An expression. -/
inductive Rx where
  | empty
  /-- one character of a class -/
  | one (p : Char → Bool)
  | seq (r s : Rx)
  | alt (r s : Rx)
  /-- so many times in a row -/
  | rep (r : Rx) (least : ℕ) (most : Option ℕ)
  /-- `\b` -/
  | boundary
  /-- `^`, with the flag `m` -/
  | lineStart

namespace Rx

/-- A place in a text: what is before it, the last character first, and what is left. -/
@[ext]
structure Place where
  before : List Char
  rest : List Char
  deriving DecidableEq

/-- One after the other. -/
def seqs : List Rx → Rx
  | [] => .empty
  | r :: rs => .seq r (seqs rs)

/-- One of several. -/
def alts : List Rx → Rx
  | [] => .one fun _ => false
  | r :: rs => .alt r (alts rs)

/-- So many steps of a relation. -/
def Iter (R : Place → Place → Prop) : ℕ → Place → Place → Prop
  | 0, c, d => d = c
  | n + 1, c, d => ∃ e, R c e ∧ Iter R n e d

/-- At most so many steps of a function that gives several places. -/
def upTo (f : Place → List Place) : ℕ → List Place → List Place
  | 0, cs => cs
  | n + 1, cs => cs ++ upTo f n (cs.flatMap f)

section Matching

variable (isWord : Char → Bool)

/-- Exactly one of the characters before and after is of a word. -/
def atBoundary (c : Place) : Bool := c.before.head?.any isWord != c.rest.head?.any isWord

/-- There is no character before, or a line end. -/
def atLineStart (c : Place) : Bool := c.before.head?.all (· = '\n')

/-- The expression matches from the one place to the other. -/
def Matches : Rx → Place → Place → Prop
  | .empty, c, d => d = c
  | .one p, c, d => ∃ x, p x = true ∧ c.rest = x :: d.rest ∧ d.before = x :: c.before
  | .seq r s, c, d => ∃ e, Matches r c e ∧ Matches s e d
  | .alt r s, c, d => Matches r c d ∨ Matches s c d
  | .rep r least most, c, d =>
    ∃ n, least ≤ n ∧ (∀ m ∈ most, n ≤ m) ∧ Iter (Matches r) n c d
  | .boundary, c, d => atBoundary isWord c = true ∧ d = c
  | .lineStart, c, d => atLineStart c = true ∧ d = c

/-- The ends of the matches that begin at a place. -/
def ends : Rx → Place → List Place
  | .empty, c => [c]
  | .one p, c =>
    match c.rest with
    | [] => []
    | x :: rest => if p x then [⟨x :: c.before, rest⟩] else []
  | .seq r s, c => (ends r c).flatMap (ends s)
  | .alt r s, c => ends r c ++ ends s c
  | .rep r least most, c =>
    let begun := (fun cs => cs.flatMap (ends r))^[least] [c]
    match most with
    | none => upTo (ends r) c.rest.length begun
    | some m => if least ≤ m then upTo (ends r) (m - least) begun else []
  | .boundary, c => if atBoundary isWord c then [c] else []
  | .lineStart, c => if atLineStart c then [c] else []

/-- The places of a text, from a first one on. -/
def placesFrom (before : List Char) : List Char → List Place
  | [] => [⟨before, []⟩]
  | x :: rest => ⟨before, x :: rest⟩ :: placesFrom (x :: before) rest

/-- `search(text) is not None` -/
def search (r : Rx) (text : List Char) : Bool :=
  (placesFrom [] text).any fun c => !(ends isWord r c).isEmpty

/-- There is a match in the text. -/
def Found (r : Rx) (text : List Char) : Prop :=
  ∃ c d, c.before.reverse ++ c.rest = text ∧ Matches isWord r c d

end Matching

variable {isWord : Char → Bool} {r s : Rx} {c d e : Place} {R : Place → Place → Prop}
  {f : Place → List Place} {m n : ℕ}

/-! ## Steps in a row -/

theorem Iter.add (h : Iter R m c e) (h' : Iter R n e d) : Iter R (m + n) c d := by
  induction m generalizing c with
  | zero =>
    obtain rfl : e = c := h
    rwa [Nat.zero_add]
  | succ m ih =>
    obtain ⟨b, hb, hrest⟩ := h
    rw [Nat.succ_add]
    exact ⟨b, hb, ih hrest⟩

theorem Iter.split (h : Iter R (m + n) c d) : ∃ e, Iter R m c e ∧ Iter R n e d := by
  induction m generalizing c with
  | zero => exact ⟨c, rfl, by rwa [Nat.zero_add] at h⟩
  | succ m ih =>
    rw [Nat.succ_add] at h
    obtain ⟨b, hb, hrest⟩ := h
    obtain ⟨e, he, htail⟩ := ih hrest
    exact ⟨e, ⟨b, hb, he⟩, htail⟩

theorem Iter.congr {S : Place → Place → Prop} {P : Place → Prop}
    (hkeep : ∀ {c d}, P c → R c d → P d) (hsame : ∀ {c d}, P c → (R c d ↔ S c d)) (hc : P c) :
    Iter R n c d ↔ Iter S n c d := by
  induction n generalizing c with
  | zero => exact Iff.rfl
  | succ n ih =>
    refine exists_congr fun e => ?_
    rw [← hsame hc]
    exact and_congr_right fun he => ih (hkeep hc he)

theorem mem_iterate (hf : ∀ {c d}, d ∈ f c ↔ R c d) {cs : List Place} :
    d ∈ (fun cs => cs.flatMap f)^[n] cs ↔ ∃ c ∈ cs, Iter R n c d := by
  induction n generalizing cs with
  | zero =>
    change d ∈ cs ↔ ∃ c ∈ cs, d = c
    exact ⟨fun h => ⟨d, h, rfl⟩, fun ⟨c, hc, hd⟩ => hd ▸ hc⟩
  | succ n ih =>
    rw [Function.iterate_succ_apply, ih]
    constructor
    · rintro ⟨e, he, hd⟩
      obtain ⟨c, hc, hce⟩ := List.mem_flatMap.mp he
      exact ⟨c, hc, e, hf.mp hce, hd⟩
    · rintro ⟨c, hc, e, hce, hd⟩
      exact ⟨e, List.mem_flatMap.mpr ⟨c, hc, hf.mpr hce⟩, hd⟩

theorem mem_upTo (hf : ∀ {c d}, d ∈ f c ↔ R c d) {cs : List Place} :
    d ∈ upTo f n cs ↔ ∃ c ∈ cs, ∃ k ≤ n, Iter R k c d := by
  induction n generalizing cs with
  | zero =>
    change d ∈ cs ↔ _
    constructor
    · intro h
      exact ⟨d, h, 0, le_rfl, rfl⟩
    · rintro ⟨c, hc, k, hk, hiter⟩
      obtain rfl := Nat.le_zero.mp hk
      obtain rfl : d = c := hiter
      exact hc
  | succ n ih =>
    rw [upTo, List.mem_append, ih]
    constructor
    · rintro (h | ⟨e, he, k, hk, hd⟩)
      · exact ⟨d, h, 0, Nat.zero_le _, rfl⟩
      · obtain ⟨c, hc, hce⟩ := List.mem_flatMap.mp he
        exact ⟨c, hc, k + 1, Nat.succ_le_succ hk, e, hf.mp hce, hd⟩
    · rintro ⟨c, hc, k, hk, hiter⟩
      cases k with
      | zero => exact .inl ((show d = c from hiter) ▸ hc)
      | succ k =>
        obtain ⟨e, hce, hd⟩ := hiter
        exact .inr ⟨e, List.mem_flatMap.mpr ⟨c, hc, hf.mpr hce⟩, k, Nat.le_of_succ_le_succ hk, hd⟩

/-! ## What a match eats -/

/-- The second place is behind some characters of the first. -/
def Eats (c d : Place) : Prop :=
  ∃ eaten, c.rest = eaten ++ d.rest ∧ d.before = eaten.reverse ++ c.before

theorem Eats.refl (c : Place) : Eats c c := ⟨[], rfl, rfl⟩

theorem Eats.trans (h : Eats c d) (h' : Eats d e) : Eats c e := by
  obtain ⟨eaten, hrest, hbefore⟩ := h
  obtain ⟨more, hrest', hbefore'⟩ := h'
  refine ⟨eaten ++ more, ?_, ?_⟩
  · rw [hrest, hrest', List.append_assoc]
  · rw [hbefore', hbefore, List.reverse_append, List.append_assoc]

/-- A match that eats nothing stays where it is. -/
theorem Eats.eq_or_lt (h : Eats c d) : d = c ∨ d.rest.length < c.rest.length := by
  obtain ⟨eaten, hrest, hbefore⟩ := h
  cases eaten with
  | nil => exact .inl (Place.ext hbefore hrest.symm)
  | cons x eaten =>
    refine .inr ?_
    rw [hrest, List.cons_append, List.length_cons, List.length_append]
    omega

theorem Iter.eats (hR : ∀ {c d}, R c d → Eats c d) (h : Iter R n c d) : Eats c d := by
  induction n generalizing c with
  | zero => exact (show d = c from h) ▸ Eats.refl c
  | succ n ih =>
    obtain ⟨e, he, hd⟩ := h
    exact (hR he).trans (ih hd)

theorem eats_of_matches (h : Matches isWord r c d) : Eats c d := by
  induction r generalizing c d with
  | empty => exact (show d = c from h) ▸ Eats.refl c
  | one p =>
    obtain ⟨x, -, hrest, hbefore⟩ := h
    exact ⟨[x], hrest, hbefore⟩
  | seq r s ihr ihs =>
    obtain ⟨e, he, hd⟩ := h
    exact (ihr he).trans (ihs hd)
  | alt r s ihr ihs => exact h.elim ihr ihs
  | rep r least most ih =>
    obtain ⟨n, -, -, hiter⟩ := h
    exact hiter.eats ih
  | boundary => exact h.2 ▸ Eats.refl c
  | lineStart => exact h.2 ▸ Eats.refl c

/-- Steps that eat nothing can be left out. -/
theorem Iter.exists_le (hR : ∀ {c d}, R c d → Eats c d) (h : Iter R n c d) :
    ∃ k ≤ c.rest.length, Iter R k c d := by
  induction n generalizing c with
  | zero => exact ⟨0, Nat.zero_le _, h⟩
  | succ n ih =>
    obtain ⟨e, he, hd⟩ := h
    obtain ⟨k, hk, hiter⟩ := ih hd
    rcases (hR he).eq_or_lt with rfl | hlt
    · exact ⟨k, hk, hiter⟩
    · exact ⟨k + 1, by omega, e, he, hiter⟩

/-! ## The computed ends -/

theorem mem_ends : d ∈ ends isWord r c ↔ Matches isWord r c d := by
  induction r generalizing c d with
  | empty => exact List.mem_singleton
  | one p =>
    rw [ends, Matches]
    split
    · next hrest =>
      refine iff_of_false List.not_mem_nil ?_
      rintro ⟨x, -, hrest', -⟩
      rw [hrest] at hrest'
      cases hrest'
    · next x rest hrest =>
      constructor
      · intro h
        split_ifs at h with hx
        · obtain rfl := List.mem_singleton.mp h
          exact ⟨x, hx, hrest, rfl⟩
        · cases h
      · rintro ⟨y, hy, hrest', hbefore⟩
        rw [hrest, List.cons.injEq] at hrest'
        obtain ⟨rfl, rfl⟩ := hrest'
        rw [if_pos hy, List.mem_singleton, ← hbefore]
  | seq r s ihr ihs =>
    rw [ends, Matches, List.mem_flatMap]
    simp only [ihr, ihs]
  | alt r s ihr ihs => rw [ends, Matches, List.mem_append, ihr, ihs]
  | rep r least most ih =>
    have hbegun : ∀ {e}, e ∈ (fun cs => cs.flatMap (ends isWord r))^[least] [c] ↔
        Iter (Matches isWord r) least c e := by
      intro e
      rw [mem_iterate ih]
      simp only [List.mem_singleton, exists_eq_left]
    cases most with
    | none =>
      change d ∈ upTo _ _ _ ↔ _
      rw [mem_upTo ih, Matches]
      constructor
      · rintro ⟨e, he, k, -, hd⟩
        have hmost : ∀ m ∈ (none : Option ℕ), least + k ≤ m :=
          fun m hm => absurd hm (Option.not_mem_none m)
        exact ⟨least + k, Nat.le_add_right _ _, hmost, (hbegun.mp he).add hd⟩
      · rintro ⟨n, hn, -, hiter⟩
        obtain ⟨k, rfl⟩ := Nat.exists_eq_add_of_le hn
        obtain ⟨e, he, hd⟩ := hiter.split
        obtain ⟨j, hj, hd'⟩ := hd.exists_le eats_of_matches
        obtain ⟨eaten, hrest, -⟩ := he.eats eats_of_matches
        refine ⟨e, hbegun.mpr he, j, hj.trans ?_, hd'⟩
        rw [hrest, List.length_append]
        exact Nat.le_add_left _ _
    | some m =>
      change d ∈ (if least ≤ m then upTo _ _ _ else []) ↔ _
      rw [Matches]
      split_ifs with hm
      · rw [mem_upTo ih]
        constructor
        · rintro ⟨e, he, k, hk, hd⟩
          refine ⟨least + k, Nat.le_add_right _ _, ?_, (hbegun.mp he).add hd⟩
          rintro _ ⟨⟩
          omega
        · rintro ⟨n, hn, hmost, hiter⟩
          obtain ⟨k, rfl⟩ := Nat.exists_eq_add_of_le hn
          obtain ⟨e, he, hd⟩ := hiter.split
          have hle := hmost m rfl
          exact ⟨e, hbegun.mpr he, k, by omega, hd⟩
      · refine iff_of_false List.not_mem_nil ?_
        rintro ⟨n, hn, hmost, -⟩
        exact hm (hn.trans (hmost m rfl))
  | boundary =>
    rw [ends, Matches]
    split_ifs with h <;> simp [h]
  | lineStart =>
    rw [ends, Matches]
    split_ifs with h <;> simp [h]

theorem mem_placesFrom {before text : List Char} : c ∈ placesFrom before text ↔
    ∃ eaten, text = eaten ++ c.rest ∧ c.before = eaten.reverse ++ before := by
  induction text generalizing before with
  | nil =>
    rw [placesFrom, List.mem_singleton]
    constructor
    · rintro rfl
      exact ⟨[], rfl, rfl⟩
    · rintro ⟨eaten, htext, hbefore⟩
      obtain ⟨rfl, hrest⟩ := List.append_eq_nil_iff.mp htext.symm
      exact Place.ext hbefore hrest
  | cons x text ih =>
    rw [placesFrom, List.mem_cons, ih]
    constructor
    · rintro (rfl | ⟨eaten, rfl, hbefore⟩)
      · exact ⟨[], rfl, rfl⟩
      · exact ⟨x :: eaten, rfl, by rw [hbefore, List.reverse_cons, List.append_assoc]; rfl⟩
    · rintro ⟨eaten, htext, hbefore⟩
      cases eaten with
      | nil => exact .inl (Place.ext hbefore htext.symm)
      | cons y eaten =>
        rw [List.cons_append, List.cons.injEq] at htext
        obtain ⟨rfl, rfl⟩ := htext
        exact .inr ⟨eaten, rfl, by rw [hbefore, List.reverse_cons, List.append_assoc]; rfl⟩

/-- The search finds what there is. -/
theorem search_iff {text : List Char} : search isWord r text = true ↔ Found isWord r text := by
  rw [search, List.any_eq_true]
  constructor
  · rintro ⟨c, hc, hends⟩
    obtain ⟨eaten, rfl, hbefore⟩ := mem_placesFrom.mp hc
    rw [Bool.not_eq_true', List.isEmpty_eq_false_iff] at hends
    obtain ⟨d, hd⟩ := List.exists_mem_of_ne_nil _ hends
    refine ⟨c, d, ?_, mem_ends.mp hd⟩
    rw [hbefore, List.append_nil, List.reverse_reverse]
  · rintro ⟨c, d, rfl, hd⟩
    refine ⟨c, mem_placesFrom.mpr ⟨c.before.reverse, rfl, ?_⟩, ?_⟩
    · rw [List.reverse_reverse, List.append_nil]
    · rw [Bool.not_eq_true', List.isEmpty_eq_false_iff]
      exact List.ne_nil_of_mem (mem_ends.mpr hd)

/-! ## More text around -/

/-- The same place, with more text before and after. -/
def Place.widen (pre post : List Char) (c : Place) : Place :=
  ⟨c.before ++ pre.reverse, c.rest ++ post⟩

/-- The text before ends with its last line, and the text after begins a line. -/
structure Lines (pre post : List Char) : Prop where
  pre : pre.getLast?.all (· = '\n') = true
  post : post.head?.all (· = '\n') = true

section Widen

variable {pre post : List Char} (hlines : Lines pre post) (hword : isWord '\n' = false)

theorem any_of_newline {x : Option Char} (h : x.all (· = '\n') = true)
    (hword : isWord '\n' = false) : x.any isWord = false := by
  cases x with
  | none => rfl
  | some x =>
    obtain rfl := of_decide_eq_true h
    exact hword

include hlines hword in
theorem atBoundary_widen (c : Place) :
    atBoundary isWord (c.widen pre post) = atBoundary isWord c := by
  have hbefore : (c.before ++ pre.reverse).head?.any isWord = c.before.head?.any isWord := by
    cases hc : c.before with
    | nil =>
      rw [List.nil_append, List.head?_reverse]
      exact any_of_newline hlines.pre hword
    | cons x xs => rfl
  have hrest : (c.rest ++ post).head?.any isWord = c.rest.head?.any isWord := by
    cases hc : c.rest with
    | nil => exact any_of_newline hlines.post hword
    | cons x xs => rfl
  rw [atBoundary, atBoundary, Place.widen, hbefore, hrest]

include hlines in
theorem atLineStart_widen (c : Place) : atLineStart (c.widen pre post) = atLineStart c := by
  rw [atLineStart, atLineStart, Place.widen]
  cases hc : c.before with
  | nil =>
    rw [List.nil_append, List.head?_reverse, hlines.pre]
    rfl
  | cons x xs => rfl

theorem Iter.widen {S : Place → Place → Prop} (g : Place → Place)
    (hR : ∀ {c d}, R c d → S (g c) (g d)) (h : Iter R n c d) : Iter S n (g c) (g d) := by
  induction n generalizing c with
  | zero => exact congrArg g (show d = c from h)
  | succ n ih =>
    obtain ⟨e, he, hd⟩ := h
    exact ⟨g e, hR he, ih hd⟩

include hlines hword in
/-- A match stays one with more lines before and after. -/
theorem Matches.widen (h : Matches isWord r c d) :
    Matches isWord r (c.widen pre post) (d.widen pre post) := by
  induction r generalizing c d with
  | empty => exact congrArg _ (show d = c from h)
  | one p =>
    obtain ⟨x, hx, hrest, hbefore⟩ := h
    refine ⟨x, hx, ?_, ?_⟩
    · rw [Place.widen, hrest]
      rfl
    · rw [Place.widen, hbefore]
      rfl
  | seq r s ihr ihs =>
    obtain ⟨e, he, hd⟩ := h
    exact ⟨e.widen pre post, ihr he, ihs hd⟩
  | alt r s ihr ihs => exact h.imp ihr ihs
  | rep r least most ih =>
    obtain ⟨n, hleast, hmost, hiter⟩ := h
    exact ⟨n, hleast, hmost, hiter.widen _ ih⟩
  | boundary =>
    obtain ⟨hat, rfl⟩ := h
    exact ⟨(atBoundary_widen hlines hword _).trans hat, rfl⟩
  | lineStart =>
    obtain ⟨hat, rfl⟩ := h
    exact ⟨(atLineStart_widen hlines _).trans hat, rfl⟩

include hlines hword in
theorem Found.widen {text : List Char} (h : Found isWord r text) :
    Found isWord r (pre ++ text ++ post) := by
  obtain ⟨c, d, rfl, hd⟩ := h
  refine ⟨c.widen pre post, d.widen pre post, ?_, hd.widen hlines hword⟩
  rw [Place.widen, List.reverse_append, List.reverse_reverse]
  simp only [List.append_assoc]

end Widen

/-! ## Texts over an alphabet -/

/-- The text around the place has only characters of the alphabet. -/
def Over (A : Char → Prop) (c : Place) : Prop := (∀ x ∈ c.before, A x) ∧ ∀ x ∈ c.rest, A x

section Alphabet

variable {A : Char → Prop} {r' s' : Rx}

theorem Over.eats (hc : Over A c) (h : Eats c d) : Over A d := by
  obtain ⟨eaten, hrest, hbefore⟩ := h
  refine ⟨fun x hx => ?_, fun x hx => hc.2 x (hrest ▸ List.mem_append_right _ hx)⟩
  rw [hbefore, List.mem_append, List.mem_reverse] at hx
  exact hx.elim (fun hx => hc.2 x (hrest ▸ List.mem_append_left _ hx)) (hc.1 x)

theorem Over.of_matches (hc : Over A c) (h : Matches isWord r c d) : Over A d :=
  hc.eats (eats_of_matches h)

/-- No text over the alphabet tells the two expressions apart. -/
def Agrees (isWord : Char → Bool) (A : Char → Prop) (r s : Rx) : Prop :=
  ∀ c d, Over A c → (Matches isWord r c d ↔ Matches isWord s c d)

theorem Agrees.refl (r : Rx) : Agrees isWord A r r := fun _ _ _ => Iff.rfl

theorem Agrees.alt (hr : Agrees isWord A r r') (hs : Agrees isWord A s s') :
    Agrees isWord A (.alt r s) (.alt r' s') :=
  fun c d hc => or_congr (hr c d hc) (hs c d hc)

theorem Agrees.found_iff (h : Agrees isWord A r s) {text : List Char} (htext : ∀ x ∈ text, A x) :
    Found isWord r text ↔ Found isWord s text := by
  refine exists_congr fun c => exists_congr fun d => and_congr_right ?_
  rintro rfl
  refine h c d ⟨fun x hx => htext x ?_, fun x hx => htext x ?_⟩
  · exact List.mem_append_left _ (List.mem_reverse.mpr hx)
  · exact List.mem_append_right _ hx

end Alphabet

end Rx

end Eyenet
