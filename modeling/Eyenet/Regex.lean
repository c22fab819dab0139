import Mathlib.Data.List.Forall2
import Mathlib.Data.List.TakeWhile

/-!
# Regular expressions with backtracking

Patterns of single characters, fixed texts, choices and greedy repetitions of one character class,
with one group, a word boundary and a look behind. A pattern gives its matches at a place in the
order in which a backtracking engine tries them; the first one counts.

* `Regex.Cursor.eat_eq_some` — which texts a list of classes eats.
* `Regex.Pattern.eats_of_mem` — a match eats a part of the text in front of it.
* `Regex.Pattern.finditer` — the matches of a text from left to right, none inside another.
-/

namespace Eyenet

namespace Regex

/-- A place in a text: what is before it, the last character first, and what is left; and the text
of the group, as far as it is known. -/
structure Cursor where
  before : List Char
  rest : List Char
  group : List Char
  deriving DecidableEq

/-- A class of characters. -/
abbrev CharClass := Char → Bool

/-- A pattern. -/
inductive Pattern where
  /-- one character of each class in turn -/
  | text (classes : List CharClass)
  | seq (r s : Pattern)
  /-- the first, or else the second -/
  | alt (r s : Pattern)
  /-- as many characters of the class as possible -/
  | many (p : CharClass) (least : ℕ) (most : Option ℕ)
  | group (r : Pattern)
  /-- `\b` -/
  | boundary
  /-- `(?<!…)` for a class -/
  | notBehind (p : CharClass)

/-- `(?:…)?` -/
def Pattern.opt (r : Pattern) : Pattern := .alt r (.text [])

/-- A text, character by character. -/
def literal (s : String) : List CharClass := s.toList.map fun c => fun x => x = c

namespace Cursor

/-- The place after some characters. -/
def advance (c : Cursor) (n : ℕ) : Cursor :=
  { c with before := (c.rest.take n).reverse ++ c.before, rest := c.rest.drop n }

/-- The place after one character of each class. -/
def eat (c : Cursor) : List CharClass → Option Cursor
  | [] => some c
  | p :: ps =>
    match c.rest with
    | [] => none
    | x :: rest => if p x then eat { c with before := x :: c.before, rest } ps else none

/-- The second place is behind some characters of the first. -/
structure Eats (c : Cursor) (eaten : List Char) (d : Cursor) : Prop where
  rest : c.rest = eaten ++ d.rest
  before : d.before = eaten.reverse ++ c.before

end Cursor

/-- The longest run of a class from a place, at most so many. -/
def runLength (p : CharClass) (most : Option ℕ) (c : Cursor) : ℕ :=
  most.elim (c.rest.takeWhile p).length (min (c.rest.takeWhile p).length)

section Matching

variable (isWord : CharClass)

/-- Exactly one of the characters before and after is of a word. -/
def atBoundary (c : Cursor) : Bool := c.before.head?.any isWord != c.rest.head?.any isWord

/-- The matches at a place, in the order in which they are tried. -/
def Pattern.matchesAt : Pattern → Cursor → List Cursor
  | text classes, c => (c.eat classes).toList
  | seq r s, c => (r.matchesAt c).flatMap s.matchesAt
  | alt r s, c => r.matchesAt c ++ s.matchesAt c
  | many p least most, c =>
    ((List.range (runLength p most c + 1)).reverse.filter fun n => least ≤ n).map c.advance
  | group r, c => (r.matchesAt c).map fun d =>
    { d with group := c.rest.take (c.rest.length - d.rest.length) }
  | boundary, c => if atBoundary isWord c then [c] else []
  | notBehind p, c => if c.before.head?.any p then [] else [c]

/-- A match, from its first place to the one behind it. -/
structure Match where
  start : Cursor
  stop : Cursor
  deriving DecidableEq

/-- The match at a place. -/
def Pattern.matchAt (r : Pattern) (c : Cursor) : Option Match :=
  ((r.matchesAt isWord c).head?).map fun d => ⟨c, d⟩

/-- The matches from a place on; behind a match the search goes on where it ends. -/
def Pattern.search (r : Pattern) : ℕ → Cursor → List Match
  | 0, _ => []
  | n + 1, c =>
    match r.matchAt isWord { c with group := [] } with
    | some m =>
      if m.stop.rest.length < c.rest.length then m :: r.search n m.stop
      else if c.rest = [] then [m]
      else m :: r.search n (c.advance 1)
    | none => if c.rest = [] then [] else r.search n (c.advance 1)

/-- `finditer` -/
def Pattern.finditer (r : Pattern) (text : List Char) : List Match :=
  r.search isWord (text.length + 1) ⟨[], text, []⟩

/-- The text from a place on with another one for each match. -/
def Pattern.replace (r : Pattern) (replacement : List Char) : ℕ → Cursor → List Char
  | 0, c => c.rest
  | n + 1, c =>
    match r.matchAt isWord { c with group := [] } with
    | some m =>
      if m.stop.rest.length < c.rest.length then replacement ++ r.replace replacement n m.stop
      else replacement ++ c.rest.take 1 ++ r.replace replacement n (c.advance 1)
    | none =>
      match c.rest with
      | [] => []
      | x :: _ => x :: r.replace replacement n (c.advance 1)

/-- `sub` -/
def Pattern.sub (r : Pattern) (replacement text : List Char) : List Char :=
  r.replace isWord replacement (text.length + 1) ⟨[], text, []⟩

end Matching

/-! ## What a match eats -/

variable {isWord : CharClass} {r s : Pattern} {p : CharClass} {ps : List CharClass}
  {c d e : Cursor} {eaten more : List Char} {least : ℕ} {most : Option ℕ}

namespace Cursor

theorem Eats.refl (c : Cursor) : c.Eats [] c := ⟨rfl, rfl⟩

theorem Eats.trans (h : c.Eats eaten d) (h' : d.Eats more e) : c.Eats (eaten ++ more) e where
  rest := by rw [h.rest, h'.rest, List.append_assoc]
  before := by rw [h'.before, h.before, List.reverse_append, List.append_assoc]

theorem eats_advance (c : Cursor) (n : ℕ) : c.Eats (c.rest.take n) (c.advance n) :=
  ⟨(List.take_append_drop n c.rest).symm, rfl⟩

/-- What is eaten and the group determine the place behind. -/
theorem Eats.eq (h : c.Eats eaten d) (h' : c.Eats eaten e) (hgroup : d.group = e.group) :
    d = e := by
  have hrest : d.rest = e.rest := List.append_cancel_left (h.rest.symm.trans h'.rest)
  have hbefore : d.before = e.before := h.before.trans h'.before.symm
  cases d
  cases e
  simp_all

theorem Eats.take_eq (h : c.Eats eaten d) :
    c.rest.take (c.rest.length - d.rest.length) = eaten := by
  rw [h.rest, List.length_append, Nat.add_sub_cancel, List.take_left]

/-- A list of classes eats a character of each. -/
theorem eat_eq_some : c.eat ps = some d ↔ ∃ eaten, List.Forall₂ (fun p x => p x = true) ps eaten ∧
    c.Eats eaten d ∧ d.group = c.group := by
  induction ps generalizing c with
  | nil =>
    simp only [eat, Option.some.injEq, List.forall₂_nil_left_iff, exists_eq_left]
    exact ⟨fun h => h ▸ ⟨Eats.refl c, rfl⟩, fun h => (Eats.refl c).eq h.1 h.2.symm⟩
  | cons p ps ih =>
    rw [eat]
    split
    · next hrest =>
      refine iff_of_false (by simp) ?_
      rintro ⟨eaten, hclasses, heats, -⟩
      obtain ⟨x, xs, -, -, rfl⟩ := List.forall₂_cons_left_iff.mp hclasses
      rw [heats.rest] at hrest
      cases hrest
    · next x rest hrest =>
      have hone : c.Eats [x] { c with before := x :: c.before, rest } := ⟨hrest, rfl⟩
      refine ⟨?_, ?_⟩
      · intro h
        split_ifs at h with hx
        obtain ⟨eaten, hclasses, heats, hgroup⟩ := ih.mp h
        exact ⟨x :: eaten, .cons hx hclasses, hone.trans heats, hgroup⟩
      · rintro ⟨eaten, hclasses, heats, hgroup⟩
        obtain ⟨y, ys, hy, hys, rfl⟩ := List.forall₂_cons_left_iff.mp hclasses
        have hsame := heats.rest
        rw [hrest, List.cons_append, List.cons.injEq] at hsame
        obtain ⟨rfl, hrest'⟩ := hsame
        rw [if_pos hy]
        refine ih.mpr ⟨ys, hys, ⟨hrest', ?_⟩, hgroup⟩
        rw [heats.before, List.reverse_cons, List.append_assoc]
        rfl

/-- Classes in a row are eaten one list after the other. -/
theorem eat_append {qs : List CharClass} :
    c.eat (ps ++ qs) = (c.eat ps).bind fun d => d.eat qs := by
  induction ps generalizing c with
  | nil => rfl
  | cons p ps ih =>
    rw [List.cons_append, eat, eat]
    split
    · rfl
    · split_ifs
      · exact ih
      · rfl

/-- Two lists of classes that begin apart do not both eat. -/
theorem eat_eq_none_of_apart {q : CharClass} {qs : List CharClass}
    (hapart : ∀ x, p x = true → q x = false) (h : c.eat (p :: ps) = some d) :
    c.eat (q :: qs) = none := by
  rw [eat] at h ⊢
  split at h
  · cases h
  · next x _ _ =>
    split_ifs at h with hx
    simp only [hapart x hx, Bool.false_eq_true, if_false]

end Cursor

namespace Pattern

theorem mem_text : d ∈ (text ps).matchesAt isWord c ↔ c.eat ps = some d := Option.mem_toList

theorem mem_seq : d ∈ (r.seq s).matchesAt isWord c ↔
    ∃ e ∈ r.matchesAt isWord c, d ∈ s.matchesAt isWord e := List.mem_flatMap

theorem mem_alt : d ∈ (r.alt s).matchesAt isWord c ↔
    d ∈ r.matchesAt isWord c ∨ d ∈ s.matchesAt isWord c := List.mem_append

theorem mem_opt : d ∈ r.opt.matchesAt isWord c ↔ d ∈ r.matchesAt isWord c ∨ d = c := by
  rw [opt, mem_alt, mem_text, Cursor.eat, Option.some.injEq, eq_comm]

theorem mem_boundary : d ∈ boundary.matchesAt isWord c ↔ atBoundary isWord c = true ∧ d = c := by
  change d ∈ (if atBoundary isWord c then [c] else []) ↔ _
  split_ifs with h <;> simp [h]

theorem mem_notBehind : d ∈ (notBehind p).matchesAt isWord c ↔
    c.before.head?.any p = false ∧ d = c := by
  change d ∈ (if c.before.head?.any p then [] else [c]) ↔ _
  split_ifs with h <;> simp [h]

theorem le_runLength_iff {n : ℕ} : n ≤ runLength p most c ↔
    n ≤ (c.rest.takeWhile p).length ∧ ∀ m ∈ most, n ≤ m := by
  cases most with
  | none => simp [runLength]
  | some m => simp [runLength, Nat.le_min, and_comm]

theorem matchesAt_many : (many p least most).matchesAt isWord c =
    ((List.range (runLength p most c + 1)).reverse.filter fun n => least ≤ n).map c.advance := rfl

theorem matchesAt_group : (group r).matchesAt isWord c = (r.matchesAt isWord c).map fun d =>
    { d with group := c.rest.take (c.rest.length - d.rest.length) } := rfl

/-- A repetition eats characters of the class, not too few and not too many. -/
theorem mem_many : d ∈ (many p least most).matchesAt isWord c ↔ ∃ eaten, c.Eats eaten d ∧
    d.group = c.group ∧ (∀ x ∈ eaten, p x = true) ∧ least ≤ eaten.length ∧
      ∀ m ∈ most, eaten.length ≤ m := by
  rw [matchesAt_many, List.mem_map]
  simp only [List.mem_filter, List.mem_reverse, List.mem_range, Nat.lt_succ_iff, le_runLength_iff,
    decide_eq_true_eq]
  refine ⟨?_, ?_⟩
  · rintro ⟨n, ⟨⟨hrun, hmost⟩, hleast⟩, rfl⟩
    have hlength : (c.rest.take n).length = n :=
      List.length_take_of_le (hrun.trans (List.takeWhile_prefix p).length_le)
    refine ⟨c.rest.take n, c.eats_advance n, rfl, fun x hx => ?_, hlength.symm ▸ hleast,
      hlength.symm ▸ hmost⟩
    rw [← List.takeWhile_append_dropWhile (p := p) (l := c.rest),
      List.take_append_of_le_length hrun] at hx
    exact List.mem_takeWhile_imp (List.mem_of_mem_take hx)
  · rintro ⟨eaten, heats, hgroup, hclass, hleast, hmost⟩
    refine ⟨eaten.length, ⟨⟨?_, hmost⟩, hleast⟩, ?_⟩
    · rw [heats.rest, List.takeWhile_append_of_pos hclass, List.length_append]
      exact Nat.le_add_right _ _
    · refine (Cursor.eats_advance c eaten.length).eq ?_ hgroup.symm
      rwa [heats.rest, List.take_left]

/-- A group remembers what it eats. -/
theorem mem_group (h : d ∈ (group r).matchesAt isWord c) :
    ∃ e ∈ r.matchesAt isWord c, ∀ eaten, c.Eats eaten e → d = { e with group := eaten } := by
  rw [matchesAt_group, List.mem_map] at h
  obtain ⟨e, he, rfl⟩ := h
  exact ⟨e, he, fun eaten heats => by rw [heats.take_eq]⟩

theorem exists_mem_group :
    (∃ d, d ∈ (group r).matchesAt isWord c) ↔ ∃ d, d ∈ r.matchesAt isWord c := by
  simp only [matchesAt_group, List.mem_map]
  exact ⟨fun ⟨_, e, he, _⟩ => ⟨e, he⟩, fun ⟨e, he⟩ => ⟨_, e, he, rfl⟩⟩

/-- There is a repetition if the run of the class is long enough, and it may be that long. -/
theorem exists_mem_many : (∃ d, d ∈ (many p least most).matchesAt isWord c) ↔
    least ≤ (c.rest.takeWhile p).length ∧ ∀ m ∈ most, least ≤ m := by
  simp only [matchesAt_many, List.mem_map, List.mem_filter, List.mem_reverse, List.mem_range,
    Nat.lt_succ_iff, decide_eq_true_eq]
  rw [← le_runLength_iff]
  refine ⟨?_, ?_⟩
  · rintro ⟨_, n, ⟨hn, hleast⟩, -⟩
    exact hleast.trans hn
  · intro h
    exact ⟨_, least, ⟨h, le_rfl⟩, rfl⟩

/-- A match eats a part of the text. -/
theorem eats_of_mem (h : d ∈ r.matchesAt isWord c) : ∃ eaten, c.Eats eaten d := by
  induction r generalizing c d with
  | text classes =>
    obtain ⟨eaten, -, heats, -⟩ := Cursor.eat_eq_some.mp (mem_text.mp h)
    exact ⟨eaten, heats⟩
  | seq r s ihr ihs =>
    obtain ⟨e, he, hd⟩ := mem_seq.mp h
    obtain ⟨eaten, heats⟩ := ihr he
    obtain ⟨more, hmore⟩ := ihs hd
    exact ⟨eaten ++ more, heats.trans hmore⟩
  | alt r s ihr ihs =>
    rcases mem_alt.mp h with h | h
    · exact ihr h
    · exact ihs h
  | many p least most =>
    obtain ⟨eaten, heats, -⟩ := mem_many.mp h
    exact ⟨eaten, heats⟩
  | group r ih =>
    obtain ⟨e, he, hd⟩ := mem_group h
    obtain ⟨eaten, heats⟩ := ih he
    rw [hd eaten heats]
    exact ⟨eaten, heats.rest, heats.before⟩
  | boundary => exact ⟨[], (mem_boundary.mp h).2 ▸ Cursor.Eats.refl c⟩
  | notBehind p => exact ⟨[], (mem_notBehind.mp h).2 ▸ Cursor.Eats.refl c⟩

theorem matchAt_eq_none : r.matchAt isWord c = none ↔ ¬∃ d, d ∈ r.matchesAt isWord c := by
  rw [matchAt, Option.map_eq_none_iff, List.head?_eq_none_iff, List.eq_nil_iff_forall_not_mem,
    not_exists]

theorem mem_of_matchAt {m : Match} (h : r.matchAt isWord c = some m) :
    m.start = c ∧ m.stop ∈ r.matchesAt isWord c := by
  obtain ⟨d, hd, rfl⟩ := Option.map_eq_some_iff.mp h
  exact ⟨rfl, List.mem_of_head? hd⟩

/-- What a search finds is a match of the pattern at its start. -/
theorem mem_of_mem_search {n : ℕ} {m : Match} (h : m ∈ r.search isWord n c) :
    m.stop ∈ r.matchesAt isWord m.start := by
  induction n generalizing c with
  | zero => exact absurd h List.not_mem_nil
  | succ n ih =>
    rw [search] at h
    split at h
    · next found hfound =>
      have hm : m = found → m.stop ∈ r.matchesAt isWord m.start := by
        rintro rfl
        obtain ⟨hstart, hstop⟩ := mem_of_matchAt hfound
        rwa [hstart]
      split_ifs at h
      · exact (List.mem_cons.mp h).elim hm ih
      · exact hm (List.mem_singleton.mp h)
      · exact (List.mem_cons.mp h).elim hm ih
    · split_ifs at h
      · exact absurd h List.not_mem_nil
      · exact ih h

theorem mem_of_mem_finditer {xs : List Char} {m : Match} (h : m ∈ r.finditer isWord xs) :
    m.stop ∈ r.matchesAt isWord m.start :=
  mem_of_mem_search h

end Pattern

end Regex

end Eyenet
