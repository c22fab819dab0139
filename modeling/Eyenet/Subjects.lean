import Eyenet.Wildcard
import Mathlib.Data.List.Basic

/-!
# Subjects

The in-process bus matches the subject of a message against the patterns of its subscriptions as
the server of NATS does (`bus/subjects.py`). `natsPattern` is the rule: a token `*` is for any one
token, a token `>` at the end is for one or more, and each other token is for itself.

* `matchFrom_iff` — the loop decides the rule up to the first `>`.
* `subjectMatches_iff_nats` — it decides the rule on the patterns whose `>` stands only last, and
  what follows an earlier `>` it does not read.
* `isValidPattern_iff` — the check of a pattern lets only such patterns pass.
-/

namespace Eyenet

namespace Subjects

open Wildcard

abbrev Token := List Char

/-- `_split` -/
def split (s : String) : List Token := if s = "" then [] else s.toList.splitOn '.'

/-- The loop of `subject_matches` over the pattern, at the index `i` of the subject's tokens. -/
def matchFrom (s : List Token) : List Token → ℕ → Bool
  | [], i => i == s.length
  | tok :: p, i =>
    if tok = ['>'] then decide (i < s.length)
    else if h : i < s.length then
      if tok = ['*'] then matchFrom s p (i + 1)
      else if tok ≠ s[i] then false
      else matchFrom s p (i + 1)
    else false

/-- `".".join(tokens)` -/
def join (tokens : List Token) : String := String.ofList (['.'].intercalate tokens)

/-- `subject_matches` -/
def subjectMatches (pattern subject : String) : Bool :=
  matchFrom (split subject) (split pattern) 0

/-- `is_valid_pattern` -/
def isValidPattern (pattern : String) : Bool :=
  if pattern = "" then false
  else
    let tokens := pattern.toList.splitOn '.'
    tokens.zipIdx.all fun (t, idx) =>
      if t = [] then false
      else if t = ['>'] ∧ idx ≠ tokens.length - 1 then false
      else true

/-! ## Tokens -/

theorem join_split (s : String) : join (split s) = s := by
  rw [split]
  split_ifs with h
  · exact h.symm
  · rw [join, List.intercalate_splitOn, String.ofList_toList]

/-- Tokens without dots are the tokens of their join, the empty token alone apart. -/
theorem split_join {tokens : List Token} (hdot : ∀ t ∈ tokens, '.' ∉ t) (hne : tokens ≠ [[]]) :
    split (join tokens) = tokens := by
  rw [split]
  split_ifs with h
  · rw [join, String.ofList_eq_empty_iff] at h
    match tokens with
    | [] => rfl
    | [t] =>
      have ht : t = [] := by simpa [List.intercalate] using h
      exact absurd (congrArg (fun t => [t]) ht) hne
    | t :: u :: rest => simp [List.intercalate] at h
  · rw [join, String.toList_ofList]
    refine List.splitOn_intercalate '.' hdot ?_
    rintro rfl
    exact h rfl

/-! ## The rule -/

/-- The place of a token that is not a `>` at the end. -/
def place (tok : Token) : Option Token := if tok = ['*'] then none else some tok

/-- The rule of NATS: a token `*` is for any one token, a token `>` at the end is for one or more
tokens, and each other token is for itself. -/
def natsPattern (p : List Token) : Pattern Token :=
  if p.getLast? = some ['>'] then ⟨p.dropLast.map place, true⟩ else ⟨p.map place, false⟩

@[simp] theorem natsPattern_nil : natsPattern [] = ⟨[], false⟩ := rfl

@[simp] theorem natsPattern_gt : natsPattern [['>']] = ⟨[], true⟩ := rfl

theorem natsPattern_cons {tok : Token} {p : List Token} (h : tok ≠ ['>'] ∨ p ≠ []) :
    natsPattern (tok :: p) = ⟨place tok :: (natsPattern p).places, (natsPattern p).more⟩ := by
  cases p with
  | nil =>
    have htok : tok ≠ ['>'] := h.resolve_right (not_not_intro rfl)
    simp [natsPattern, htok]
  | cons tok' p =>
    rw [natsPattern, natsPattern, List.getLast?_cons_cons]
    split_ifs
    · rfl
    · rfl

theorem accepts_place {tok t : Token} : Accepts (place tok) t ↔ tok = ['*'] ∨ tok = t := by
  rw [place]
  split_ifs with h
  · simp [h]
  · simp [h]

theorem natsPattern_literal {p s : List Token} (h : ∀ tok ∈ p, tok ≠ ['*'] ∧ tok ≠ ['>']) :
    (natsPattern p).Matches s ↔ s = p := by
  induction p generalizing s with
  | nil => exact Pattern.matches_end
  | cons tok p ih =>
    obtain ⟨⟨hstar, hgt⟩, hp⟩ := List.forall_mem_cons.mp h
    rw [natsPattern_cons (Or.inl hgt)]
    cases s with
    | nil => exact iff_of_false Pattern.not_matches_cons_nil (List.cons_ne_nil tok p).symm
    | cons t s =>
      rw [Pattern.matches_cons, accepts_place, ih hp, or_iff_right hstar, List.cons_eq_cons,
        eq_comm]

/-- The tokens of a pattern up to its first `>`. -/
def upToGt : List Token → List Token
  | [] => []
  | tok :: p => if tok = ['>'] then [tok] else tok :: upToGt p

@[simp] theorem upToGt_append_cons {front : List Token} (h : ['>'] ∉ front) (rest : List Token) :
    upToGt (front ++ ['>'] :: rest) = front ++ [['>']] := by
  induction front with
  | nil => rfl
  | cons tok front ih =>
    have htok : tok ≠ ['>'] := (List.ne_of_not_mem_cons h).symm
    rw [List.cons_append, upToGt, if_neg htok, ih (List.not_mem_of_not_mem_cons h)]
    rfl

theorem upToGt_of_not_mem {p : List Token} (h : ['>'] ∉ p) : upToGt p = p := by
  induction p with
  | nil => rfl
  | cons tok p ih =>
    have htok : tok ≠ ['>'] := (List.ne_of_not_mem_cons h).symm
    rw [upToGt, if_neg htok, ih (List.not_mem_of_not_mem_cons h)]

/-- Where the `>` stands only last, the pattern is read to its end. -/
theorem upToGt_eq_self {p : List Token} (h : ['>'] ∉ p.dropLast) : upToGt p = p := by
  by_cases hmem : ['>'] ∈ p
  · obtain ⟨front, rest, rfl⟩ := List.append_of_mem hmem
    cases rest with
    | nil =>
      rw [List.dropLast_concat] at h
      exact upToGt_append_cons h []
    | cons tok rest =>
      refine absurd ?_ h
      rw [List.dropLast_append_of_ne_nil (List.cons_ne_nil _ _), List.dropLast_cons_cons]
      exact List.mem_append_right front List.mem_cons_self
  · exact upToGt_of_not_mem hmem

/-! ## The loop -/

/-- **The loop decides the rule** on the tokens that are left. -/
theorem matchFrom_iff {s p : List Token} {i : ℕ} (hi : i ≤ s.length) :
    matchFrom s p i = true ↔ (natsPattern (upToGt p)).Matches (s.drop i) := by
  induction p generalizing i with
  | nil =>
    rw [matchFrom, upToGt, natsPattern_nil, Pattern.matches_end, List.drop_eq_nil_iff, beq_iff_eq]
    omega
  | cons tok p ih =>
    rw [matchFrom, upToGt]
    by_cases hgt : tok = ['>']
    · rw [if_pos hgt, if_pos hgt, hgt, natsPattern_gt, Pattern.matches_more, ne_eq,
        List.drop_eq_nil_iff, decide_eq_true_iff]
      omega
    · rw [if_neg hgt, if_neg hgt, natsPattern_cons (Or.inl hgt)]
      by_cases hlt : i < s.length
      · have hrest : matchFrom s p (i + 1) = true ↔ _ := ih hlt
        rw [dif_pos hlt, List.drop_eq_getElem_cons hlt, Pattern.matches_cons, accepts_place,
          ← hrest]
        split_ifs with hstar hne
        · simp [hstar]
        · simp [hstar, hne]
        · simp [not_not.mp hne]
      · -- no token of the subject is left for this one
        rw [dif_neg hlt, List.drop_eq_nil_of_le (Nat.not_lt.mp hlt)]
        exact iff_of_false Bool.false_ne_true Pattern.not_matches_cons_nil

theorem subjectMatches_iff {pattern subject : String} : subjectMatches pattern subject = true ↔
    (natsPattern (upToGt (split pattern))).Matches (split subject) :=
  matchFrom_iff (Nat.zero_le _)

/-- A pattern whose `>` stands only last matches by the rule. -/
theorem subjectMatches_of_last {pattern subject : String}
    (h : ['>'] ∉ (split pattern).dropLast) : subjectMatches pattern subject = true ↔
      (natsPattern (split pattern)).Matches (split subject) := by
  rw [subjectMatches_iff, upToGt_eq_self h]

/-- A pattern without wildcards matches itself alone. -/
theorem subjectMatches_literal {pattern subject : String}
    (h : ∀ tok ∈ split pattern, tok ≠ ['*'] ∧ tok ≠ ['>']) :
    subjectMatches pattern subject = true ↔ subject = pattern := by
  have hlast : ['>'] ∉ (split pattern).dropLast := fun hmem =>
    (h _ (List.dropLast_subset _ hmem)).2 rfl
  have hself : split subject = split pattern ↔ subject = pattern :=
    ⟨fun heq => by rw [← join_split subject, heq, join_split], fun heq => by rw [heq]⟩
  rw [subjectMatches_of_last hlast, natsPattern_literal h, hself]

/-! ## Valid patterns -/

theorem not_mem_dropLast_iff {α : Type*} {a : α} {l : List α} :
    a ∉ l.dropLast ↔ ∀ i, l[i]? = some a → i = l.length - 1 := by
  rw [List.mem_iff_getElem?, not_exists]
  refine forall_congr' fun i => ?_
  rw [List.getElem?_dropLast]
  split_ifs with hi
  · exact ⟨fun h ha => absurd ha h, fun h ha => absurd (h ha) (by omega)⟩
  · refine iff_of_true (fun h => nomatch h) fun ha => ?_
    obtain ⟨hlt, -⟩ := List.getElem?_eq_some_iff.mp ha
    omega

/-- **The check of a pattern.** There are tokens, none of them is empty, and a `>` stands only
last. -/
theorem isValidPattern_iff {pattern : String} : isValidPattern pattern = true ↔
    pattern ≠ "" ∧ [] ∉ split pattern ∧ ['>'] ∉ (split pattern).dropLast := by
  rw [isValidPattern, split]
  split_ifs with hempty
  · simp [hempty]
  · rw [not_mem_dropLast_iff, List.all_eq_true]
    constructor
    · intro hall
      refine ⟨hempty, fun hnil => ?_, fun i hi => ?_⟩
      · obtain ⟨i, hi⟩ := List.mem_iff_getElem?.mp hnil
        simpa using hall ([], i) (List.mem_zipIdx_iff_getElem?.mpr hi)
      · by_contra hne
        simpa [hne] using hall (['>'], i) (List.mem_zipIdx_iff_getElem?.mpr hi)
    · rintro ⟨-, hnil, hlast⟩ ⟨t, i⟩ hmem
      have hi := List.mem_zipIdx_iff_getElem?.mp hmem
      have ht : t ≠ [] := fun h => hnil (h ▸ List.mem_of_getElem? hi)
      have hgt : ¬(t = ['>'] ∧ i ≠ _) := fun h => h.2 (hlast i (h.1 ▸ hi))
      dsimp only
      rw [if_neg ht, if_neg hgt]

/-- **Subjects match as in NATS**, where a `>` stands only last, as the check of a pattern requires.
What follows an earlier `>` is not read. -/
theorem subjectMatches_iff_nats (pattern subject : String) :
    (['>'] ∉ (split pattern).dropLast →
        (subjectMatches pattern subject = true ↔
          (natsPattern (split pattern)).Matches (split subject))) ∧
      (∀ front rest, split pattern = front ++ ['>'] :: rest → ['>'] ∉ front →
        (subjectMatches pattern subject = true ↔
          (natsPattern (front ++ [['>']])).Matches (split subject))) ∧
      (isValidPattern pattern = true → ['>'] ∉ (split pattern).dropLast) := by
  refine ⟨subjectMatches_of_last, fun front rest hp hfront => ?_, ?_⟩
  · rw [subjectMatches_iff, hp, upToGt_append_cons hfront]
  · intro h
    exact (isValidPattern_iff.mp h).2.2

theorem subjectMatches_iff_nats_dotted :
    (subjectMatches "a.*.>" "a.b.c.d" = true ↔
        (natsPattern (split "a.*.>")).Matches (split "a.b.c.d")) ∧
      (subjectMatches "a.>.b" "a.x" = true ↔
        (natsPattern [['a'], ['>']]).Matches (split "a.x")) ∧
      ['>'] ∉ (split "a.*.>").dropLast := by
  refine ⟨(subjectMatches_iff_nats "a.*.>" "a.b.c.d").1 (by decide), ?_, ?_⟩
  · exact (subjectMatches_iff_nats "a.>.b" "a.x").2.1 [['a']] [['b']] (by decide) (by decide)
  · exact (subjectMatches_iff_nats "a.*.>" "").2.2 (by decide)

/-- A `>` that is not last ends the pattern all the same. -/
theorem early_gt_matches :
    subjectMatches "a.>.b" "a.x" = true ∧
      ¬(natsPattern (split "a.>.b")).Matches (split "a.x") := by
  decide

end Subjects

end Eyenet
