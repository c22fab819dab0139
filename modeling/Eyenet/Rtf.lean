import Eyenet.Framing
import Eyenet.Json
import Eyenet.Machine
import Eyenet.PyJson

/-!
# Text from RTF

The worker for RTF (`classifier/extract/_workers/rtf_worker.py`) cuts a document into tokens by a
regular expression, and goes through them with a stack of what the open groups have set. What it
keeps is the text that is classified.

* `Rtf.rtfToText_eq` — whatever the input, the stack gives every token the settings of its group.
* `Rtf.rtfToText_spell` — a document that is spelled out has the text that it means.
-/

namespace Eyenet

open PyJson

/-! ## Texts that are printed -/

/-- What is printed, and how many characters are to be skipped afterwards, by how many are to be
skipped before; `none` is an exception. -/
abbrev Printer := ℤ → Option (PyStr × ℤ)

namespace Printer

/-- Nothing is printed. -/
def nil : Printer := fun skip => some ([], skip)

/-- One after the other. -/
def seq (p q : Printer) : Printer := fun skip =>
  (p skip).bind fun x => (q x.2).map fun y => (x.1 ++ y.1, y.2)

@[simp] theorem nil_seq (p : Printer) : nil.seq p = p := by
  funext skip
  rw [seq, nil, Option.bind_some]
  exact Option.map_id_apply

@[simp] theorem seq_nil (p : Printer) : p.seq nil = p := by
  funext skip
  rw [seq]
  cases p skip with
  | none => rfl
  | some x => simp [nil]

theorem seq_assoc (p q r : Printer) : (p.seq q).seq r = p.seq (q.seq r) := by
  funext skip
  rw [seq, seq, seq]
  cases p skip with
  | none => rfl
  | some x =>
    rw [Option.bind_some, Option.bind_some, seq]
    cases q x.2 with
    | none => rfl
    | some y =>
      rw [Option.map_some, Option.bind_some, Option.bind_some]
      cases r y.2 with
      | none => rfl
      | some z => simp

end Printer

namespace Rtf

/-! ## Tokens -/

/-- A match of `_TOKEN`. -/
inductive Token where
  | word (word : String) (arg : Option ℤ)
  | hexc (code : ℕ)
  | special (special : Char)
  /-- the braces -/
  | opens
  | closes
  | newline
  | char (char : Char)
  deriving DecidableEq

/-- `\d{1,10}`, in a text that was decoded as Latin-1. -/
def digits (rtf : List Char) : List Char := (rtf.take 10).takeWhile Char.isDigit

/-- `(-?\d{1,10})?` -/
def argument (rtf : List Char) : Option ℤ × List Char :=
  let unsigned := if rtf.head? = some '-' then rtf.tail else rtf
  if digits unsigned = [] then (none, rtf)
  else
    let value : ℤ := Nat.ofDigitChars 10 (digits unsigned) 0
    (some (if rtf.head? = some '-' then -value else value), unsigned.drop (digits unsigned).length)

/-- `[ ]?` -/
def dropSpace : List Char → List Char
  | ' ' :: rest => rest
  | rest => rest

/-- `[a-z]{1,32}` -/
def letters (rtf : List Char) : List Char := (rtf.take 32).takeWhile Char.isLower

/-- The match at a backslash, from what comes after it. -/
def escaped (rtf : List Char) : Token × List Char :=
  if letters rtf = [] then
    match rtf with
    | [] => (.char '\\', [])
    | '\'' :: a :: b :: rest =>
      match hexValue a, hexValue b with
      | some high, some low => (.hexc (16 * high + low), rest)
      | _, _ => (.special '\'', a :: b :: rest)
    | c :: rest => if c.isAlpha then (.char '\\', c :: rest) else (.special c, rest)
  else
    let after := argument (rtf.drop (letters rtf).length)
    (.word (String.ofList (letters rtf)) after.1, dropSpace after.2)

/-- `[\r\n]` -/
def isBreak (c : Char) : Bool := c = '\r' || c = '\n'

/-- The match of `_TOKEN` at a place, and what comes after it. -/
def token : List Char → Option (Token × List Char)
  | [] => none
  | c :: rest =>
    if c = '\\' then some (escaped rest)
    else if c = '\x7b' then some (.opens, rest)
    else if c = '\x7d' then some (.closes, rest)
    else if isBreak c then some (.newline, rest.dropWhile isBreak)
    else some (.char c, rest)

/-- `_TOKEN.finditer(rtf)`, in so many steps. -/
def finditer : ℕ → List Char → List Token
  | 0, _ => []
  | fuel + 1, rtf =>
    match token rtf with
    | none => []
    | some (t, rest) => t :: finditer fuel rest

/-- `_TOKEN.finditer(rtf)` -/
def tokens (rtf : List Char) : List Token := finditer rtf.length rtf

/-! ## The machine -/

/-- `_IGNORE_DESTINATIONS` -/
def ignoreDestinations : List String :=
  ["fonttbl", "colortbl", "stylesheet", "info", "pict", "object", "themedata", "colorschememapping",
    "rsidtbl", "generator", "latentstyles", "datastore", "mmath", "header", "footer"]

/-- `_SPECIAL` -/
def specials : List (String × Char) :=
  [("par", '\n'), ("sect", '\n'), ("page", '\n'), ("line", '\n'), ("tab", '\t'),
    ("emdash", '\u2014'), ("endash", '\u2013'), ("lquote", '\u2018'), ("rquote", '\u2019'),
    ("ldblquote", '\u201c'), ("rdblquote", '\u201d'), ("bullet", '\u2022'), ("nbsp", '\u00a0')]

/-- `chr`; `none` is a `ValueError`. -/
def chr (code : ℤ) : Option PyChar :=
  if 0 ≤ code ∧ code < 1114112 then some (.ofUnit code.toNat) else none

/-- What a group sets. -/
structure Scope where
  ucskip : ℤ
  ignorable : Bool
  deriving DecidableEq

/-- The local variables of `rtf_to_text`. -/
structure State where
  stack : List Scope
  scope : Scope
  curskip : ℤ
  out : PyStr
  deriving DecidableEq

namespace State

/-- Before the first token. -/
def initial : State := ⟨[], ⟨1, false⟩, 0, []⟩

/-- `if not ignorable: out.append(c)` -/
def append (s : State) (c : PyChar) : State :=
  if s.scope.ignorable then s else { s with out := s.out ++ [c] }

/-- A character that may stand for one that was printed. -/
def appendUnskipped (s : State) (c : PyChar) : State :=
  if 0 < s.curskip then { s with curskip := s.curskip - 1 } else s.append c

/-- The loop of `rtf_to_text`. -/
def step (s : State) : Token → Option State
  | .opens => some { s with stack := s.scope :: s.stack }
  | .closes =>
    match s.stack with
    | [] => some s
    | scope :: stack => some { s with stack, scope }
  | .special c =>
    if c = '*' then some { s with scope := { s.scope with ignorable := true } }
    else if c = '\\' ∨ c = '\x7b' ∨ c = '\x7d' then some (s.append c)
    else if c = '~' then some (s.append '\u00a0')
    else some s
  | .word word arg =>
    if word ∈ ignoreDestinations then some { s with scope := { s.scope with ignorable := true } }
    else if word = "uc" then some { s with scope := { s.scope with ucskip := arg.getD 1 } }
    else if word = "u" then
      match arg with
      | none => some s
      | some code =>
        if s.scope.ignorable then some { s with curskip := s.scope.ucskip }
        else
          (chr (if code < 0 then code + 65536 else code)).map fun c =>
            { s with out := s.out ++ [c], curskip := s.scope.ucskip }
    else
      match specials.lookup word with
      | some c => some (s.append c)
      | none => some s
  | .hexc code => some (s.appendUnskipped (Char.ofNat code))
  | .char c => some (s.appendUnskipped c)
  | .newline => some s

end State

/-- `rtf_to_text`; `none` is a `ValueError`. -/
def rtfToText (rtf : List Char) : Option PyStr :=
  (Machine.run State.step .initial (tokens rtf)).map State.out

/-! ## Documents -/

/-- A document: its tokens, and its groups. -/
inductive Doc where
  | nil
  | token (t : Token) (rest : Doc)
  | group (body rest : Doc)

/-- What a token sets in its group. -/
def Scope.set (scope : Scope) : Token → Scope
  | .special c => if c = '*' then { scope with ignorable := true } else scope
  | .word word arg =>
    if word ∈ ignoreDestinations then { scope with ignorable := true }
    else if word = "uc" then { scope with ucskip := arg.getD 1 }
    else scope
  | _ => scope

namespace Scope

/-- A character that is not skipped. -/
def shown (scope : Scope) (c : PyChar) : Printer := fun skip =>
  some (if scope.ignorable then [] else [c], skip)

/-- A character, unless it is skipped. -/
def plain (scope : Scope) (c : PyChar) : Printer := fun skip =>
  if 0 < skip then some ([], skip - 1) else scope.shown c skip

/-- A character by its code, and so many characters behind it are skipped. -/
def coded (scope : Scope) (code : ℤ) : Printer := fun _ =>
  if scope.ignorable then some ([], scope.ucskip)
  else (chr (if code < 0 then code + 65536 else code)).map fun c => ([c], scope.ucskip)

/-- What a symbol stands for. -/
def symbol (c : Char) : Option PyChar :=
  if c = '\\' ∨ c = '\x7b' ∨ c = '\x7d' then some c
  else if c = '~' then some '\u00a0'
  else none

/-- What a token prints. -/
def print (scope : Scope) : Token → Printer
  | .char c => scope.plain c
  | .hexc code => scope.plain (Char.ofNat code)
  | .special c => (symbol c).elim .nil scope.shown
  | .word word arg =>
    if word = "u" then arg.elim .nil scope.coded
    else (specials.lookup word).elim .nil fun c => scope.shown c
  | _ => .nil

end Scope

namespace Doc

/-- What a document means: every group starts with what is set around it, and what it sets ends
with it. -/
def meaning : Doc → Scope → Printer
  | .nil, _ => .nil
  | .token t rest, scope => (scope.print t).seq (rest.meaning (scope.set t))
  | .group body rest, scope => (body.meaning scope).seq (rest.meaning scope)

/-- What is set at the end. -/
def atEnd : Doc → Scope → Scope
  | .nil, scope => scope
  | .token t rest, scope => rest.atEnd (scope.set t)
  | .group _ rest, scope => rest.atEnd scope

def append : Doc → Doc → Doc
  | .nil, d => d
  | .token t rest, d => .token t (rest.append d)
  | .group body rest, d => .group body (rest.append d)

end Doc

/-- The level that the first token is on, and the levels that are reached by the closing braces
whose opening braces are not among the tokens. -/
def nest : List Token → Doc × List Doc
  | [] => (.nil, [])
  | .opens :: ts =>
    match nest ts with
    | (body, []) => (.group body .nil, [])
    | (body, rest :: outer) => (.group body rest, outer)
  | .closes :: ts => (.nil, (nest ts).1 :: (nest ts).2)
  | t :: ts => (.token t (nest ts).1, (nest ts).2)

/-- The document of all tokens: a brace that nothing opens does nothing. -/
def document (ts : List Token) : Doc := (nest ts).2.foldl Doc.append (nest ts).1

/-! ## The stack -/

theorem print_destination : ∀ word ∈ ignoreDestinations,
    word ≠ "u" ∧ specials.lookup word = none := by
  decide

section Run

variable {s s' : State} {scope : Scope} {stack : List Scope} {t : Token} {ts : List Token}

/-- A state that has printed. -/
def State.after (s : State) (scope : Scope) (x : PyStr × ℤ) : State :=
  ⟨s.stack, scope, x.2, s.out ++ x.1⟩

theorem append_eq (c : PyChar) :
    some (s.append c) = (s.scope.shown c s.curskip).map (s.after s.scope) := by
  rw [State.append, Scope.shown]
  split_ifs <;> simp [State.after]

theorem appendUnskipped_eq (c : PyChar) :
    some (s.appendUnskipped c) = (s.scope.plain c s.curskip).map (s.after s.scope) := by
  rw [State.appendUnskipped, Scope.plain]
  split_ifs
  · simp [State.after]
  · exact append_eq c

theorem nil_eq (scope : Scope) :
    some { s with scope } = (Printer.nil s.curskip).map (s.after scope) := by
  simp [Printer.nil, State.after]

/-- Any token but a brace prints, and sets what it sets. -/
theorem step_eq (hopens : t ≠ .opens) (hcloses : t ≠ .closes) :
    s.step t = (s.scope.print t s.curskip).map (s.after (s.scope.set t)) := by
  cases t with
  | opens => exact absurd rfl hopens
  | closes => exact absurd rfl hcloses
  | newline => exact nil_eq s.scope
  | char c => exact appendUnskipped_eq c
  | hexc code => exact appendUnskipped_eq _
  | special c =>
    rw [State.step, Scope.set, Scope.print, Scope.symbol]
    by_cases hstar : c = '*'
    · rw [if_pos hstar, if_pos hstar, hstar]
      exact nil_eq _
    · rw [if_neg hstar, if_neg hstar]
      split_ifs
      · exact append_eq c
      · exact append_eq _
      · exact nil_eq s.scope
  | word word arg =>
    dsimp only [State.step, Scope.set, Scope.print]
    by_cases hword : word ∈ ignoreDestinations
    · obtain ⟨hu, hlookup⟩ := print_destination word hword
      rw [if_pos hword, if_pos hword, if_neg hu, hlookup]
      exact nil_eq _
    · rw [if_neg hword, if_neg hword]
      by_cases huc : word = "uc"
      · subst huc
        exact nil_eq _
      · rw [if_neg huc, if_neg huc]
        by_cases hu : word = "u"
        · rw [if_pos hu, if_pos hu]
          cases arg with
          | none => exact nil_eq s.scope
          | some code =>
            rw [Option.elim_some, Scope.coded]
            dsimp only
            by_cases hignorable : s.scope.ignorable = true
            · rw [if_pos hignorable, if_pos hignorable]
              simp [State.after]
            · rw [if_neg hignorable, if_neg hignorable, Option.map_map]
              rfl
        · rw [if_neg hu, if_neg hu]
          cases specials.lookup word with
          | none => exact nil_eq s.scope
          | some c => exact append_eq c

/-- The printer of the levels, with the settings that are on the stack. -/
def unwind (level : Doc) (outer : List Doc) (scope : Scope) (stack : List Scope) : Printer :=
  match outer, stack with
  | [], _ => level.meaning scope
  | next :: outer, [] => (level.meaning scope).seq (unwind next outer (level.atEnd scope) [])
  | next :: outer, scope' :: stack => (level.meaning scope).seq (unwind next outer scope' stack)

theorem unwind_token (level : Doc) (outer : List Doc) :
    unwind (.token t level) outer scope stack =
      (scope.print t).seq (unwind level outer (scope.set t) stack) := by
  rcases outer with _ | ⟨next, outer⟩
  · rfl
  · cases stack <;> exact Printer.seq_assoc _ _ _

theorem unwind_group (body rest : Doc) (outer : List Doc) :
    unwind (.group body rest) outer scope stack =
      (body.meaning scope).seq (unwind rest outer scope stack) := by
  rcases outer with _ | ⟨next, outer⟩
  · rfl
  · cases stack <;> exact Printer.seq_assoc _ _ _

/-- What a run prints, from any state. -/
def State.prints (s : State) (ts : List Token) : Option (PyStr × ℤ) :=
  (Machine.run State.step s ts).map fun s' => (s'.out, s'.curskip)

theorem prints_cons :
    s.prints (t :: ts) = (s.step t).bind fun s' => s'.prints ts := by
  rw [State.prints, Machine.run_cons]
  cases s.step t <;> rfl

/-- The stack holds what is set around each level. -/
theorem prints_eq (s : State) (ts : List Token) :
    s.prints ts = (unwind (nest ts).1 (nest ts).2 s.scope s.stack s.curskip).map fun x =>
      (s.out ++ x.1, x.2) := by
  induction ts generalizing s with
  | nil => simp [State.prints, nest, unwind, Doc.meaning, Printer.nil]
  | cons t ts ih =>
    rw [prints_cons]
    by_cases hopens : t = .opens
    · subst hopens
      rw [State.step, Option.bind_some, ih, nest]
      rcases nest ts with ⟨body, _ | ⟨rest, outer⟩⟩
      · rw [unwind_group]
        exact congrArg (fun p : Printer => (p s.curskip).map _) (Printer.seq_nil _).symm
      · rw [unwind_group]
        rfl
    · by_cases hcloses : t = .closes
      · subst hcloses
        rw [State.step, nest]
        rcases hstack : s.stack with _ | ⟨scope, stack⟩
        · rw [Option.bind_some, ih, hstack]
          exact congrArg (fun p : Printer => (p s.curskip).map _) (Printer.nil_seq _).symm
        · rw [Option.bind_some, ih]
          exact congrArg (fun p : Printer => (p s.curskip).map _) (Printer.nil_seq _).symm
      · have hnest : nest (t :: ts) = (.token t (nest ts).1, (nest ts).2) := by
          cases t <;> first | rfl | contradiction
        rw [step_eq hopens hcloses, hnest, unwind_token, Printer.seq]
        cases hprint : s.scope.print t s.curskip with
        | none => rfl
        | some x =>
          rw [Option.map_some, Option.bind_some, Option.bind_some, ih, Option.map_map]
          refine congrArg (Option.map · _) (funext fun y => ?_)
          simp [State.after]

theorem meaning_append (d e : Doc) (scope : Scope) :
    (d.append e).meaning scope = (d.meaning scope).seq (e.meaning (d.atEnd scope)) := by
  induction d generalizing scope with
  | nil => exact (Printer.nil_seq _).symm
  | token t rest ih => rw [Doc.append, Doc.meaning, ih, ← Printer.seq_assoc]; rfl
  | group body rest _ ih => rw [Doc.append, Doc.meaning, ih, ← Printer.seq_assoc]; rfl

theorem atEnd_append (d e : Doc) (scope : Scope) :
    (d.append e).atEnd scope = e.atEnd (d.atEnd scope) := by
  induction d generalizing scope with
  | nil => rfl
  | token t rest ih => exact ih _
  | group body rest _ ih => exact ih _

theorem unwind_append (level next : Doc) (outer : List Doc) (scope : Scope) :
    unwind (level.append next) outer scope [] =
      (level.meaning scope).seq (unwind next outer (level.atEnd scope) []) := by
  rcases outer with _ | ⟨last, outer⟩
  · exact meaning_append level next scope
  · rw [unwind, unwind, meaning_append, atEnd_append, Printer.seq_assoc]

/-- Without a stack, the levels follow each other. -/
theorem unwind_nil (level : Doc) (outer : List Doc) (scope : Scope) :
    unwind level outer scope [] = (outer.foldl Doc.append level).meaning scope := by
  induction outer generalizing level scope with
  | nil => rfl
  | cons next outer ih => rw [List.foldl_cons, ← ih, unwind_append, unwind]

theorem rtfToText_unwind (rtf : List Char) : rtfToText rtf =
    (unwind (nest (tokens rtf)).1 (nest (tokens rtf)).2 ⟨1, false⟩ [] 0).map Prod.fst := by
  have hprints := congrArg (Option.map Prod.fst) (prints_eq .initial (tokens rtf))
  rw [State.prints, Option.map_map, Option.map_map] at hprints
  exact hprints

/-- **The text of an input** is what its document means. -/
theorem rtfToText_eq (rtf : List Char) : rtfToText rtf =
    ((document (tokens rtf)).meaning ⟨1, false⟩ 0).map Prod.fst := by
  rw [rtfToText_unwind, unwind_nil, document]

end Run

/-! ## Lexing -/

section Lexing

variable {rtf rest tail w : List Char} {t : Token} {ts : List Token} {p : Char → Bool} {n : ℕ}

theorem length_argument_le (rtf : List Char) : (argument rtf).2.length ≤ rtf.length := by
  rw [argument]
  dsimp only
  split_ifs <;> simp

theorem length_dropSpace_le (rtf : List Char) : (dropSpace rtf).length ≤ rtf.length := by
  unfold dropSpace
  split <;> simp

theorem length_escaped_le (rtf : List Char) : (escaped rtf).2.length ≤ rtf.length := by
  unfold escaped
  split_ifs
  · split
    · simp
    · split <;> simp only [List.length_cons] <;> omega
    · split_ifs <;> simp
  · refine (length_dropSpace_le _).trans ((length_argument_le _).trans ?_)
    simp

/-- A match is not empty. -/
theorem length_token_lt (h : token rtf = some (t, rest)) : rest.length < rtf.length := by
  cases rtf with
  | nil => cases h
  | cons c tail =>
    rw [token] at h
    rw [List.length_cons, Nat.lt_succ_iff]
    split_ifs at h
    · have hrest : (escaped tail).2 = rest := congrArg Prod.snd (Option.some.inj h)
      exact hrest ▸ length_escaped_le tail
    · obtain ⟨-, rfl⟩ := Prod.mk.inj (Option.some.inj h)
      exact le_refl _
    · obtain ⟨-, rfl⟩ := Prod.mk.inj (Option.some.inj h)
      exact le_refl _
    · obtain ⟨-, rfl⟩ := Prod.mk.inj (Option.some.inj h)
      exact (List.dropWhile_suffix _).length_le
    · obtain ⟨-, rfl⟩ := Prod.mk.inj (Option.some.inj h)
      exact le_refl _

/-- So many steps as there are characters are enough. -/
theorem finditer_eq {m n : ℕ} (hm : rtf.length ≤ m) (hn : rtf.length ≤ n) :
    finditer m rtf = finditer n rtf := by
  induction m generalizing n rtf with
  | zero =>
    obtain rfl := List.eq_nil_of_length_eq_zero (Nat.le_zero.mp hm)
    cases n <;> rfl
  | succ m ih =>
    cases n with
    | zero =>
      obtain rfl := List.eq_nil_of_length_eq_zero (Nat.le_zero.mp hn)
      rfl
    | succ n =>
      rw [finditer, finditer]
      cases htoken : token rtf with
      | none => rfl
      | some x =>
        have hlt : x.2.length < rtf.length := length_token_lt htoken
        dsimp only
        rw [ih (n := n) (by omega) (by omega)]

theorem tokens_of_token (h : token rtf = some (t, rest)) : tokens rtf = t :: tokens rest := by
  have hlt := length_token_lt h
  obtain ⟨n, hn⟩ := Nat.exists_eq_succ_of_ne_zero (Nat.ne_zero_of_lt hlt)
  rw [tokens, hn, finditer, h]
  dsimp only
  rw [finditer_eq (by omega) (le_refl _), tokens]

theorem takeWhile_take (hw : ∀ c ∈ w, p c = true) (hlength : w.length ≤ n)
    (htail : ∀ c ∈ tail.head?, p c = false) : ((w ++ tail).take n).takeWhile p = w := by
  rw [List.take_append, List.take_of_length_le hlength, List.takeWhile_append_of_pos hw]
  have hnone : (tail.take (n - w.length)).takeWhile p = [] := by
    rcases tail with _ | ⟨c, tail⟩
    · simp
    · rcases n - w.length with _ | k
      · rfl
      · rw [List.take_succ_cons, List.takeWhile_cons_of_neg]
        rw [htail c rfl]
        exact Bool.false_ne_true
  rw [hnone, List.append_nil]

end Lexing

/-! ## Spelling -/

/-- How a token is spelled. -/
def Token.spell : Token → List Char
  | .word w arg => '\\' :: (w.toList ++ (arg.elim [] Json.intText ++ [' ']))
  | .hexc code => ['\\', '\'', Nat.digitChar (code / 16), Nat.digitChar (code % 16)]
  | .special c => ['\\', c]
  | .opens => ['\x7b']
  | .closes => ['\x7d']
  | .newline => ['\n']
  | .char c => [c]

/-- A token that is read as it is spelled. -/
inductive Spellable : Token → Prop
  | word {word : String} {arg : Option ℤ} (hne : word.toList ≠ [])
      (hlength : word.toList.length ≤ 32) (hlower : word.toList.all Char.isLower = true)
      (harg : ∀ n ∈ arg, n.natAbs < 10 ^ 10) : Spellable (.word word arg)
  | hexc {code : ℕ} (h : code < 256) : Spellable (.hexc code)
  | special {c : Char} (halpha : c.isAlpha = false) (hquote : c ≠ '\'') : Spellable (.special c)
  | char {c : Char} (hplain : c ≠ '\\' ∧ c ≠ '\x7b' ∧ c ≠ '\x7d' ∧ isBreak c = false) :
      Spellable (.char c)

namespace Doc

/-- The text of a document. -/
def spell : Doc → List Char
  | .nil => []
  | .token t rest => t.spell ++ rest.spell
  | .group body rest => Token.opens.spell ++ (body.spell ++ (Token.closes.spell ++ rest.spell))

/-- The tokens of a document. -/
def flatten : Doc → List Token
  | .nil => []
  | .token t rest => t :: rest.flatten
  | .group body rest => .opens :: (body.flatten ++ .closes :: rest.flatten)

/-- Its tokens are read as they are spelled. -/
def AllSpellable : Doc → Prop
  | .nil => True
  | .token t rest => Spellable t ∧ rest.AllSpellable
  | .group body rest => body.AllSpellable ∧ rest.AllSpellable

end Doc

section Spelling

variable {rest : List Char} {t : Token}

theorem not_isLower_of_isDigit {c : Char} (h : c.isDigit = true) : c.isLower = false := by
  simp only [Char.isDigit, Bool.and_eq_true, decide_eq_true_eq, UInt32.le_iff_toNat_le,
    ge_iff_le] at h
  refine Bool.eq_false_iff.mpr fun hlower => ?_
  have hrange : (decide (c.val ≥ 'a'.val) && decide (c.val ≤ 'z'.val)) = true := hlower
  simp only [Bool.and_eq_true, decide_eq_true_eq, UInt32.le_iff_toNat_le, ge_iff_le] at hrange
  have hnine : '9'.val.toNat = 57 := rfl
  have ha : 'a'.val.toNat = 97 := rfl
  omega

/-- An argument does not go on with letters. -/
theorem not_isLower_argument (arg : Option ℤ) (rest : List Char) :
    ∀ c ∈ (arg.elim [] Json.intText ++ ' ' :: rest).head?, c.isLower = false := by
  intro c hc
  cases arg with
  | none =>
    cases hc
    rfl
  | some n =>
    rw [Option.elim_some, List.head?_append_of_ne_nil _ (Json.intText_ne_nil n), Json.intText] at hc
    split_ifs at hc
    · cases hc
      rfl
    · exact not_isLower_of_isDigit
        (Nat.isDigit_of_mem_toDigits (by decide) (le_refl 10) (List.mem_of_head? hc))

theorem digits_toDigits {m : ℕ} (h : m < 10 ^ 10) (rest : List Char) :
    digits (Nat.toDigits 10 m ++ ' ' :: rest) = Nat.toDigits 10 m := by
  refine takeWhile_take (fun c hc => ?_) ?_ ?_
  · exact Nat.isDigit_of_mem_toDigits (by decide) (le_refl 10) hc
  · exact (Nat.length_toDigits_le_iff (by decide) (by decide)).mpr h
  · rintro c ⟨⟩
    rfl

theorem argument_intText {n : ℤ} (h : n.natAbs < 10 ^ 10) (rest : List Char) :
    argument (Json.intText n ++ ' ' :: rest) = (some n, ' ' :: rest) := by
  have hdigits := digits_toDigits h rest
  have hvalue : Nat.ofDigitChars 10 (Nat.toDigits 10 n.natAbs) 0 = n.natAbs :=
    Nat.ofDigitChars_toDigits (by decide) (le_refl 10)
  by_cases hneg : n < 0
  · have hhead : ('-' :: Nat.toDigits 10 n.natAbs ++ ' ' :: rest).head? = some '-' := rfl
    rw [Json.intText, if_pos hneg, argument]
    dsimp only
    rw [if_pos hhead, if_pos hhead, List.cons_append, List.tail_cons, hdigits,
      if_neg Nat.toDigits_ne_nil, hvalue, List.drop_left]
    congr 2
    omega
  · have hhead : (Nat.toDigits 10 n.natAbs ++ ' ' :: rest).head? ≠ some '-' := by
      rw [List.head?_append_of_ne_nil _ Nat.toDigits_ne_nil]
      intro hhead
      have hdigit := Nat.isDigit_of_mem_toDigits (by decide) (le_refl 10) (List.mem_of_head? hhead)
      exact absurd hdigit (by decide)
    rw [Json.intText, if_neg hneg, argument]
    dsimp only
    rw [if_neg hhead, hdigits, if_neg Nat.toDigits_ne_nil, if_neg hhead, hvalue, List.drop_left]
    congr 2
    omega

/-- A control word is read with its argument and the blank behind it. -/
theorem escaped_word {word : String} {arg : Option ℤ} (hne : word.toList ≠ [])
    (hlength : word.toList.length ≤ 32) (hlower : word.toList.all Char.isLower = true)
    (harg : ∀ n ∈ arg, n.natAbs < 10 ^ 10) (rest : List Char) :
    escaped (word.toList ++ (arg.elim [] Json.intText ++ ' ' :: rest)) =
      (.word word arg, rest) := by
  have hargument : argument (arg.elim [] Json.intText ++ ' ' :: rest) = (arg, ' ' :: rest) := by
    cases arg with
    | none => rfl
    | some n => exact argument_intText (harg n rfl) rest
  have hletters : letters (word.toList ++ (arg.elim [] Json.intText ++ ' ' :: rest)) =
      word.toList := by
    exact takeWhile_take (List.all_eq_true.mp hlower) hlength (not_isLower_argument arg rest)
  unfold escaped
  rw [if_neg (by rwa [hletters]), hletters, List.drop_left, hargument, String.ofList_toList]
  rfl

theorem escaped_hexc {a b : Char} {high low : ℕ} (ha : hexValue a = some high)
    (hb : hexValue b = some low) (rest : List Char) :
    escaped ('\'' :: a :: b :: rest) = (.hexc (16 * high + low), rest) := by
  have hletters : letters ('\'' :: a :: b :: rest) = [] := rfl
  unfold escaped
  rw [if_pos hletters]
  simp only [ha, hb]

theorem token_spell (h : Spellable t) (rest : List Char) :
    token (t.spell ++ rest) = some (t, rest) := by
  cases h with
  | @word word arg hne hlength hlower harg =>
    have hescaped := escaped_word hne hlength hlower harg rest
    rw [Token.spell, List.cons_append, List.append_assoc, List.append_assoc, token, if_pos rfl]
    exact congrArg some hescaped
  | @hexc code h =>
    have hhigh := hexValue_digitChar (code / 16) (by omega)
    have hlow := hexValue_digitChar (code % 16) (by omega)
    have hescaped := escaped_hexc hhigh hlow rest
    rw [Nat.div_add_mod] at hescaped
    exact congrArg some hescaped
  | @special c halpha hquote =>
    have hescaped : escaped (c :: rest) = (.special c, rest) := by
      have hletters : letters (c :: rest) = [] := by
        rw [letters, List.take_succ_cons, List.takeWhile_cons_of_neg]
        exact fun hlower => Bool.eq_false_iff.mp halpha (Bool.or_eq_true_iff.mpr (.inr hlower))
      unfold escaped
      rw [if_pos hletters]
      split
      · next heq => cases heq
      · next heq =>
        obtain ⟨rfl, -⟩ := List.cons.inj heq
        exact absurd rfl hquote
      · next heq =>
        obtain ⟨rfl, rfl⟩ := List.cons.inj heq
        rw [if_neg (Bool.eq_false_iff.mp halpha)]
    exact congrArg some hescaped
  | @char c hplain =>
    obtain ⟨hbackslash, hopens, hcloses, hbreak⟩ := hplain
    rw [Token.spell, List.singleton_append, token, if_neg hbackslash, if_neg hopens,
      if_neg hcloses, if_neg (Bool.eq_false_iff.mp hbreak)]

theorem tokens_spell {d : Doc} (h : d.AllSpellable) (rest : List Char) :
    tokens (d.spell ++ rest) = d.flatten ++ tokens rest := by
  induction d generalizing rest with
  | nil => rfl
  | token t d ih =>
    rw [Doc.spell, List.append_assoc, tokens_of_token (token_spell h.1 _), ih h.2]
    rfl
  | group body d ihbody ihrest =>
    have hopens : ∀ rest, token (Token.opens.spell ++ rest) = some (.opens, rest) := fun _ => rfl
    have hcloses : ∀ rest, token (Token.closes.spell ++ rest) = some (.closes, rest) := fun _ => rfl
    rw [Doc.spell, List.append_assoc, tokens_of_token (hopens _), List.append_assoc, ihbody h.1,
      List.append_assoc, tokens_of_token (hcloses _), ihrest h.2]
    simp [Doc.flatten]

theorem append_nil (d : Doc) : d.append .nil = d := by
  induction d with
  | nil => rfl
  | token t rest ih => rw [Doc.append, ih]
  | group body rest _ ih => rw [Doc.append, ih]

theorem nest_flatten {d : Doc} (h : d.AllSpellable) (ts : List Token) :
    nest (d.flatten ++ ts) = (d.append (nest ts).1, (nest ts).2) := by
  induction d generalizing ts with
  | nil => rfl
  | token t d ih =>
    have hnest : nest (t :: (d.flatten ++ ts)) =
        (.token t (nest (d.flatten ++ ts)).1, (nest (d.flatten ++ ts)).2) := by
      cases h.1 <;> rfl
    rw [Doc.flatten, List.cons_append, hnest, ih h.2]
    rfl
  | group body d ihbody ihrest =>
    rw [Doc.flatten, List.cons_append, List.append_assoc, List.cons_append, nest, ihbody h.1, nest,
      ihrest h.2, append_nil]
    rfl

/-- **A document that is spelled out** has the text that it means. -/
theorem rtfToText_spell {d : Doc} (h : d.AllSpellable) :
    rtfToText d.spell = (d.meaning ⟨1, false⟩ 0).map Prod.fst := by
  have htokens : tokens d.spell = d.flatten := by
    have htokens := tokens_spell h []
    rwa [List.append_nil, show tokens [] = [] from rfl, List.append_nil] at htokens
  have hnest := nest_flatten h []
  rw [List.append_nil, nest, append_nil] at hnest
  rw [rtfToText_unwind, htokens, hnest]
  rfl

/-- A dash with the character that stands for it, and a title. -/
def dashDoc : Doc :=
  .group
    (.token (.word "rtf" (some 1)) (.token (.word "u" (some 8212)) (.token (.char '-')
      (.group (.token (.word "info" none) (.token (.char 'x') .nil)) (.token (.char 'y') .nil)))))
    .nil

theorem rtfToText_spell_dash :
    rtfToText dashDoc.spell = (dashDoc.meaning ⟨1, false⟩ 0).map Prod.fst :=
  rtfToText_spell ⟨⟨.word (by decide) (by decide) rfl (by simp),
    .word (by decide) (by decide) rfl (by simp), .char (by decide),
    ⟨.word (by decide) (by decide) rfl (by simp), .char (by decide), trivial⟩,
    .char (by decide), trivial⟩, trivial⟩

end Spelling

end Rtf

end Eyenet
