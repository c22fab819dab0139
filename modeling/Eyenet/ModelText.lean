import Eyenet.SourceDomain

/-!
# Inert text

`sanitize_model_text` (`classifier/llm/_sanitize.py`) makes a single bounded line without markup of
text that a model or a document supplies.

* `ModelText.newline_not_mem` — the result is a single line.
* `ModelText.inert_eq_self_iff` — exactly which texts it leaves as they are: the plain ones, and
  the longer ones in which an ampersand was escaped over and over.
* `ModelText.Nfc.sanitizeModelText_eq_iff` — and which come out the same, up to composed characters.
-/

namespace Eyenet

namespace ModelText

/-! ## The passes -/

/-- Digits, `;` and `?`. -/
def isParameter (c : Char) : Bool := c.isDigit || c = ';' || c = '?'

/-- The characters from the blank to the slash. -/
def isIntermediate (c : Char) : Bool := 0x20 ≤ c.toNat && c.toNat ≤ 0x2f

/-- The characters from `@` to `~`. -/
def isFinal (c : Char) : Bool := 0x40 ≤ c.toNat && c.toNat ≤ 0x7e

/-- The characters from `@` to `_`, without `[`. -/
def isFe (c : Char) : Bool := 0x40 ≤ c.toNat && c.toNat ≤ 0x5f && c ≠ '['

/-- What follows parameters, intermediate characters and a final one. -/
def csiTail (cs : List Char) : Option (List Char) :=
  match (cs.dropWhile isParameter).dropWhile isIntermediate with
  | c :: rest => if isFinal c then some rest else none
  | [] => none

/-- `_ANSI` at the beginning of a text: what follows the sequence. -/
def ansiSequence : List Char → Option (List Char)
  | '\x1b' :: '[' :: cs => csiTail cs
  | '\x1b' :: c :: cs => if isFe c then some cs else none
  | '\u009b' :: cs => csiTail cs
  | _ => none

/-- `_ANSI.sub("", …)`, where the number bounds the length of the text. -/
def stripAnsiFrom : ℕ → List Char → List Char
  | 0, cs => cs
  | _ + 1, [] => []
  | n + 1, c :: cs =>
    match ansiSequence (c :: cs) with
    | some rest => stripAnsiFrom n rest
    | none => c :: stripAnsiFrom n cs

def stripAnsi (cs : List Char) : List Char := stripAnsiFrom cs.length cs

/-- `_CONTROL` -/
def isControl (c : Char) : Bool := c.toNat ≤ 0x1f || 0x7f ≤ c.toNat && c.toNat ≤ 0x9f

/-- `_CONTROL.sub(" ", …)` -/
def blankControls (cs : List Char) : List Char := cs.map fun c => if isControl c then ' ' else c

/-- `_WS.sub(" ", …)` after a character that was blank, or was not. -/
def collapseFrom : Bool → List Char → List Char
  | _, [] => []
  | blank, c :: cs =>
    if isPySpace c then if blank then collapseFrom true cs else ' ' :: collapseFrom true cs
    else c :: collapseFrom false cs

/-- `_WS.sub(" ", …)` -/
def collapse (cs : List Char) : List Char := collapseFrom false cs

/-- `str.rstrip` -/
def pyRstrip (cs : List Char) : List Char := (cs.reverse.dropWhile isPySpace).reverse

/-- `s[:max_len].rstrip()`, if it is longer. -/
def cap (maxLen : ℕ) (cs : List Char) : List Char :=
  if maxLen < cs.length then pyRstrip (cs.take maxLen) else cs

/-- `html.escape(…, quote=True)` of a character. -/
def escapeHtmlChar : Char → List Char
  | '&' => "&amp;".toList
  | '<' => "&lt;".toList
  | '>' => "&gt;".toList
  | '"' => "&quot;".toList
  | '\'' => "&#x27;".toList
  | c => [c]

/-- `html.escape(…, quote=True)` -/
def escapeHtml (cs : List Char) : List Char := cs.flatMap escapeHtmlChar

/-- `sanitize_model_text` of a text in `NFC` form. -/
def inert (maxLen : ℕ) (cs : List Char) : List Char :=
  escapeHtml (cap maxLen (pyStrip (collapse (blankControls (stripAnsi cs)))))

/-- `sanitize_model_text`, with the `NFC` form of a text as a parameter. -/
def sanitizeModelText (normalize : String → String) (maxLen : ℕ) (s : String) : String :=
  String.ofList (inert maxLen (normalize s).toList)

/-! ## A single line -/

theorem not_isControl_of_mem_blankControls {c : Char} {cs : List Char}
    (h : c ∈ blankControls cs) : isControl c = false := by
  obtain ⟨c', -, rfl⟩ := List.mem_map.mp h
  split_ifs with hc'
  · decide
  · exact Bool.not_eq_true _ ▸ hc'

theorem mem_collapseFrom {c : Char} {blank : Bool} {cs : List Char}
    (h : c ∈ collapseFrom blank cs) : c = ' ' ∨ c ∈ cs := by
  induction cs generalizing blank with
  | nil => cases h
  | cons d cs ih =>
    rw [collapseFrom] at h
    split_ifs at h
    · exact (ih h).imp_right (List.mem_cons_of_mem d)
    · rcases List.mem_cons.mp h with rfl | h
      · exact Or.inl rfl
      · exact (ih h).imp_right (List.mem_cons_of_mem d)
    · rcases List.mem_cons.mp h with rfl | h
      · exact Or.inr List.mem_cons_self
      · exact (ih h).imp_right (List.mem_cons_of_mem d)

theorem pyRstrip_isPrefix (cs : List Char) : pyRstrip cs <+: cs := by
  have hsuffix : cs.reverse.dropWhile isPySpace <:+ cs.reverse := List.dropWhile_suffix _
  rw [← List.reverse_prefix, List.reverse_reverse] at hsuffix
  exact hsuffix

theorem pyStrip_isInfix (cs : List Char) : pyStrip cs <:+: cs :=
  (pyRstrip_isPrefix _).isInfix.trans (List.dropWhile_suffix _).isInfix

theorem cap_isPrefix (maxLen : ℕ) (cs : List Char) : cap maxLen cs <+: cs := by
  rw [cap]
  split_ifs
  · apply (pyRstrip_isPrefix _).trans
    exact List.take_prefix maxLen cs
  · exact List.prefix_refl cs

theorem escapeHtmlChar_of_plain {c : Char} (h : c ∉ ['&', '<', '>', '"', '\'']) :
    escapeHtmlChar c = [c] := by
  simp only [List.mem_cons, List.not_mem_nil, or_false, not_or] at h
  obtain ⟨hamp, hlt, hgt, hquot, happ⟩ := h
  unfold escapeHtmlChar
  split
  · exact absurd rfl hamp
  · exact absurd rfl hlt
  · exact absurd rfl hgt
  · exact absurd rfl hquot
  · exact absurd rfl happ
  · rfl

/-- What stands in for a character has no control characters and no blanks of its own. -/
theorem mem_escapeHtmlChar {c d : Char} (h : d ∈ escapeHtmlChar c) :
    d = c ∨ isControl d = false ∧ isPySpace d = false := by
  by_cases hc : c ∈ ['&', '<', '>', '"', '\'']
  · right
    fin_cases hc <;> fin_cases h <;> decide
  · rw [escapeHtmlChar_of_plain hc] at h
    exact Or.inl (List.mem_singleton.mp h)

theorem mem_escapeHtml {d : Char} {cs : List Char} (h : d ∈ escapeHtml cs) :
    d ∈ cs ∨ isControl d = false ∧ isPySpace d = false := by
  obtain ⟨c, hc, hd⟩ := List.mem_flatMap.mp h
  rcases mem_escapeHtmlChar hd with rfl | hd
  · exact Or.inl hc
  · exact Or.inr hd

theorem not_isControl_of_mem_inert {c : Char} {maxLen : ℕ} {cs : List Char}
    (h : c ∈ inert maxLen cs) : isControl c = false := by
  rcases mem_escapeHtml h with h | h
  · rcases mem_collapseFrom ((pyStrip_isInfix _).subset ((cap_isPrefix _ _).subset h)) with rfl | h
    · decide
    · exact not_isControl_of_mem_blankControls h
  · exact h.1

/-- The result is a single line. -/
theorem newline_not_mem (normalize : String → String) (maxLen : ℕ) (s : String) :
    '\n' ∉ (sanitizeModelText normalize maxLen s).toList := by
  rw [sanitizeModelText, String.toList_ofList]
  exact fun h => absurd (not_isControl_of_mem_inert h) (by decide)

/-! ## Lines with single blanks -/

/-- A trimmed line with single blanks inside. -/
structure IsLine (cs : List Char) : Prop where
  blank : ∀ c ∈ cs, isPySpace c = true → c = ' '
  single : cs.IsChain fun c c' => isPySpace c = true → isPySpace c' = false
  head : ∀ c ∈ cs.head?, isPySpace c = false
  last : ∀ c ∈ cs.getLast?, isPySpace c = false

theorem blank_of_mem_collapseFrom {c : Char} {blank : Bool} {cs : List Char}
    (h : c ∈ collapseFrom blank cs) (hc : isPySpace c = true) : c = ' ' := by
  induction cs generalizing blank with
  | nil => cases h
  | cons d cs ih =>
    rw [collapseFrom] at h
    split_ifs at h with hd
    · exact ih h
    · rcases List.mem_cons.mp h with rfl | h
      · rfl
      · exact ih h
    · rcases List.mem_cons.mp h with rfl | h
      · exact absurd hc hd
      · exact ih h

theorem head_collapseFrom {c : Char} {cs : List Char} (h : c ∈ (collapseFrom true cs).head?) :
    isPySpace c = false := by
  induction cs with
  | nil => cases h
  | cons d cs ih =>
    by_cases hd : isPySpace d = true
    · rw [collapseFrom, if_pos hd, if_pos rfl] at h
      exact ih h
    · rw [collapseFrom, if_neg hd] at h
      obtain rfl := Option.some.inj h
      exact Bool.not_eq_true _ ▸ hd

theorem single_collapseFrom (blank : Bool) (cs : List Char) : (collapseFrom blank cs).IsChain
    fun c c' => isPySpace c = true → isPySpace c' = false := by
  induction cs generalizing blank with
  | nil => exact List.isChain_nil
  | cons d cs ih =>
    rw [collapseFrom]
    split_ifs with hd
    · exact ih true
    · exact List.isChain_cons.mpr ⟨fun c hc _ => head_collapseFrom hc, ih true⟩
    · exact List.isChain_cons.mpr ⟨fun c _ hblank => absurd hblank hd, ih false⟩

theorem head_dropWhile {c : Char} {cs : List Char} (h : c ∈ (cs.dropWhile isPySpace).head?) :
    isPySpace c = false := by
  have hne : (cs.dropWhile isPySpace) ≠ [] := by
    rintro hnil
    rw [hnil] at h
    cases h
  have hhead := List.head_dropWhile_not isPySpace hne
  rw [List.head?_eq_some_head hne] at h
  obtain rfl := Option.some.inj h
  exact hhead

theorem last_pyRstrip {c : Char} {cs : List Char} (h : c ∈ (pyRstrip cs).getLast?) :
    isPySpace c = false := by
  rw [pyRstrip, List.getLast?_reverse] at h
  exact head_dropWhile h

/-- A prefix of a line is a line when its end is trimmed. -/
theorem IsLine.of_isPrefix {cs ds : List Char} (h : IsLine cs) (hpre : ds <+: cs)
    (hlast : ∀ c ∈ ds.getLast?, isPySpace c = false) : IsLine ds where
  blank c hc := h.blank c (hpre.subset hc)
  single := h.single.prefix hpre
  head c hc := by
    obtain ⟨rest, rfl⟩ := hpre
    apply h.head
    rw [List.head?_append, hc]
    rfl
  last := hlast

theorem isLine_pyStrip_collapse (cs : List Char) : IsLine (pyStrip (collapse cs)) where
  blank c hc := blank_of_mem_collapseFrom ((pyStrip_isInfix _).subset hc)
  single := List.IsChain.infix (single_collapseFrom false cs) (pyStrip_isInfix _)
  head c hc := by
    obtain ⟨rest, hrest⟩ := pyRstrip_isPrefix ((collapse cs).dropWhile isPySpace)
    apply head_dropWhile
    rw [← hrest, List.head?_append]
    exact Option.mem_def.mpr (congrArg (Option.or · _) hc)
  last c hc := last_pyRstrip hc

theorem IsLine.cap {cs : List Char} (h : IsLine cs) (maxLen : ℕ) : IsLine (cap maxLen cs) := by
  rw [ModelText.cap]
  split_ifs
  · refine h.of_isPrefix ((pyRstrip_isPrefix _).trans ?_) fun c hc => last_pyRstrip hc
    exact List.take_prefix maxLen cs
  · exact h

theorem head_escapeHtmlChar {c d : Char} (h : d ∈ (escapeHtmlChar c).head?) : d = c ∨ d = '&' := by
  by_cases hc : c ∈ ['&', '<', '>', '"', '\'']
  · fin_cases hc <;> exact Or.inr (Option.some.inj h).symm
  · rw [escapeHtmlChar_of_plain hc] at h
    exact Or.inl (Option.some.inj h).symm

theorem escapeHtmlChar_ne_nil (c : Char) : escapeHtmlChar c ≠ [] := by
  by_cases hc : c ∈ ['&', '<', '>', '"', '\'']
  · fin_cases hc <;> decide
  · rw [escapeHtmlChar_of_plain hc]
    exact List.cons_ne_nil c []

theorem escapeHtml_cons (c : Char) (cs : List Char) :
    escapeHtml (c :: cs) = escapeHtmlChar c ++ escapeHtml cs := List.flatMap_cons

theorem escapeHtml_append (cs ds : List Char) :
    escapeHtml (cs ++ ds) = escapeHtml cs ++ escapeHtml ds := List.flatMap_append

theorem head_escapeHtml {d : Char} {cs : List Char} (h : d ∈ (escapeHtml cs).head?) :
    d ∈ cs.head? ∨ d = '&' := by
  cases cs with
  | nil => cases h
  | cons c cs =>
    rw [escapeHtml_cons, List.head?_append_of_ne_nil _ (escapeHtmlChar_ne_nil c)] at h
    exact (head_escapeHtmlChar h).imp_left fun heq => Option.mem_def.mpr (congrArg some heq.symm)

/-- Escaping puts no blanks next to each other. -/
theorem single_escapeHtml {cs : List Char}
    (h : cs.IsChain fun c c' => isPySpace c = true → isPySpace c' = false) :
    (escapeHtml cs).IsChain fun c c' => isPySpace c = true → isPySpace c' = false := by
  induction cs with
  | nil => exact List.isChain_nil
  | cons c cs ih =>
    obtain ⟨hhead, hchain⟩ := List.isChain_cons.mp h
    rw [escapeHtml_cons, List.isChain_append]
    by_cases hc : c ∈ ['&', '<', '>', '"', '\'']
    · have hnone : ∀ d ∈ escapeHtmlChar c, isPySpace d = false := by
        intro d hd
        rcases mem_escapeHtmlChar hd with rfl | hd
        · fin_cases hc <;> decide
        · exact hd.2
      refine ⟨?_, ih hchain, fun d hd e _ hblank => ?_⟩
      · fin_cases hc <;> decide
      · exact absurd (hnone d (List.mem_of_getLast? hd)) (Bool.not_eq_false _ ▸ hblank)
    · rw [escapeHtmlChar_of_plain hc]
      refine ⟨List.isChain_singleton c, ih hchain, fun d hd e he hblank => ?_⟩
      obtain rfl := Option.some.inj hd
      rcases head_escapeHtml he with he | rfl
      · exact hhead e he hblank
      · decide

theorem last_escapeHtml {cs : List Char} (h : ∀ c ∈ cs.getLast?, isPySpace c = false) :
    ∀ c ∈ (escapeHtml cs).getLast?, isPySpace c = false := by
  rcases List.eq_nil_or_concat cs with rfl | ⟨front, d, rfl⟩
  · rintro c ⟨⟩
  · intro c hc
    rw [List.concat_eq_append, escapeHtml_append, escapeHtml_cons] at hc
    have hmem : c ∈ escapeHtmlChar d ++ escapeHtml [] := by
      rw [List.getLast?_append_of_ne_nil] at hc
      · exact List.mem_of_getLast? hc
      · exact List.append_ne_nil_of_left_ne_nil (escapeHtmlChar_ne_nil d) _
    rw [escapeHtml, List.flatMap_nil, List.append_nil] at hmem
    rcases mem_escapeHtmlChar hmem with rfl | hc
    · exact h c (by simp)
    · exact hc.2

theorem IsLine.escapeHtml {cs : List Char} (h : IsLine cs) : IsLine (escapeHtml cs) where
  blank c hc hblank := by
    rcases mem_escapeHtml hc with hc | hc
    · exact h.blank c hc hblank
    · exact absurd hc.2 (Bool.not_eq_false _ ▸ hblank)
  single := single_escapeHtml h.single
  head c hc := by
    rcases head_escapeHtml hc with hc | rfl
    · exact h.head c hc
    · decide
  last := last_escapeHtml h.last

theorem isLine_inert (maxLen : ℕ) (cs : List Char) : IsLine (inert maxLen cs) :=
  ((isLine_pyStrip_collapse _).cap maxLen).escapeHtml

/-! ## The passes over a line -/

theorem collapseFrom_eq_self {blank : Bool} {cs : List Char}
    (hblank : ∀ c ∈ cs, isPySpace c = true → c = ' ')
    (hsingle : cs.IsChain fun c c' => isPySpace c = true → isPySpace c' = false)
    (hhead : blank = true → ∀ c ∈ cs.head?, isPySpace c = false) :
    collapseFrom blank cs = cs := by
  induction cs generalizing blank with
  | nil => rfl
  | cons c cs ih =>
    obtain ⟨hnext, hsingle⟩ := List.isChain_cons.mp hsingle
    have ih' : ∀ b, (b = true → ∀ d ∈ cs.head?, isPySpace d = false) → collapseFrom b cs = cs :=
      fun b => ih (fun d hd => hblank d (List.mem_cons_of_mem c hd)) hsingle
    rw [collapseFrom]
    split_ifs with hc hb
    · exact absurd (hhead hb c rfl) (Bool.not_eq_false _ ▸ hc)
    · rw [ih' true fun _ d hd => hnext d hd hc, hblank c List.mem_cons_self hc]
    · rw [ih' false fun hb => absurd hb (by decide)]

theorem dropWhile_eq_self {cs : List Char} (h : ∀ c ∈ cs.head?, isPySpace c = false) :
    cs.dropWhile isPySpace = cs := by
  cases cs with
  | nil => rfl
  | cons c cs => rw [List.dropWhile_cons, h c rfl, if_neg Bool.false_ne_true]

theorem pyRstrip_eq_self {cs : List Char} (h : ∀ c ∈ cs.getLast?, isPySpace c = false) :
    pyRstrip cs = cs := by
  rw [pyRstrip, dropWhile_eq_self, List.reverse_reverse]
  intro c hc
  rw [List.head?_reverse] at hc
  exact h c hc

/-- What a line collapses to, trimmed, is the line. -/
theorem IsLine.pyStrip_collapse {cs : List Char} (h : IsLine cs) : pyStrip (collapse cs) = cs := by
  rw [collapse, collapseFrom_eq_self h.blank h.single fun hb => absurd hb (by decide), pyStrip,
    dropWhile_eq_self h.head]
  exact pyRstrip_eq_self h.last

theorem ansiSequence_eq_none {cs : List Char} (h : ∀ c ∈ cs.head?, isControl c = false) :
    ansiSequence cs = none := by
  have hfirst : ∀ c rest, cs = c :: rest → c ≠ '\x1b' ∧ c ≠ '\u009b' := by
    rintro c rest rfl
    have hc := h c rfl
    constructor <;> (rintro rfl; exact absurd hc (by decide))
  rw [ansiSequence.eq_def]
  split
  · next rest => exact absurd rfl (hfirst _ _ rfl).1
  · next rest => exact absurd rfl (hfirst _ _ rfl).1
  · next rest => exact absurd rfl (hfirst _ _ rfl).2
  · rfl

theorem stripAnsiFrom_eq_self {cs : List Char} (h : ∀ c ∈ cs, isControl c = false) (n : ℕ) :
    stripAnsiFrom n cs = cs := by
  induction n generalizing cs with
  | zero => rfl
  | succ n ih =>
    cases cs with
    | nil => rfl
    | cons c cs =>
      have hnone : ansiSequence (c :: cs) = none := by
        apply ansiSequence_eq_none
        rintro c' ⟨⟩
        exact h _ List.mem_cons_self
      rw [stripAnsiFrom, hnone]
      exact congrArg (c :: ·) (ih fun c' hc' => h c' (List.mem_cons_of_mem c hc'))

theorem blankControls_eq_self {cs : List Char} (h : ∀ c ∈ cs, isControl c = false) :
    blankControls cs = cs := by
  rw [blankControls]
  conv_rhs => rw [← List.map_id cs]
  refine List.map_congr_left fun c hc => ?_
  rw [h c hc, if_neg Bool.false_ne_true, id_eq]

/-- Of a text without control characters. -/
theorem inert_of_not_isControl {cs : List Char} (h : ∀ c ∈ cs, isControl c = false) (maxLen : ℕ) :
    inert maxLen cs = escapeHtml (cap maxLen (pyStrip (collapse cs))) := by
  rw [inert, stripAnsi, stripAnsiFrom_eq_self h, blankControls_eq_self h]

/-! ## What is left as it is -/

/-- None of the characters that `html.escape` replaces. -/
def IsPlain (cs : List Char) : Prop := ∀ c ∈ cs, c ∉ ['&', '<', '>', '"', '\'']

/-- A line without control characters that is plain and bounded; or four characters longer than the
bound, with an ampersand after which `amp;` is repeated to the end. -/
structure IsInert (maxLen : ℕ) (cs : List Char) : Prop where
  not_isControl : ∀ c ∈ cs, isControl c = false
  isLine : IsLine cs
  plain_or : cs.length ≤ maxLen ∧ IsPlain cs ∨ cs.length = maxLen + 4 ∧
    ∃ plain rest, cs = plain ++ "&amp;".toList ++ rest ∧ IsPlain plain ∧
      rest <+: "amp;".toList ++ rest

theorem escapeHtml_of_plain {cs : List Char} (h : IsPlain cs) : escapeHtml cs = cs := by
  induction cs with
  | nil => rfl
  | cons c cs ih =>
    rw [escapeHtml_cons, escapeHtmlChar_of_plain (h c List.mem_cons_self),
      ih fun d hd => h d (List.mem_cons_of_mem c hd)]
    rfl

theorem length_le_escapeHtml (cs : List Char) : cs.length ≤ (escapeHtml cs).length := by
  induction cs with
  | nil => exact le_refl _
  | cons c cs ih =>
    have hpos := List.length_pos_of_ne_nil (escapeHtmlChar_ne_nil c)
    rw [escapeHtml_cons, List.length_append, List.length_cons]
    omega

/-- Escaping a text that is not plain makes it longer. -/
theorem plain_of_length_escapeHtml {cs : List Char} (h : (escapeHtml cs).length ≤ cs.length) :
    IsPlain cs := by
  induction cs with
  | nil => exact fun c hc => absurd hc List.not_mem_nil
  | cons c cs ih =>
    have htail := length_le_escapeHtml cs
    rw [escapeHtml_cons, List.length_append, List.length_cons] at h
    by_cases hc : c ∈ ['&', '<', '>', '"', '\'']
    · have hlong : 4 ≤ (escapeHtmlChar c).length := by fin_cases hc <;> decide
      omega
    · have hpos := List.length_pos_of_ne_nil (escapeHtmlChar_ne_nil c)
      exact List.forall_mem_cons.mpr ⟨hc, ih (by omega)⟩

/-- Of the characters that are replaced, only the ampersand is left. -/
theorem eq_amp_of_mem_escapeHtml {c : Char} {cs : List Char} (h : c ∈ escapeHtml cs)
    (hc : c ∈ ['&', '<', '>', '"', '\'']) : c = '&' := by
  obtain ⟨d, -, hd⟩ := List.mem_flatMap.mp h
  by_cases hspecial : d ∈ ['&', '<', '>', '"', '\'']
  · fin_cases hspecial <;> fin_cases hd <;> first | rfl | exact absurd hc (by decide)
  · rw [escapeHtmlChar_of_plain hspecial] at hd
    exact absurd (List.mem_singleton.mp hd ▸ hc) hspecial

/-- A text up to its first character that is replaced. -/
theorem plain_or_split (cs : List Char) : IsPlain cs ∨
    ∃ plain c rest, cs = plain ++ c :: rest ∧ IsPlain plain ∧ c ∈ ['&', '<', '>', '"', '\''] := by
  induction cs with
  | nil => exact Or.inl fun c hc => absurd hc List.not_mem_nil
  | cons c cs ih =>
    by_cases hc : c ∈ ['&', '<', '>', '"', '\'']
    · exact Or.inr ⟨[], c, cs, rfl, fun d hd => absurd hd List.not_mem_nil, hc⟩
    · rcases ih with hplain | ⟨plain, d, rest, rfl, hplain, hd⟩
      · exact Or.inl (List.forall_mem_cons.mpr ⟨hc, hplain⟩)
      · exact Or.inr ⟨c :: plain, d, rest, rfl, List.forall_mem_cons.mpr ⟨hc, hplain⟩, hd⟩

/-- What begins like its own escaped form, behind `amp;`, is plain. -/
theorem plain_of_prefix_escapeHtml {cs : List Char} (h : cs <+: "amp;".toList ++ escapeHtml cs) :
    IsPlain cs := by
  rcases plain_or_split cs with hplain | ⟨plain, c, rest, rfl, hplain, hc⟩
  · exact hplain
  · exfalso
    rw [escapeHtml_append, escapeHtml_of_plain hplain, ← List.append_assoc] at h
    -- the first character that is replaced stands among plain ones
    obtain ⟨behind, hbehind⟩ := h
    have hmem : c ∈ "amp;".toList ++ plain := by
      have hlt : plain.length < ("amp;".toList ++ plain).length := by
        rw [List.length_append]
        exact Nat.lt_add_of_pos_left (by decide)
      have hget : (plain ++ c :: rest ++ behind)[plain.length]? = some c := by simp
      rw [hbehind, List.getElem?_append_left hlt] at hget
      exact List.mem_of_getElem? hget
    rcases List.mem_append.mp hmem with hmem | hmem
    · fin_cases hmem <;> exact absurd hc (by decide)
    · exact hplain c hmem hc

/-- What begins like itself behind a word repeats the word. -/
theorem mem_of_prefix_append {α : Type*} {word cs : List α} (hword : word ≠ [])
    (h : cs <+: word ++ cs) : ∀ c ∈ cs, c ∈ word := by
  have hpos := List.length_pos_of_ne_nil hword
  have hat : ∀ (i : ℕ) c, cs[i]? = some c → c ∈ word := by
    intro i
    induction i using Nat.strong_induction_on with
    | _ i ih =>
      intro c hc
      obtain ⟨behind, hbehind⟩ := h
      have hget : (word ++ cs)[i]? = some c := by
        obtain ⟨hlt, -⟩ := List.getElem?_eq_some_iff.mp hc
        rw [← hbehind, List.getElem?_append_left hlt, hc]
      by_cases hi : i < word.length
      · rw [List.getElem?_append_left hi] at hget
        exact List.mem_of_getElem? hget
      · rw [List.getElem?_append_right (not_lt.mp hi)] at hget
        exact ih (i - word.length) (by omega) c hget
  intro c hc
  obtain ⟨i, hi⟩ := List.getElem?_of_mem hc
  exact hat i c hi

theorem IsInert.inert_eq {maxLen : ℕ} {cs : List Char} (h : IsInert maxLen cs) :
    inert maxLen cs = cs := by
  rw [inert_of_not_isControl h.not_isControl, h.isLine.pyStrip_collapse, cap]
  rcases h.plain_or with ⟨hlen, hplain⟩ | ⟨hlen, plain, rest, rfl, hplain, hrest⟩
  · rw [if_neg (not_lt.mpr hlen), escapeHtml_of_plain hplain]
  · have hmem := mem_of_prefix_append (by decide) hrest
    have hrestplain : IsPlain rest := by
      intro c hc
      have hc := hmem c hc
      fin_cases hc <;> decide
    have hsplit : plain ++ "&amp;".toList ++ rest =
        (plain ++ ['&']) ++ ("amp;".toList ++ rest) := by
      simp
    have hn : maxLen = (plain ++ ['&']).length + rest.length := by
      simp only [List.length_append, String.length_toList] at hlen
      rw [List.length_append, List.length_singleton]
      have hfive : "&amp;".length = 5 := by decide
      omega
    have htake : (plain ++ "&amp;".toList ++ rest).take maxLen = plain ++ ['&'] ++ rest := by
      rw [hsplit, hn, List.take_length_add_append, ← List.prefix_iff_eq_take.mp hrest]
    have hlast : ∀ c ∈ (plain ++ ['&'] ++ rest).getLast?, isPySpace c = false := by
      intro c hc
      rw [List.append_assoc, List.getLast?_append_of_ne_nil _ (by simp)] at hc
      rcases List.mem_cons.mp (List.mem_of_getLast? hc) with rfl | hc
      · decide
      · have hc := hmem c hc
        fin_cases hc <;> decide
    rw [if_pos (by omega), htake, pyRstrip_eq_self hlast, escapeHtml_append, escapeHtml_append,
      escapeHtml_of_plain hplain, escapeHtml_of_plain hrestplain]
    rfl

theorem blank_after_pyRstrip {cs : List Char} {c : Char}
    (h : cs[(pyRstrip cs).length]? = some c) : isPySpace c = true := by
  have hsplit : pyRstrip cs ++ (cs.reverse.takeWhile isPySpace).reverse = cs := by
    rw [pyRstrip, ← List.reverse_append, List.takeWhile_append_dropWhile, List.reverse_reverse]
  rw [← hsplit] at h
  have hlen : (pyRstrip (pyRstrip cs ++ (cs.reverse.takeWhile isPySpace).reverse)).length =
      (pyRstrip cs).length := by rw [hsplit]
  rw [hlen, List.getElem?_append_right (le_refl _)] at h
  exact List.mem_takeWhile_imp (List.mem_reverse.mp (List.mem_of_getElem? h))

/-- Nothing is trimmed where the text is cut among its repetitions. -/
theorem length_of_cut {maxLen : ℕ} {cs plain rest : List Char}
    (heq : cs = plain ++ "&amp;".toList ++ rest) (hrest : rest <+: "amp;".toList ++ rest)
    (hcut : pyRstrip (cs.take maxLen) = plain ++ '&' :: rest) :
    cs.length = maxLen + 4 := by
  have hamp : "&amp;".toList = ['&', 'a', 'm', 'p', ';'] := by decide
  have hcs : cs.length = plain.length + 5 + rest.length := by
    rw [heq, hamp]
    simp only [List.length_append, List.length_cons, List.length_nil]
  have hcutlen := (pyRstrip_isPrefix (cs.take maxLen)).length_le
  rw [hcut, List.length_take, List.length_append, List.length_cons] at hcutlen
  by_contra hne
  -- the character behind the cut would be trimmed, but it is one of the repetitions
  obtain ⟨c, hc⟩ : ∃ c, ("amp;".toList ++ rest)[rest.length]? = some c := by
    have hlt : rest.length < ("amp;".toList ++ rest).length := by
      rw [List.length_append]
      exact Nat.lt_add_of_pos_left (by decide)
    exact ⟨_, List.getElem?_eq_getElem hlt⟩
  have hat : (cs.take maxLen)[(plain ++ '&' :: rest).length]? = some c := by
    have hsplit : cs = (plain ++ ['&']) ++ ("amp;".toList ++ rest) := by simp [heq]
    rw [List.getElem?_take_of_lt (by rw [List.length_append, List.length_cons]; omega), hsplit,
      ← hc, List.getElem?_append_right (by simp)]
    congr 1
    simp only [List.length_append, List.length_cons, List.length_nil]
    omega
  have hblank := blank_after_pyRstrip (hcut.symm ▸ hat)
  have hmem : c ∈ "amp;".toList := by
    rcases List.mem_append.mp (List.mem_of_getElem? hc) with hc | hc
    · exact hc
    · exact mem_of_prefix_append (by decide) hrest c hc
  fin_cases hmem <;> exact absurd hblank (by decide)

/-- **What is left as it is.** -/
theorem inert_eq_self_iff {maxLen : ℕ} {cs : List Char} :
    inert maxLen cs = cs ↔ IsInert maxLen cs := by
  refine ⟨fun h => ?_, IsInert.inert_eq⟩
  have hcontrol : ∀ c ∈ cs, isControl c = false := fun c hc =>
    not_isControl_of_mem_inert (h.symm ▸ hc)
  have hline : IsLine cs := h ▸ isLine_inert maxLen cs
  refine ⟨hcontrol, hline, ?_⟩
  rw [inert_of_not_isControl hcontrol, hline.pyStrip_collapse, cap] at h
  split_ifs at h with hlen
  · right
    generalize hz : pyRstrip (cs.take maxLen) = z at h
    have hpre : z <+: cs := by
      rw [← hz]
      exact (pyRstrip_isPrefix _).trans (List.take_prefix _ _)
    have hzlen : z.length ≤ maxLen := by
      have hle := (pyRstrip_isPrefix (cs.take maxLen)).length_le
      rw [hz, List.length_take] at hle
      omega
    rcases plain_or_split z with hplain | ⟨plain, c, rest, rfl, hplain, hc⟩
    · rw [escapeHtml_of_plain hplain] at h
      rw [h] at hzlen
      omega
    · have hmem : c ∈ escapeHtml (plain ++ c :: rest) :=
        h.symm ▸ hpre.subset (List.mem_append_right plain List.mem_cons_self)
      obtain rfl := eq_amp_of_mem_escapeHtml hmem hc
      rw [escapeHtml_append, escapeHtml_of_plain hplain, escapeHtml_cons] at h
      have hamp : escapeHtmlChar '&' = '&' :: "amp;".toList := by decide
      have hrest : rest <+: "amp;".toList ++ escapeHtml rest := by
        rw [← h, hamp, List.prefix_append_right_inj, List.cons_append,
          List.cons_prefix_cons] at hpre
        exact hpre.2
      have hrestplain := plain_of_prefix_escapeHtml hrest
      rw [escapeHtml_of_plain hrestplain] at h hrest
      have heq : cs = plain ++ "&amp;".toList ++ rest := by
        rw [← h, List.append_assoc]
        rfl
      exact ⟨length_of_cut heq hrest hz, plain, rest, heq, hplain, hrest⟩
  · exact Or.inl ⟨not_lt.mp hlen, plain_of_length_escapeHtml (congrArg List.length h).le⟩

/-! ## Composed characters -/

/-- What is documented of the `NFC` form: it is a form, closed under substrings; ASCII texts have
it; nothing composes across a line end, a blank, an ampersand or a semicolon; and control characters
come from nowhere else. -/
structure Nfc (normalize : String → String) : Prop where
  idem : ∀ s, normalize (normalize s) = normalize s
  substring : ∀ s t, normalize s = s → t.toList <:+: s.toList → normalize t = t
  ascii : ∀ s, (∀ c ∈ s.toList, c.toNat < 128) → normalize s = s
  boundary : ∀ c ∈ ['\n', ' ', '&', ';'], ∀ s t,
    normalize (s ++ String.singleton c ++ t) = normalize s ++ String.singleton c ++ normalize t
  control : ∀ s, ∀ c ∈ (normalize s).toList, isControl c = true → c ∈ s.toList

section Nfc

variable {normalize : String → String}

/-- A text in `NFC` form. -/
def IsNormal (normalize : String → String) (cs : List Char) : Prop :=
  normalize (String.ofList cs) = String.ofList cs

namespace Nfc

theorem isNormal_part (hN : Nfc normalize) {cs ds : List Char} (h : IsNormal normalize cs)
    (hpart : ds <:+: cs) : IsNormal normalize ds := by
  refine hN.substring (String.ofList cs) _ h ?_
  rwa [String.toList_ofList, String.toList_ofList]

theorem isNormal_append (hN : Nfc normalize) {c : Char} (hc : c ∈ ['\n', ' ', '&', ';'])
    {cs ds : List Char} (hcs : IsNormal normalize cs) (hds : IsNormal normalize ds) :
    IsNormal normalize (cs ++ c :: ds) := by
  have hsplit : String.ofList (cs ++ c :: ds) =
      String.ofList cs ++ String.singleton c ++ String.ofList ds := by
    apply String.ext
    simp
  rw [IsNormal, hsplit, hN.boundary c hc, hcs, hds]

theorem isNormal_collapseFrom (hN : Nfc normalize) {cs : List Char} :
    (IsNormal normalize cs → IsNormal normalize (collapseFrom true cs)) ∧
      ∀ word, IsNormal normalize (word ++ cs) →
        IsNormal normalize (word ++ collapseFrom false cs) := by
  induction cs with
  | nil => exact ⟨id, fun _ => id⟩
  | cons c cs ih =>
    have htail : ∀ word, IsNormal normalize (word ++ c :: cs) → IsNormal normalize cs :=
      fun word h => hN.isNormal_part h ⟨word ++ [c], [], by simp⟩
    constructor
    · intro h
      rw [collapseFrom, if_pos rfl]
      split_ifs
      · exact ih.1 (htail [] h)
      · exact ih.2 [c] h
    · intro word h
      rw [collapseFrom, if_neg Bool.false_ne_true]
      split_ifs
      · apply hN.isNormal_append (by simp)
        · exact hN.isNormal_part h ⟨[], c :: cs, rfl⟩
        · exact ih.1 (htail word h)
      · have hword := ih.2 (word ++ [c]) (by rwa [List.append_assoc])
        rwa [List.append_assoc] at hword

theorem isNormal_escapeHtml (hN : Nfc normalize) {cs : List Char} :
    ∀ word, IsNormal normalize (word ++ cs) → IsNormal normalize (word ++ escapeHtml cs) := by
  induction cs with
  | nil => exact fun _ => id
  | cons c cs ih =>
    intro word h
    rw [escapeHtml_cons]
    by_cases hc : c ∈ ['&', '<', '>', '"', '\'']
    · have hword : IsNormal normalize word := hN.isNormal_part h ⟨[], c :: cs, rfl⟩
      have hrest : IsNormal normalize (escapeHtml cs) :=
        ih [] (hN.isNormal_part h ⟨word ++ [c], [], by simp⟩)
      -- an ampersand, a name and a semicolon
      obtain ⟨name, hname, hascii⟩ : ∃ name : String,
          escapeHtmlChar c = '&' :: name.toList ++ [';'] ∧ ∀ c ∈ name.toList, c.toNat < 128 := by
        fin_cases hc
        · exact ⟨"amp", by decide, by simp⟩
        · exact ⟨"lt", by decide, by simp⟩
        · exact ⟨"gt", by decide, by simp⟩
        · exact ⟨"quot", by decide, by simp⟩
        · exact ⟨"#x27", by decide, by simp⟩
      have hnormal : IsNormal normalize name.toList := by
        rw [IsNormal, String.ofList_toList]
        exact hN.ascii name hascii
      rw [hname, List.append_assoc, List.cons_append, List.singleton_append]
      exact hN.isNormal_append (by simp) hword (hN.isNormal_append (by simp) hnormal hrest)
    · rw [escapeHtmlChar_of_plain hc]
      have hword := ih (word ++ [c]) (by rwa [List.append_assoc])
      rwa [List.append_assoc] at hword

/-- A text that comes back under `NFC` was left as it is. -/
theorem inert_eq_self (hN : Nfc normalize) {maxLen : ℕ} {cs : List Char}
    (hcs : IsNormal normalize cs)
    (h : normalize (String.ofList (inert maxLen cs)) = String.ofList cs) :
    inert maxLen cs = cs := by
  have hcontrol : ∀ c ∈ cs, isControl c = false := by
    intro c hc
    by_contra hctl
    have hmem : c ∈ (normalize (String.ofList (inert maxLen cs))).toList := by
      rwa [h, String.toList_ofList]
    have hin := hN.control _ c hmem (Bool.not_eq_false _ ▸ hctl)
    rw [String.toList_ofList] at hin
    exact hctl (not_isControl_of_mem_inert hin)
  have hcollapse : IsNormal normalize (collapse cs) := hN.isNormal_collapseFrom.2 [] hcs
  have hcap : IsNormal normalize (cap maxLen (pyStrip (collapse cs))) :=
    hN.isNormal_part hcollapse ((cap_isPrefix _ _).isInfix.trans (pyStrip_isInfix _))
  have hinert : IsNormal normalize (inert maxLen cs) := by
    rw [inert_of_not_isControl hcontrol]
    exact hN.isNormal_escapeHtml [] hcap
  rw [hinert] at h
  simpa using congrArg String.toList h

/-- **What comes out the same, up to composed characters.** -/
theorem sanitizeModelText_eq_iff (hN : Nfc normalize) (maxLen : ℕ) (s : String) :
    normalize (sanitizeModelText normalize maxLen s) = normalize s ↔
      IsInert maxLen (normalize s).toList := by
  have hs : IsNormal normalize (normalize s).toList := by
    rw [IsNormal, String.ofList_toList]
    exact hN.idem s
  rw [sanitizeModelText, ← inert_eq_self_iff]
  refine ⟨fun h => hN.inert_eq_self hs ?_, fun h => ?_⟩
  · rw [h, String.ofList_toList]
  · rw [h, String.ofList_toList, hN.idem]

end Nfc

end Nfc

end ModelText

end Eyenet
