import Eyenet.CandidateScore
import Eyenet.Regex
import Eyenet.SourceDomain

/-!
# References to channels

`channel_reference_extraction` (`sensor/discovery/channel_reference_extraction.py`) looks for links,
handles and aliases in a message and records a mention of each channel that it finds. The pattern
of public links reads the fixed path of an invite link as a name, and the group of the message is
compared with the channels by its key, which no channel has as its name.

* `isInvite_iff` — which public links are the beginning of an invite link.
* `ne_uuidText` — no reference is named like the key of a group.
* `proper_iff` — exactly when a message yields its references alone, and none to its own group.
-/

namespace Eyenet

open Regex

namespace ChannelReference

/-! ## Characters -/

/-- A character of a text that is read with `IGNORECASE`; three letters have forms beyond ASCII. -/
def foldsTo (c x : Char) : Bool :=
  x.toLower = c ∨ c = 'i' ∧ (x = '\u0130' ∨ x = '\u0131') ∨ c = 's' ∧ x = '\u017f' ∨
    c = 'k' ∧ x = '\u212a'

/-- A text that is read with `IGNORECASE`. -/
def folded (s : String) : List CharClass := s.toList.map foldsTo

/-- `[A-Za-z]` with `IGNORECASE` -/
def isFoldedLetter (x : Char) : Bool :=
  x.isAlpha || x ∈ ['\u0130', '\u0131', '\u017f', '\u212a']

/-- `[A-Za-z0-9_]` with `IGNORECASE` -/
def isFoldedName (x : Char) : Bool := isFoldedLetter x || x.isDigit || x = '_'

/-- `[A-Za-z0-9_-]` with `IGNORECASE` -/
def isFoldedHash (x : Char) : Bool := isFoldedName x || x = '-'

/-- `[A-Za-z0-9_]` -/
def isName (x : Char) : Bool := x.isAlphanum || x = '_'

/-- `str.lower` for the characters of names and aliases. -/
def lowerChar (x : Char) : List Char :=
  if x = '\u0130' then ['i', '\u0307'] else if x = '\u212a' then ['k'] else [x.toLower]

def lowered (xs : List Char) : String := String.ofList (xs.flatMap lowerChar)

/-- The characters at which `str.splitlines` breaks. -/
def isLineBreak (c : Char) : Bool :=
  c ∈ ['\n', '\r', '\x0b', '\x0c', '\x1c', '\x1d', '\x1e', '\u0085', '\u2028', '\u2029']

/-- The lines of a text after the beginning of one, in reverse. -/
def linesFrom (line : List Char) : List Char → List (List Char)
  | [] => if line = [] then [] else [line.reverse]
  | '\r' :: '\n' :: cs => line.reverse :: linesFrom [] cs
  | c :: cs => if isLineBreak c then line.reverse :: linesFrom [] cs else linesFrom (c :: line) cs

/-- `str.splitlines` -/
def splitlines (text : String) : List (List Char) := linesFrom [] text.toList

/-! ## Patterns -/

/-- `(?:https?://)?` with `IGNORECASE` -/
def scheme : Pattern :=
  .opt (.seq (.text (folded "http")) (.seq (.opt (.text (folded "s"))) (.text (folded "://"))))

/-- `(?:https?://)?t\.me/` -/
def tgLink : Pattern := .seq scheme (.text (folded "t.me/"))

/-- `_TG_INVITE_RE` -/
def tgInviteRe : Pattern :=
  .seq tgLink (.seq (.alt (.text (folded "joinchat/")) (.text (folded "+")))
    (.group (.many isFoldedHash 8 none)))

/-- `_TG_PUBLIC_RE` -/
def tgPublicRe : Pattern :=
  .seq tgLink (.seq (.group (.seq (.text [isFoldedLetter]) (.many isFoldedName 3 (some 31))))
    .boundary)

/-- `_MATRIX_ALIAS_RE` -/
def matrixAliasRe : Pattern :=
  .seq (.opt (.seq (.text (literal "http")) (.seq (.opt (.text (literal "s")))
      (.text (literal "://matrix.to/#/")))))
    (.group (.seq (.text (literal "#"))
      (.seq (.many (fun x => x.isAlphanum || x ∈ ['.', '_', '=', '-', '/']) 1 none)
        (.seq (.text (literal ":")) (.seq (.many (fun x => x.isAlphanum || x ∈ ['.', '-']) 1 none)
          (.seq (.text (literal ".")) (.many Char.isAlpha 2 none)))))))

/-- `_MYSQLDUMP_COMMENT` -/
def mysqldumpComment : Pattern :=
  .alt (.seq (.text (literal "/*!")) (.seq (.many Char.isDigit 0 none) (.many isPySpace 0 none)))
    (.seq (.many isPySpace 0 none) (.text (literal "*/")))

section Detect

variable (isAlnum : CharClass) (isStatement : String → Bool)

/-- `\w`; `isAlnum` is `str.isalnum` beyond the characters that the patterns name. -/
def isWord (x : Char) : Bool := isFoldedName x || isAlnum x

/-- `_AT_HANDLE_RE` -/
def atHandleRe : Pattern :=
  .seq (.notBehind fun x => isWord isAlnum x || x = '/') (.seq (.text (literal "@"))
    (.seq (.group (.seq (.text [Char.isAlpha]) (.many isName 4 (some 31)))) .boundary))

/-- `_is_sql_line`; `isStatement` says whether the parser finds a statement. -/
def isSqlLine (line : List Char) : Bool :=
  let stripped := pyStrip (mysqldumpComment.sub (isWord isAlnum) [' '] line)
  let s := pyStrip (stripped.rdropWhile fun c => c = ';')
  s ≠ [] ∧ isStatement (String.ofList s)

/-- `_Reference` -/
structure Reference where
  platformGroupid : String
  kind : MentionKind
  deriving DecidableEq

/-- The invite links of a text. -/
def inviteLinks (text : String) : List Match := tgInviteRe.finditer (isWord isAlnum) text.toList

/-- The public links of a text. -/
def publicLinks (text : String) : List Match := tgPublicRe.finditer (isWord isAlnum) text.toList

/-- The handles of a text, on lines that are no statements. -/
def handles (text : String) : List Match :=
  (splitlines text).flatMap fun line =>
    if '@' ∉ line then []
    else
      let found := (atHandleRe isAlnum).finditer (isWord isAlnum) line
      if found ≠ [] ∧ isSqlLine isAlnum isStatement line = false then found else []

/-- The aliases of rooms in a text. -/
def aliases (text : String) : List Match := matrixAliasRe.finditer (isWord isAlnum) text.toList

/-- The reference of an invite link. -/
def inviteReference (m : Match) : Reference :=
  ⟨"joinchat:" ++ String.ofList m.stop.group, .inviteLink⟩

/-- The reference of a public link or a handle. -/
def usernameReference (m : Match) : Reference := ⟨"@" ++ lowered m.stop.group, .usernameMention⟩

/-- The reference of an alias. -/
def aliasReference (m : Match) : Reference := ⟨lowered m.stop.group, .usernameMention⟩

/-- `_detect`; the references are a set. -/
def detect (text : String) : List Reference :=
  ((inviteLinks isAlnum text).map inviteReference ++
    (publicLinks isAlnum text).map usernameReference ++
    (handles isAlnum isStatement text).map usernameReference ++
    (aliases isAlnum text).map aliasReference).dedup

/-- `MessageContext` -/
structure MessageContext where
  text : String
  sourceId : Uuid
  observedByCollectorId : Uuid
  observedInGroupId : Uuid
  seedRootId : Option Uuid
  depthFromRoot : ℕ
  mentioningActorId : Uuid
  evidenceRef : String
  sentAtSource : Datetime
  collectedAt : Datetime

/-- A call of `record_candidate_mention`: the key of the candidate and the mention. -/
structure RecordedMention where
  sourceId : Uuid
  platformGroupid : String
  args : MentionArgs

/-- What is recorded of a reference. -/
def mention (ctx : MessageContext) (ref : Reference) : RecordedMention where
  sourceId := ctx.sourceId
  platformGroupid := ref.platformGroupid
  args := {
    observedByCollectorId := ctx.observedByCollectorId
    observedInGroupId := ctx.observedInGroupId
    seedRootId := ctx.seedRootId
    depthFromRoot := ctx.depthFromRoot + 1
    mentionEvidenceRef := ctx.evidenceRef ++ "#" ++ ref.platformGroupid
    mentionKind := ref.kind
    mentionedAtSource := ctx.sentAtSource
    mentionedAtIngest := ctx.collectedAt
    mentioningActorId := ctx.mentioningActorId
    mentioningActorRoleSignal := none
    kindHint := none
    displayNameHint := none }

/-- `process`: the mentions that are recorded. -/
def process (ctx : MessageContext) : List RecordedMention :=
  ((detect isAlnum isStatement ctx.text).filter fun ref =>
    ref.platformGroupid ≠ uuidText ctx.observedInGroupId).map (mention ctx)

/-! ## What a message refers to -/

/-- What the patterns find in a text; a public link that is the beginning of an invite link is
none. -/
inductive RefersTo (text : String) : Reference → Prop
  | inviteLink {m : Match} (h : m ∈ inviteLinks isAlnum text) : RefersTo text (inviteReference m)
  | publicLink {m : Match} (h : m ∈ publicLinks isAlnum text)
    (hinvite : tgInviteRe.matchAt (isWord isAlnum) m.start = none) :
    RefersTo text (usernameReference m)
  | handle {m : Match} (h : m ∈ handles isAlnum isStatement text) :
    RefersTo text (usernameReference m)
  | roomAlias {m : Match} (h : m ∈ aliases isAlnum text) : RefersTo text (aliasReference m)

/-- A message yields what it refers to, each channel once, and mentions only other groups than its
own; `denotes` says which group a channel is. -/
structure Proper (denotes : String → Uuid → Prop) (ctx : MessageContext) : Prop where
  refs : ∀ ref, ref ∈ detect isAlnum isStatement ctx.text ↔
    RefersTo isAlnum isStatement ctx.text ref
  once : ((detect isAlnum isStatement ctx.text).map Reference.platformGroupid).Nodup
  others : ∀ m ∈ process isAlnum isStatement ctx, ¬denotes m.platformGroupid ctx.observedInGroupId

/-- The public link goes on like an invite link: its name is the fixed path, and behind a slash at
least eight characters of a hash follow. -/
def IsInvitePath (m : Match) : Prop :=
  List.Forall₂ (fun p x => p x = true) (folded "joinchat") m.stop.group ∧
    ∃ rest, m.stop.rest = '/' :: rest ∧ 8 ≤ (rest.takeWhile isFoldedHash).length

/-- The name of every invite path is also that of another public link or of a handle. -/
def PathsNamed (text : String) : Prop :=
  ∀ m ∈ publicLinks isAlnum text, IsInvitePath m →
    (∃ link ∈ publicLinks isAlnum text, ¬IsInvitePath link ∧
      lowered link.stop.group = lowered m.stop.group) ∨
    ∃ handle ∈ handles isAlnum isStatement text, lowered handle.stop.group = lowered m.stop.group

/-- No link, handle or alias of the text denotes the group. -/
structure NoneDenotes (denotes : String → Uuid → Prop) (text : String) (groupId : Uuid) : Prop where
  invite : ∀ m ∈ inviteLinks isAlnum text,
    ¬denotes ("joinchat:" ++ String.ofList m.stop.group) groupId
  username : ∀ m ∈ publicLinks isAlnum text ++ handles isAlnum isStatement text,
    ¬denotes ("@" ++ lowered m.stop.group) groupId
  roomAlias : ∀ m ∈ aliases isAlnum text, ¬denotes (lowered m.stop.group) groupId

end Detect

/-! ## Public links and invite links -/

section Links

variable {w : CharClass} {c d e : Cursor}

/-- A link begins with `t.me/`, or with one of two schemes. -/
theorem mem_tgLink : e ∈ tgLink.matchesAt w c ↔ c.eat (folded "t.me/") = some e ∨
    (c.eat (folded "http")).bind (fun d => d.eat (folded "://t.me/")) = some e ∨
    (c.eat (folded "http")).bind (fun d => d.eat (folded "s://t.me/")) = some e := by
  have hplain : folded "://t.me/" = folded "://" ++ folded "t.me/" := rfl
  have hsecure : folded "s://t.me/" = folded "s" ++ (folded "://" ++ folded "t.me/") := rfl
  simp only [tgLink, scheme, Pattern.mem_seq, Pattern.mem_opt, Pattern.mem_text, hplain, hsecure,
    Cursor.eat_append, Option.bind_eq_some_iff]
  refine ⟨?_, ?_⟩
  · rintro ⟨b, ⟨a, ha, a', ha' | rfl, hb⟩ | rfl, he⟩
    · exact Or.inr (Or.inr ⟨a, ha, a', ha', b, hb, he⟩)
    · exact Or.inr (Or.inl ⟨_, ha, b, hb, he⟩)
    · exact Or.inl he
  · rintro (he | ⟨a, ha, b, hb, he⟩ | ⟨a, ha, a', ha', b, hb, he⟩)
    · exact ⟨c, Or.inr rfl, he⟩
    · exact ⟨b, Or.inl ⟨a, ha, a, Or.inr rfl, hb⟩, he⟩
    · exact ⟨b, Or.inl ⟨a, ha, a', Or.inl ha', hb⟩, he⟩

/-- There is one way to read the beginning of a link. -/
theorem tgLink_unique (hd : d ∈ tgLink.matchesAt w c) (he : e ∈ tgLink.matchesAt w c) : d = e := by
  have hscheme {d} (h : c.eat (folded "t.me/") = some d) : c.eat (folded "http") = none := by
    have hapart : ∀ x, foldsTo 't' x = true → foldsTo 'h' x = false := by
      intro x hx
      have hlower : x.toLower = 't' := by simpa [foldsTo] using hx
      simp [foldsTo, hlower]
    exact Cursor.eat_eq_none_of_apart hapart h
  have hsecure {a d : Cursor} (h : a.eat (folded "://t.me/") = some d) :
      a.eat (folded "s://t.me/") = none := by
    have hapart : ∀ x, foldsTo ':' x = true → foldsTo 's' x = false := by
      intro x hx
      have hlower : x.toLower = ':' := by simpa [foldsTo] using hx
      have hlong : x ≠ '\u017f' := by
        rintro rfl
        revert hlower
        decide
      simp [foldsTo, hlower, hlong]
    exact Cursor.eat_eq_none_of_apart hapart h
  simp only [mem_tgLink, Option.bind_eq_some_iff] at hd he
  rcases hd with hd | ⟨a, ha, hd⟩ | ⟨a, ha, hd⟩ <;> rcases he with he | ⟨b, hb, he⟩ | ⟨b, hb, he⟩
  · exact Option.some.inj (hd.symm.trans he)
  · rw [hscheme hd] at hb
    cases hb
  · rw [hscheme hd] at hb
    cases hb
  · rw [hscheme he] at ha
    cases ha
  · obtain rfl := Option.some.inj (ha.symm.trans hb)
    exact Option.some.inj (hd.symm.trans he)
  · obtain rfl := Option.some.inj (ha.symm.trans hb)
    rw [hsecure hd] at he
    cases he
  · rw [hscheme he] at ha
    cases ha
  · obtain rfl := Option.some.inj (ha.symm.trans hb)
    rw [hsecure he] at hd
    cases hd
  · obtain rfl := Option.some.inj (ha.symm.trans hb)
    exact Option.some.inj (hd.symm.trans he)

/-- A public link: a name behind the link, up to a boundary. -/
theorem mem_tgPublicRe (h : d ∈ tgPublicRe.matchesAt w c) : ∃ e ∈ tgLink.matchesAt w c,
    ∃ x xs, e.Eats (x :: xs) d ∧ d.group = x :: xs ∧ isFoldedLetter x = true ∧
      (∀ y ∈ xs, isFoldedName y = true) ∧ atBoundary w d = true := by
  simp only [tgPublicRe, Pattern.mem_seq, Pattern.mem_boundary] at h
  obtain ⟨e, he, d', hd', hboundary, rfl⟩ := h
  obtain ⟨b, hb, hgroup⟩ := Pattern.mem_group hd'
  simp only [Pattern.mem_seq, Pattern.mem_text, Pattern.mem_many] at hb
  obtain ⟨a, ha, xs, hxs, -, hname, -⟩ := hb
  obtain ⟨eaten, hclasses, hx, -⟩ := Cursor.eat_eq_some.mp ha
  obtain ⟨x, rest, hletter, hrest, rfl⟩ := List.forall₂_cons_left_iff.mp hclasses
  obtain rfl := List.forall₂_nil_left_iff.mp hrest
  have heats : e.Eats (x :: xs) b := hx.trans hxs
  rw [hgroup _ heats] at hboundary ⊢
  exact ⟨e, he, x, xs, ⟨heats.rest, heats.before⟩, rfl, hletter, hname, hboundary⟩

/-- An invite link: the fixed path or a plus behind the link, and a hash. -/
theorem exists_mem_tgInviteRe : (∃ d, d ∈ tgInviteRe.matchesAt w c) ↔ ∃ e ∈ tgLink.matchesAt w c,
    ∃ b, (e.eat (folded "joinchat/") = some b ∨ e.eat (folded "+") = some b) ∧
      8 ≤ (b.rest.takeWhile isFoldedHash).length := by
  have hhash {b : Cursor} : (∃ d, d ∈ (Pattern.group (.many isFoldedHash 8 none)).matchesAt w b) ↔
      8 ≤ (b.rest.takeWhile isFoldedHash).length := by
    rw [Pattern.exists_mem_group, Pattern.exists_mem_many]
    simp
  simp only [tgInviteRe, Pattern.mem_seq, Pattern.mem_alt, Pattern.mem_text]
  refine ⟨?_, ?_⟩
  · rintro ⟨d, e, he, b, hb, hd⟩
    exact ⟨e, he, b, hb, hhash.mp ⟨d, hd⟩⟩
  · rintro ⟨e, he, b, hb, hlength⟩
    obtain ⟨d, hd⟩ := hhash.mpr hlength
    exact ⟨d, e, he, b, hb, hd⟩

/-- A letter in another form is a letter. -/
theorem isFoldedName_of_foldsTo {x y : Char} (hy : y.isLower = true) (h : foldsTo y x = true) :
    isFoldedName x = true := by
  simp only [foldsTo, decide_eq_true_eq] at h
  rcases h with rfl | ⟨-, rfl | rfl⟩ | ⟨-, rfl⟩ | ⟨-, rfl⟩
  · by_cases hupper : x.isUpper
    · simp [isFoldedName, isFoldedLetter, Char.isAlpha, hupper]
    · have hself : x.toLower = x := by
        rw [Char.toLower, dif_neg]
        exact fun h => hupper (by simpa [Char.isUpper] using h)
      rw [hself] at hy
      simp [isFoldedName, isFoldedLetter, Char.isAlpha, hy]
  all_goals rfl

/-- A character before the letters has no other form. -/
theorem eq_of_foldsTo {c x : Char} (hc : c.toNat < 65) (h : foldsTo c x = true) : x = c := by
  have hletter : c ≠ 'i' ∧ c ≠ 's' ∧ c ≠ 'k' := by
    refine ⟨?_, ?_, ?_⟩ <;> rintro rfl <;> revert hc <;> decide
  have hlower : x.toLower = c := by simpa [foldsTo, hletter] using h
  rw [Char.toLower] at hlower
  split_ifs at hlower with hupper
  · -- a capital becomes a small letter
    have hA : 65 ≤ x.val.toNat := UInt32.le_iff_toNat_le.mp hupper.1
    have hZ : x.val.toNat ≤ 90 := UInt32.le_iff_toNat_le.mp hupper.2
    rw [← hlower, Char.toNat, UInt32.toNat_add] at hc
    have hshift : ('a'.val - 'A'.val).toNat = 32 := rfl
    omega
  · exact hlower

theorem isFoldedName_of_joinchat {x : Char} {xs : List Char}
    (h : List.Forall₂ (fun p x => p x = true) (folded "joinchat") xs) (hx : x ∈ xs) :
    isFoldedName x = true := by
  have hclasses : ∀ p ∈ folded "joinchat", ∀ x, p x = true → isFoldedName x = true := by
    intro p hp x hx
    obtain ⟨y, hy, rfl⟩ := List.mem_map.mp hp
    exact isFoldedName_of_foldsTo (List.all_eq_true.mp (by decide : "joinchat".toList.all
      Char.isLower = true) y hy) hx
  generalize folded "joinchat" = ps at h hclasses
  induction h with
  | nil => exact absurd hx List.not_mem_nil
  | cons hp _ ih =>
    obtain ⟨hfirst, hrest⟩ := List.forall_mem_cons.mp hclasses
    rcases List.mem_cons.mp hx with rfl | hx
    · exact hfirst x hp
    · exact ih hx hrest

/-- What a name and the fixed path are read from is the same, up to the slash. -/
theorem eq_path_of_rest {x : Char} {xs path more : List Char}
    (hw : ∀ x, isFoldedName x = true → w x = true) (heats : e.Eats (x :: xs) d)
    (hnames : ∀ y ∈ x :: xs, isFoldedName y = true) (hboundary : atBoundary w d = true)
    (hpath : List.Forall₂ (fun p x => p x = true) (folded "joinchat") path)
    (hrest : e.rest = path ++ '/' :: more) : x :: xs = path ∧ d.rest = '/' :: more := by
  rcases List.append_eq_append_iff.mp (heats.rest.symm.trans hrest) with
    ⟨part, rfl, hd⟩ | ⟨part, hname, hmore⟩
  · cases part with
    | nil => exact ⟨(List.append_nil _).symm, hd⟩
    | cons y part =>
      -- the name would end inside the path, where no word ends
      have hafter : d.rest.head?.any w = true := by
        rw [hd, List.cons_append, List.head?_cons, Option.any_some]
        exact hw y (isFoldedName_of_joinchat hpath (List.mem_append_right _ List.mem_cons_self))
      have hlast : d.before.head?.any w = true := by
        rw [heats.before, List.head?_append, List.head?_reverse,
          List.getLast?_eq_some_getLast (List.cons_ne_nil x xs)]
        exact hw _ (hnames _ (List.getLast_mem _))
      rw [atBoundary, hafter, hlast] at hboundary
      cases hboundary
  · cases part with
    | nil => exact ⟨hname.trans (List.append_nil _), hmore.symm⟩
    | cons y part =>
      -- the name would have a slash
      obtain ⟨rfl, -⟩ := List.cons.inj hmore
      have hslash := hnames '/' (hname ▸ List.mem_append_right _ List.mem_cons_self)
      exact absurd hslash (by decide)

/-- A public link is the beginning of an invite link exactly when it is an invite path. -/
theorem isInvite_iff (hw : ∀ x, isFoldedName x = true → w x = true)
    (h : d ∈ tgPublicRe.matchesAt w c) :
    tgInviteRe.matchAt w c = none ↔ ¬IsInvitePath ⟨c, d⟩ := by
  obtain ⟨e, he, x, xs, heats, hgroup, hletter, hnames, hboundary⟩ := mem_tgPublicRe h
  have hname : ∀ y ∈ x :: xs, isFoldedName y = true :=
    List.forall_mem_cons.mpr ⟨by simp [isFoldedName, hletter], hnames⟩
  have hslash : folded "joinchat/" = folded "joinchat" ++ [foldsTo '/'] := rfl
  rw [Pattern.matchAt_eq_none, not_iff_not, exists_mem_tgInviteRe, IsInvitePath, hgroup]
  refine ⟨?_, ?_⟩
  · rintro ⟨e', he', b, hb | hb, hhash⟩
    · obtain rfl := tgLink_unique he' he
      rw [hslash, Cursor.eat_append, Option.bind_eq_some_iff] at hb
      obtain ⟨a, ha, hb⟩ := hb
      obtain ⟨path, hpath, hpathEats, -⟩ := Cursor.eat_eq_some.mp ha
      obtain ⟨eaten, hclass, hbEats, -⟩ := Cursor.eat_eq_some.mp hb
      obtain ⟨y, ys, hy, hys, rfl⟩ := List.forall₂_cons_left_iff.mp hclass
      obtain rfl := List.forall₂_nil_left_iff.mp hys
      obtain rfl : y = '/' := eq_of_foldsTo (by decide) hy
      have hrest := hpathEats.rest.trans (congrArg (path ++ ·) hbEats.rest)
      obtain ⟨hsame, hmore⟩ := eq_path_of_rest hw heats hname hboundary hpath hrest
      exact ⟨hsame ▸ hpath, b.rest, hmore, hhash⟩
    · obtain rfl := tgLink_unique he' he
      obtain ⟨eaten, hclass, hbEats, -⟩ := Cursor.eat_eq_some.mp hb
      obtain ⟨y, ys, hy, -, rfl⟩ := List.forall₂_cons_left_iff.mp hclass
      have hsame := heats.rest.symm.trans hbEats.rest
      obtain ⟨rfl, -⟩ := List.cons.inj hsame
      -- a plus is no letter
      rw [eq_of_foldsTo (by decide : '+'.toNat < 65) hy] at hletter
      cases hletter
  · rintro ⟨hpath, rest, hrest, hhash⟩
    refine ⟨e, he, ⟨'/' :: ((x :: xs).reverse ++ e.before), rest, e.group⟩, Or.inl ?_, hhash⟩
    refine Cursor.eat_eq_some.mpr ⟨(x :: xs) ++ ['/'], ?_, ⟨?_, ?_⟩, rfl⟩
    · exact hslash ▸ List.rel_append hpath (.cons rfl .nil)
    · rw [heats.rest, hrest, List.append_assoc]
      rfl
    · rw [List.reverse_append]
      rfl

/-- An alias begins with a hash sign. -/
theorem group_matrixAliasRe (h : d ∈ matrixAliasRe.matchesAt w c) : ∃ xs, d.group = '#' :: xs := by
  rw [matrixAliasRe, Pattern.mem_seq] at h
  obtain ⟨e, -, hd⟩ := h
  obtain ⟨b, hb, hgroup⟩ := Pattern.mem_group hd
  obtain ⟨a, ha, hb⟩ := Pattern.mem_seq.mp hb
  obtain ⟨eaten, hclass, haEats, -⟩ := Cursor.eat_eq_some.mp (Pattern.mem_text.mp ha)
  obtain ⟨y, ys, hy, hys, rfl⟩ := List.forall₂_cons_left_iff.mp hclass
  obtain rfl := List.forall₂_nil_left_iff.mp hys
  obtain rfl : y = '#' := of_decide_eq_true hy
  obtain ⟨more, hmore⟩ := Pattern.eats_of_mem hb
  rw [hgroup _ (haEats.trans hmore)]
  exact ⟨more, rfl⟩

end Links

/-! ## References -/

section References

variable {isAlnum : CharClass} {isStatement : String → Bool} {text : String} {ref ref' : Reference}
  {m : Match} {ctx : MessageContext}

theorem mem_detect : ref ∈ detect isAlnum isStatement text ↔
    (∃ m ∈ inviteLinks isAlnum text, inviteReference m = ref) ∨
    (∃ m ∈ publicLinks isAlnum text, usernameReference m = ref) ∨
    (∃ m ∈ handles isAlnum isStatement text, usernameReference m = ref) ∨
    ∃ m ∈ aliases isAlnum text, aliasReference m = ref := by
  rw [detect, List.mem_dedup]
  simp only [List.mem_append, List.mem_map, or_assoc]

/-- The first character of a reference. -/
def Reference.head (ref : Reference) : Option Char := ref.platformGroupid.toList.head?

theorem head_inviteReference (m : Match) : (inviteReference m).head = some 'j' := by
  rw [Reference.head, inviteReference, String.toList_append]
  rfl

theorem head_usernameReference (m : Match) : (usernameReference m).head = some '@' := by
  rw [Reference.head, usernameReference, String.toList_append]
  rfl

theorem head_aliasReference (h : m ∈ aliases isAlnum text) :
    (aliasReference m).head = some '#' := by
  obtain ⟨xs, hxs⟩ := group_matrixAliasRe (Pattern.mem_of_mem_finditer h)
  rw [Reference.head, aliasReference, lowered, hxs, String.toList_ofList]
  rfl

/-- The kind of a reference can be told from its first character. -/
theorem kind_of_mem (h : ref ∈ detect isAlnum isStatement text) :
    ref.kind = .inviteLink ∧ ref.head = some 'j' ∨
      ref.kind = .usernameMention ∧ (ref.head = some '@' ∨ ref.head = some '#') := by
  rcases mem_detect.mp h with ⟨m, -, rfl⟩ | ⟨m, -, rfl⟩ | ⟨m, -, rfl⟩ | ⟨m, hm, rfl⟩
  · exact Or.inl ⟨rfl, head_inviteReference m⟩
  · exact Or.inr ⟨rfl, Or.inl (head_usernameReference m)⟩
  · exact Or.inr ⟨rfl, Or.inl (head_usernameReference m)⟩
  · exact Or.inr ⟨rfl, Or.inr (head_aliasReference hm)⟩

/-- A channel is yielded once, with one kind. -/
theorem nodup_detect (isAlnum : CharClass) (isStatement : String → Bool) (text : String) :
    ((detect isAlnum isStatement text).map Reference.platformGroupid).Nodup := by
  refine List.Nodup.map_on (fun ref href ref' href' hid => ?_) (List.nodup_dedup _)
  have hhead : ref.head = ref'.head := congrArg (fun s : String => s.toList.head?) hid
  have hkind : ref.kind = ref'.kind := by
    rcases kind_of_mem href with ⟨hk, hh⟩ | ⟨hk, hh⟩ <;>
      rcases kind_of_mem href' with ⟨hk', hh'⟩ | ⟨hk', hh'⟩
    · exact hk.trans hk'.symm
    · rw [← hhead, hh] at hh'
      simp at hh'
    · rw [hhead, hh'] at hh
      simp at hh
    · exact hk.trans hk'.symm
  cases ref
  cases ref'
  simp_all

/-- No reference is named like the key of a group. -/
theorem ne_uuidText (h : ref ∈ detect isAlnum isStatement text) (groupId : Uuid) :
    ref.platformGroupid ≠ uuidText groupId := by
  intro hid
  have hdigit (x : Char) (hx : ref.head = some x) : x = '-' ∨ (hexValue x).isSome = true := by
    refine mem_uuidText (u := groupId) ?_
    rw [← hid]
    exact List.mem_of_head? hx
  rcases kind_of_mem h with ⟨-, hh⟩ | ⟨-, hh | hh⟩ <;> exact absurd (hdigit _ hh) (by decide)

/-- So every reference is recorded. -/
theorem process_eq (ctx : MessageContext) : process isAlnum isStatement ctx =
    (detect isAlnum isStatement ctx.text).map (mention ctx) := by
  rw [process, List.filter_eq_self.mpr]
  exact fun ref href => decide_eq_true (ne_uuidText href _)

theorem isWord_of_name {x : Char} (h : isFoldedName x = true) : isWord isAlnum x = true := by
  rw [isWord, h, Bool.true_or]

/-- A public link refers to its name unless it is an invite path. -/
theorem refersTo_publicLink (h : m ∈ publicLinks isAlnum text) (hpath : ¬IsInvitePath m) :
    RefersTo isAlnum isStatement text (usernameReference m) :=
  .publicLink h ((isInvite_iff (fun _ => isWord_of_name) (Pattern.mem_of_mem_finditer h)).mpr hpath)

/-- What a message refers to with a name behind an at sign is a public link that is no invite path,
or a handle. -/
theorem refersTo_username_iff : RefersTo isAlnum isStatement text (usernameReference m) ↔
    (∃ link ∈ publicLinks isAlnum text, ¬IsInvitePath link ∧
      usernameReference link = usernameReference m) ∨
    ∃ handle ∈ handles isAlnum isStatement text,
      usernameReference handle = usernameReference m := by
  refine ⟨?_, ?_⟩
  · intro h
    have hhead := head_usernameReference m
    generalize usernameReference m = ref at h hhead ⊢
    cases h with
    | @inviteLink link hlink =>
      rw [head_inviteReference] at hhead
      simp at hhead
    | @publicLink link hlink hinvite =>
      have hpath := (isInvite_iff (fun _ => isWord_of_name)
        (Pattern.mem_of_mem_finditer hlink)).mp hinvite
      exact Or.inl ⟨link, hlink, hpath, rfl⟩
    | @handle handle hhandle => exact Or.inr ⟨handle, hhandle, rfl⟩
    | @roomAlias found hfound =>
      rw [head_aliasReference hfound] at hhead
      simp at hhead
  · rintro (⟨link, hlink, hpath, hsame⟩ | ⟨handle, hhandle, hsame⟩)
    · exact hsame ▸ refersTo_publicLink hlink hpath
    · exact hsame ▸ .handle hhandle

theorem usernameReference_inj {m m' : Match} :
    usernameReference m = usernameReference m' ↔
      lowered m.stop.group = lowered m'.stop.group := by
  simp [usernameReference]

/-- The references of a text are what it refers to exactly when every invite path has the name of
another link or of a handle. -/
theorem detect_refersTo_iff : (∀ ref, ref ∈ detect isAlnum isStatement text ↔
    RefersTo isAlnum isStatement text ref) ↔ PathsNamed isAlnum isStatement text := by
  simp only [PathsNamed, ← usernameReference_inj, ← refersTo_username_iff]
  refine ⟨?_, ?_⟩
  · exact fun h m hm _ => (h _).mp (mem_detect.mpr (Or.inr (Or.inl ⟨m, hm, rfl⟩)))
  · refine fun h ref => ⟨fun href => ?_, fun href => ?_⟩
    · rcases mem_detect.mp href with ⟨m, hm, rfl⟩ | ⟨m, hm, rfl⟩ | ⟨m, hm, rfl⟩ | ⟨m, hm, rfl⟩
      · exact .inviteLink hm
      · by_cases hpath : IsInvitePath m
        · exact h m hm hpath
        · exact refersTo_publicLink hm hpath
      · exact .handle hm
      · exact .roomAlias hm
    · rw [mem_detect]
      cases href with
      | inviteLink hm => exact Or.inl ⟨_, hm, rfl⟩
      | publicLink hm _ => exact Or.inr (Or.inl ⟨_, hm, rfl⟩)
      | handle hm => exact Or.inr (Or.inr (Or.inl ⟨_, hm, rfl⟩))
      | roomAlias hm => exact Or.inr (Or.inr (Or.inr ⟨_, hm, rfl⟩))

/-- No mention is of the group exactly when nothing in the text denotes it. -/
theorem process_denotes_iff (denotes : String → Uuid → Prop) :
    (∀ m ∈ process isAlnum isStatement ctx, ¬denotes m.platformGroupid ctx.observedInGroupId) ↔
      NoneDenotes isAlnum isStatement denotes ctx.text ctx.observedInGroupId := by
  rw [process_eq, List.forall_mem_map]
  refine ⟨?_, ?_⟩
  · intro h
    refine ⟨fun m hm => ?_, fun m hm => ?_, fun m hm => ?_⟩
    · exact h _ (mem_detect.mpr (Or.inl ⟨m, hm, rfl⟩))
    · rcases List.mem_append.mp hm with hm | hm
      · exact h _ (mem_detect.mpr (Or.inr (Or.inl ⟨m, hm, rfl⟩)))
      · exact h _ (mem_detect.mpr (Or.inr (Or.inr (Or.inl ⟨m, hm, rfl⟩))))
    · exact h _ (mem_detect.mpr (Or.inr (Or.inr (Or.inr ⟨m, hm, rfl⟩))))
  · intro h ref href
    rcases mem_detect.mp href with ⟨m, hm, rfl⟩ | ⟨m, hm, rfl⟩ | ⟨m, hm, rfl⟩ | ⟨m, hm, rfl⟩
    · exact h.invite m hm
    · exact h.username m (List.mem_append_left _ hm)
    · exact h.username m (List.mem_append_right _ hm)
    · exact h.roomAlias m hm

/-- A message is treated as it should be exactly when every invite path in it has the name of
another link or of a handle, and nothing in it denotes the group it was seen in. -/
theorem proper_iff (isAlnum : CharClass) (isStatement : String → Bool)
    (denotes : String → Uuid → Prop) (ctx : MessageContext) :
    Proper isAlnum isStatement denotes ctx ↔ PathsNamed isAlnum isStatement ctx.text ∧
      NoneDenotes isAlnum isStatement denotes ctx.text ctx.observedInGroupId := by
  rw [← detect_refersTo_iff, ← process_denotes_iff]
  exact ⟨fun h => ⟨h.refs, h.others⟩, fun h => ⟨h.1, nodup_detect _ _ _, h.2⟩⟩

/-- A message with a text. -/
def sampleMessage (text : String) : MessageContext where
  text
  sourceId := 1
  observedByCollectorId := 2
  observedInGroupId := 3
  seedRootId := none
  depthFromRoot := 0
  mentioningActorId := 4
  evidenceRef := "ev"
  sentAtSource := AuditChain.sampleAt
  collectedAt := AuditChain.sampleAt

/-- An invite link. -/
def sampleInvite : String := "https://t.me/joinchat/AbCdEfGhIjKl"

/-- The name `@joinchat` is nothing that the invite link refers to. -/
theorem not_refersTo_joinchat : ¬RefersTo Char.isAlphanum (fun _ => false) sampleInvite
    ⟨"@joinchat", .usernameMention⟩ := by
  have hlinks : ∀ m ∈ publicLinks Char.isAlphanum sampleInvite,
      (tgInviteRe.matchAt (isWord Char.isAlphanum) m.start).isSome = true := by
    decide +kernel
  have hhandles : handles Char.isAlphanum (fun _ => false) sampleInvite = [] := by decide +kernel
  have haliases : aliases Char.isAlphanum sampleInvite = [] := by decide +kernel
  intro h
  generalize hid : (⟨"@joinchat", .usernameMention⟩ : Reference) = ref at h
  cases h with
  | inviteLink hm => cases congrArg Reference.kind hid
  | publicLink hm hinvite =>
    have hsome := hlinks _ hm
    rw [hinvite] at hsome
    cases hsome
  | handle hm => exact absurd hm (hhandles ▸ List.not_mem_nil)
  | roomAlias hm => exact absurd hm (haliases ▸ List.not_mem_nil)

/-- An invite link also yields the name `@joinchat`, and a message in the group `@openchat` mentions
that group. -/
theorem joinchat_and_openchat :
    (detect Char.isAlphanum (fun _ => false) sampleInvite =
        [⟨"joinchat:AbCdEfGhIjKl", .inviteLink⟩, ⟨"@joinchat", .usernameMention⟩] ∧
      ∀ denotes, ¬Proper Char.isAlphanum (fun _ => false) denotes (sampleMessage sampleInvite)) ∧
    (process Char.isAlphanum (fun _ => false) (sampleMessage "see @openchat")).map
        RecordedMention.platformGroupid = ["@openchat"] ∧
      ¬Proper Char.isAlphanum (fun _ => false)
        (fun name groupId => name = "@openchat" ∧ groupId = 3) (sampleMessage "see @openchat") := by
  have hdetect : detect Char.isAlphanum (fun _ => false) sampleInvite =
      [⟨"joinchat:AbCdEfGhIjKl", .inviteLink⟩, ⟨"@joinchat", .usernameMention⟩] := by
    decide +kernel
  have hprocess : (process Char.isAlphanum (fun _ => false) (sampleMessage "see @openchat")).map
      RecordedMention.platformGroupid = ["@openchat"] := by
    decide +kernel
  refine ⟨⟨hdetect, fun denotes h => ?_⟩, hprocess, fun h => ?_⟩
  · refine not_refersTo_joinchat ((h.refs _).mp ?_)
    rw [sampleMessage, hdetect]
    exact List.mem_cons_of_mem _ List.mem_cons_self
  · obtain ⟨m, hm, hid⟩ := List.mem_map.mp (hprocess ▸ List.mem_singleton_self "@openchat")
    exact h.others m hm ⟨hid, rfl⟩

end References

end ChannelReference

end Eyenet
