import Eyenet.SourceDomain
import Eyenet.WritingProfile

/-!
# The monitor gate of the Telegram collector

`collectors/telegram/real.py` keeps the raw ids of the channels it monitors and drops every message
of another one. A channel's id `e` is met in three spellings, bare, negated and marked as
`-(10 ^ 12 + e)`, and all three are brought to the raw one by cutting a decimal `100` off the front.
`collectors/telegram/_join.py` does the same to match a message with the id of a candidate.

* `MonitorGate.strip100_eq` — what cutting the text does to the number.
* `MonitorGate.spellings_agree_iff` — the channels for which the three spellings mean the same.
-/

namespace Eyenet

namespace MonitorGate

/-! ## `int` -/

/-- The digits of a whole text; an underscore may stand before one. -/
def decimals (decimal : Char → Option ℕ) : List Char → Option (List ℕ)
  | [] => some []
  | '_' :: c :: cs => (decimal c).bind fun d => (decimals decimal cs).map (d :: ·)
  | c :: cs => (decimal c).bind fun d => (decimals decimal cs).map (d :: ·)

/-- `sys.int_info.default_max_str_digits` -/
def maxStrDigits : ℕ := 4300

/-- A number without its sign. -/
def readNumeral (decimal : Char → Option ℕ) : List Char → Option ℕ
  | [] => none
  | c :: cs =>
    (decimal c).bind fun d =>
      (decimals decimal cs).bind fun ds =>
        if maxStrDigits < (d :: ds).length then none
        else some ((d :: ds).foldl (fun n d => 10 * n + d) 0)

/-- A number with its sign. -/
def readInteger (decimal : Char → Option ℕ) : List Char → Option ℤ
  | '-' :: cs => (readNumeral decimal cs).map fun n : ℕ => -(n : ℤ)
  | '+' :: cs => (readNumeral decimal cs).map Int.ofNat
  | cs => (readNumeral decimal cs).map Int.ofNat

/-- `int(text)`, where `decimal` is the value of a decimal digit of any script; `none` is a
`ValueError`. -/
def pyInt (decimal : Char → Option ℕ) (text : String) : Option ℤ :=
  readInteger decimal (pyStrip text.toList)

/-- The digits of ASCII. -/
def asciiDecimal (c : Char) : Option ℕ := if c.isDigit then some (c.toNat - '0'.toNat) else none

/-! ## Ids -/

/-- `_to_raw_entity_id` -/
def toRawEntityId (decimal : Char → Option ℕ) (s : String) : Option ℕ :=
  (pyInt decimal s).map strip100

/-- `_chat_raw_id` -/
def chatRawId (chatId : ℤ) : ℕ := strip100 chatId

/-- `_strip_marked_peer_prefix`, which mirrors `_strip_100`. -/
def stripMarkedPeerPrefix (n : ℤ) : ℕ := strip100 n

/-- `candidate_match_forms`; the characters of a username are ASCII, where `str.lower` is this. -/
def candidateMatchForms (chatId : ℤ) (username : Option String) : List String :=
  let forms := [toString chatId, toString (stripMarkedPeerPrefix chatId)]
  match nonempty username with
  | some name => (forms ++ ["@" ++ name.toLower, name.toLower]).eraseDups
  | none => forms.eraseDups

/-- The raw ids that configured groups resolve to: an id by its digits, another name by
`get_entity`, and a group that neither resolves is passed over. -/
def rawIds (decimal : Char → Option ℕ) (getEntity : String → Option ℤ) (groups : List String) :
    List ℤ :=
  groups.filterMap fun g =>
    match toRawEntityId decimal g with
    | some raw => some raw
    | none => getEntity g

/-- `_monitor_raw_ids` once the collector has started: the static configuration, and the groups the
collector is a member of. -/
def monitorRawIds (decimal : Char → Option ℕ) (getEntity : String → Option ℤ)
    (monitorGroups memberships : List String) : List ℤ :=
  rawIds decimal getEntity monitorGroups ++ rawIds decimal getEntity memberships

/-- The gate of `_ingest_message`. -/
def admits (monitor : List ℤ) (chatId : ℤ) : Bool := (chatRawId chatId : ℤ) ∈ monitor

/-! ## Spellings -/

/-- How the id of a channel is spelled. -/
inductive Spelling
  | bare
  | negated
  | marked

/-- The id of a channel in a spelling. -/
def Spelling.peerId (e : ℕ) : Spelling → ℤ
  | .bare => e
  | .negated => -e
  | .marked => -(10 ^ 12 + e : ℕ)

/-- What Telegram takes for a username. -/
def IsUsername (username : String) : Prop :=
  (∃ c ∈ username.toList.head?, c.isAlpha) ∧ ∀ c ∈ username.toList, c.isAlphanum || c = '_'

/-- A configured group names the channel, by its id or as a name that resolves to it. -/
def Names (decimal : Char → Option ℕ) (getEntity : String → Option ℤ) (g : String) (e : ℕ) : Prop :=
  (∃ sp : Spelling, pyInt decimal g = some (sp.peerId e)) ∨
    pyInt decimal g = none ∧ getEntity g = some (e : ℤ)

/-- The three spellings mean the same, for the ids of the channels, for the gate over every
configuration of them, and for the candidates a message is matched with. -/
structure SpellingsAgree (decimal : Char → Option ℕ) (channels : Set ℕ) : Prop where
  normalise : ∀ e ∈ channels, ∀ sp : Spelling,
    toRawEntityId decimal (toString (sp.peerId e)) = some e ∧
      chatRawId (sp.peerId e) = e ∧ stripMarkedPeerPrefix (sp.peerId e) = e
  gate : ∀ (getEntity : String → Option ℤ) (monitorGroups memberships : List String),
    (∀ g ∈ monitorGroups ++ memberships, ∀ n ∈ pyInt decimal g,
      ∃ e ∈ channels, ∃ sp : Spelling, n = sp.peerId e) →
    ∀ e ∈ channels, ∀ sp : Spelling,
      (admits (monitorRawIds decimal getEntity monitorGroups memberships) (sp.peerId e) = true ↔
        ∃ g ∈ monitorGroups ++ memberships, Names decimal getEntity g e)
  forms : ∀ e ∈ channels, ∀ (sp : Spelling) (username : Option String),
    (∀ name ∈ nonempty username, IsUsername name) →
    ∀ e' ≠ e, toString e' ∉ candidateMatchForms (sp.peerId e) username

/-- The marked spelling keeps the zeros of the mark, and the bare one does not begin with a mark of
its own. -/
def Regular (e : ℕ) : Prop := e < 10 ^ 10 ∧ ∀ k > 0, e / 10 ^ k ≠ 100

/-! ## Cutting the prefix -/

theorem toDigits_append (n k : ℕ) (h : 0 < n / 10 ^ k) :
    ∃ tail, Nat.toDigits 10 n = Nat.toDigits 10 (n / 10 ^ k) ++ tail ∧ tail.length = k := by
  induction k generalizing n with
  | zero => exact ⟨[], by simp, rfl⟩
  | succ k ih =>
    have hdiv : n / 10 ^ (k + 1) = n / 10 / 10 ^ k := by
      rw [Nat.div_div_eq_div_mul, pow_succ']
    rw [hdiv] at h ⊢
    obtain ⟨tail, htail, hlen⟩ := ih (n / 10) h
    have hge : 10 ≤ n := by
      by_contra hlt
      rw [Nat.div_eq_of_lt (not_le.mp hlt), Nat.zero_div] at h
      exact absurd h (Nat.lt_irrefl 0)
    refine ⟨tail ++ [Nat.digitChar (n % 10)], ?_, by simp [hlen]⟩
    rw [Nat.toDigits_of_base_le (by decide) hge, htail, List.append_assoc]

/-- Cutting the text takes the value below the prefix. -/
theorem strip100_eq {n : ℤ} {k : ℕ} (hk : 0 < k) (h : n.natAbs / 10 ^ k = 100) :
    strip100 n = n.natAbs % 10 ^ k := by
  obtain ⟨tail, htail, hlen⟩ := toDigits_append n.natAbs k (by omega)
  have hfront : Nat.toDigits 10 (n.natAbs / 10 ^ k) = ['1', '0', '0'] := by rw [h]; decide
  rw [hfront] at htail
  have hvalue := Nat.ofDigitChars_ten_toDigits (n := n.natAbs)
  rw [htail, Nat.ofDigitChars_append, Nat.ofDigitChars_eq_ofDigitChars_zero, hlen] at hvalue
  have hcut : strip100 n = Nat.ofDigitChars 10 tail 0 := by
    simp only [strip100, htail]
    rw [if_pos ⟨by simp, by simp only [List.length_append, hlen]; simp; omega⟩]
    rfl
  have hhead : Nat.ofDigitChars 10 ['1', '0', '0'] 0 = 100 := by decide
  have hsplit := Nat.div_add_mod n.natAbs (10 ^ k)
  rw [h] at hsplit
  rw [hhead] at hvalue
  omega

/-- A number that does not begin with the prefix stays. -/
theorem strip100_eq_self {n : ℤ} (h : ∀ k > 0, n.natAbs / 10 ^ k ≠ 100) :
    strip100 n = n.natAbs := by
  simp only [strip100]
  rw [if_neg]
  rintro ⟨htake, hlen⟩
  obtain ⟨k, hk⟩ : ∃ k, (Nat.toDigits 10 n.natAbs).length = k + 3 :=
    ⟨_, (Nat.sub_add_cancel hlen.le).symm⟩
  have hlow : ¬n.natAbs < 10 ^ (k + 2) := by
    rw [← Nat.length_toDigits_le_iff (by decide) (by omega)]
    omega
  have hpos : 0 < n.natAbs / 10 ^ k := by
    apply Nat.div_pos _ (Nat.pow_pos (by decide))
    exact (Nat.pow_le_pow_right (by decide) (by omega)).trans (not_lt.mp hlow)
  obtain ⟨tail, htail, hlen'⟩ := toDigits_append n.natAbs k hpos
  apply h k (by omega)
  have hthree : (Nat.toDigits 10 (n.natAbs / 10 ^ k)).length = 3 := by
    have hsum := congrArg List.length htail
    rw [List.length_append] at hsum
    omega
  rw [htail, List.take_left' hthree] at htake
  have hvalue := Nat.ofDigitChars_ten_toDigits (n := n.natAbs / 10 ^ k)
  rw [htake] at hvalue
  rw [← hvalue]
  decide

/-! ## Reading what was written -/

theorem toList_negSucc (m : ℕ) :
    (toString (Int.negSucc m)).toList = '-' :: Nat.toDigits 10 (m + 1) := by
  change ("-" ++ (m + 1).repr).toList = _
  rw [String.toList_append, Nat.toList_repr]
  rfl

section Read

variable {decimal : Char → Option ℕ}
  (hdecimal : ∀ c : Char, c.isDigit = true → decimal c = some (c.toNat - '0'.toNat))

include hdecimal

theorem decimals_of_isDigit {cs : List Char} (h : ∀ c ∈ cs, c.isDigit = true) :
    decimals decimal cs = some (cs.map fun c => c.toNat - '0'.toNat) := by
  induction cs with
  | nil => rfl
  | cons c cs ih =>
    have hc := h c List.mem_cons_self
    have hne : c ≠ '_' := by
      rintro rfl
      exact absurd hc (by decide)
    rw [decimals]
    · rw [hdecimal c hc, ih fun c' hc' => h c' (List.mem_cons_of_mem c hc')]
      rfl
    · rintro - - rfl
      exact absurd rfl hne

theorem readNumeral_toDigits {n : ℕ} (hn : n < 10 ^ maxStrDigits) :
    readNumeral decimal (Nat.toDigits 10 n) = some n := by
  have hdigit : ∀ c ∈ Nat.toDigits 10 n, c.isDigit = true := fun c hc =>
    Nat.isDigit_of_mem_toDigits (by decide) (le_refl 10) hc
  have hlen := (Nat.length_toDigits_le_iff (b := 10) (by decide) (by decide)).mpr hn
  have hvalue := Nat.ofDigitChars_ten_toDigits (n := n)
  cases hdigits : Nat.toDigits 10 n with
  | nil => exact absurd hdigits Nat.toDigits_ne_nil
  | cons c cs =>
    rw [hdigits] at hdigit hlen hvalue
    rw [readNumeral, hdecimal c (hdigit c List.mem_cons_self),
      decimals_of_isDigit hdecimal fun c' hc' => hdigit c' (List.mem_cons_of_mem c hc')]
    rw [Option.bind_some, Option.bind_some, if_neg]
    · rw [← hvalue, ← List.map_cons (f := fun c : Char => c.toNat - '0'.toNat), List.foldl_map]
      rfl
    · simpa using hlen

/-- `int` reads what `str` writes. -/
theorem pyInt_toString {n : ℤ} (hn : n.natAbs < 10 ^ maxStrDigits) :
    pyInt decimal (toString n) = some n := by
  have hplain : ∀ m : ℕ, ∀ c ∈ Nat.toDigits 10 m, isPySpace c = false ∧ c ≠ '-' ∧ c ≠ '+' := by
    intro m c hc
    have hdigit := Nat.isDigit_of_mem_toDigits (by decide) (le_refl 10) hc
    simp only [Char.isDigit, Bool.and_eq_true, decide_eq_true_eq] at hdigit
    refine ⟨?_, ?_, ?_⟩
    · rw [isPySpace, decide_eq_false_iff_not]
      have hlow : 48 ≤ c.toNat := hdigit.1
      have hup : c.toNat ≤ 57 := hdigit.2
      omega
    · rintro rfl
      exact absurd hdigit.1 (by decide)
    · rintro rfl
      exact absurd hdigit.1 (by decide)
  cases n with
  | ofNat m =>
    have htext : (toString (Int.ofNat m)).toList = Nat.toDigits 10 m := Nat.toList_repr
    rw [pyInt, htext, pyStrip_eq_self fun c hc => (hplain m c hc).1]
    rw [readInteger]
    · rw [readNumeral_toDigits (n := m) hdecimal hn]
      rfl
    · intro cs hcs
      have hmem : '-' ∈ Nat.toDigits 10 m := by rw [hcs]; exact List.mem_cons_self
      exact (hplain m _ hmem).2.1 rfl
    · intro cs hcs
      have hmem : '+' ∈ Nat.toDigits 10 m := by rw [hcs]; exact List.mem_cons_self
      exact (hplain m _ hmem).2.2 rfl
  | negSucc m =>
    rw [pyInt, toList_negSucc, pyStrip_eq_self]
    · rw [readInteger, readNumeral_toDigits (n := m + 1) hdecimal hn]
      rfl
    · intro c hc
      rcases List.mem_cons.mp hc with rfl | hc
      · decide
      · exact (hplain (m + 1) c hc).1

end Read

/-! ## The three spellings -/

theorem Regular.strip100_peerId {e : ℕ} (h : Regular e) (sp : Spelling) :
    strip100 (sp.peerId e) = e := by
  cases sp with
  | bare => exact strip100_eq_self h.2
  | negated =>
    have habs : (Spelling.negated.peerId e).natAbs = e := by simp [Spelling.peerId]
    rw [strip100_eq_self (by rw [habs]; exact h.2), habs]
  | marked =>
    have habs : (Spelling.marked.peerId e).natAbs = 10 ^ 12 + e := Int.natAbs_neg _
    have hlow := h.1
    rw [strip100_eq (k := 10) (by decide) (by rw [habs]; omega), habs]
    omega

theorem regular_of_strip100 {e : ℕ} (he : e < 10 ^ 12)
    (h : ∀ sp : Spelling, strip100 (sp.peerId e) = e) : Regular e := by
  constructor
  · by_contra hbig
    have habs : (Spelling.marked.peerId e).natAbs = 10 ^ 12 + e := Int.natAbs_neg _
    have hmarked := h .marked
    -- the sum has carried into the zeros of the mark
    rw [strip100_eq_self, habs] at hmarked
    · omega
    · intro k hk hfront
      rw [habs] at hfront
      have hlow := Nat.div_mul_le_self (10 ^ 12 + e) (10 ^ k)
      have hup := Nat.lt_div_mul_add (a := 10 ^ 12 + e) (Nat.pow_pos (n := k) (by decide : 0 < 10))
      rw [hfront] at hlow hup
      rcases Nat.lt_trichotomy k 10 with hlt | rfl | hgt
      · have hpow := Nat.pow_le_pow_right (by decide : 0 < 10) (Nat.le_of_lt_succ hlt)
        omega
      · omega
      · have hpow := Nat.pow_le_pow_right (by decide : 0 < 10) hgt
        omega
  · intro k hk hfront
    have hbare := h .bare
    rw [strip100_eq (n := Spelling.bare.peerId e) hk hfront] at hbare
    have hmod := Nat.mod_lt e (Nat.pow_pos (n := k) (by decide : 0 < 10))
    have hlow := Nat.div_mul_le_self e (10 ^ k)
    have habs : (Spelling.bare.peerId e).natAbs = e := rfl
    rw [habs] at hbare
    rw [hfront] at hlow
    omega

theorem natAbs_peerId_lt {e : ℕ} (he : e < 10 ^ 12) (sp : Spelling) :
    (sp.peerId e).natAbs < 10 ^ maxStrDigits := by
  have hpow : 10 ^ 13 ≤ 10 ^ maxStrDigits := Nat.pow_le_pow_right (by decide) (by decide)
  have hsmall : (sp.peerId e).natAbs < 10 ^ 13 := by
    cases sp <;> simp only [Spelling.peerId] <;> omega
  exact hsmall.trans_le hpow

/-- A group whose number spells a regular channel resolves to that channel's id. -/
theorem resolves_iff {decimal : Char → Option ℕ} (getEntity : String → Option ℤ) {g : String}
    {e : ℕ} (he : Regular e)
    (hg : ∀ n ∈ pyInt decimal g, ∃ e', Regular e' ∧ ∃ sp : Spelling, n = sp.peerId e') :
    (match toRawEntityId decimal g with
      | some raw => some (raw : ℤ)
      | none => getEntity g) = some (e : ℤ) ↔ Names decimal getEntity g e := by
  rw [toRawEntityId, Names]
  cases hint : pyInt decimal g with
  | none => simp
  | some n =>
    obtain ⟨e', he', sp', rfl⟩ := hg n hint
    simp only [Option.map_some, he'.strip100_peerId, Option.some.injEq, Nat.cast_inj, reduceCtorEq,
      false_and, or_false]
    constructor
    · rintro rfl
      exact ⟨sp', rfl⟩
    · rintro ⟨sp, hsp⟩
      rw [← he'.strip100_peerId sp', hsp, he.strip100_peerId]

theorem toString_ne_of_head {n : ℕ} {s : String} {c : Char} (hc : s.toList.head? = some c)
    (hdigit : c.isDigit = false) : toString n ≠ s := by
  rintro rfl
  have hmem : c ∈ Nat.toDigits 10 n := by
    rw [Nat.toString_eq_repr, Nat.toList_repr] at hc
    exact List.mem_of_head? hc
  rw [Nat.isDigit_of_mem_toDigits (by decide) (le_refl 10) hmem] at hdigit
  cases hdigit

theorem natString_inj {n n' : ℕ} (h : toString n = toString n') : n = n' := by
  have hdigits : Nat.toDigits 10 n = Nat.toDigits 10 n' := by
    rw [← Nat.toList_repr, ← Nat.toList_repr]
    exact congrArg String.toList h
  rw [← Nat.ofDigitChars_ten_toDigits (n := n), hdigits, Nat.ofDigitChars_ten_toDigits]

/-- No spelling of a channel reads as the id of another. -/
theorem toString_ne_peerId {e e' : ℕ} (hpos : 0 < e) (hne : e' ≠ e) (sp : Spelling) :
    toString e' ≠ toString (sp.peerId e) := by
  have hminus : ∀ m : ℕ, 0 < m → toString e' ≠ toString (-(m : ℤ)) := by
    intro m hm
    obtain ⟨m, rfl⟩ := Nat.exists_eq_succ_of_ne_zero hm.ne'
    apply toString_ne_of_head (c := '-')
    · change (toString (Int.negSucc m)).toList.head? = some '-'
      rw [toList_negSucc]
      rfl
    · decide
  cases sp with
  | bare => exact fun h => hne (natString_inj h)
  | negated => exact hminus e hpos
  | marked => exact hminus (10 ^ 12 + e) (by omega)

theorem isDigit_toLower {c : Char} (h : c.isAlpha = true) : c.toLower.isDigit = false := by
  have hletters : ∀ n < 123, (Char.ofNat n).isAlpha = true →
      (Char.ofNat n).toLower.isDigit = false := by
    decide
  have hlt : c.toNat < 123 := by
    simp only [Char.isAlpha, Char.isUpper, Char.isLower, Bool.or_eq_true, Bool.and_eq_true,
      decide_eq_true_eq] at h
    rcases h with ⟨-, hup⟩ | ⟨-, hup⟩
    · exact lt_of_le_of_lt (b := 90) hup (by decide)
    · exact lt_of_le_of_lt (b := 122) hup (by decide)
  have hc := hletters c.toNat hlt
  rw [Char.ofNat_toNat] at hc
  exact hc h

/-- The forms of a username begin with `@` or a letter. -/
theorem toString_ne_username {name : String} (h : IsUsername name) (e : ℕ) :
    toString e ≠ "@" ++ name.toLower ∧ toString e ≠ name.toLower := by
  obtain ⟨⟨c, hc, halpha⟩, -⟩ := h
  constructor
  · apply toString_ne_of_head (c := '@')
    · rw [String.toList_append]
      rfl
    · decide
  · apply toString_ne_of_head (c := c.toLower)
    · rw [String.toLower, String.toList_map, List.head?_map, Option.mem_def.mp hc]
      rfl
    · exact isDigit_toLower halpha

/-- A message of a regular channel is matched with no other channel's id. -/
theorem Regular.forms {e : ℕ} (h : Regular e) (hpos : 0 < e) (sp : Spelling)
    {username : Option String} (hname : ∀ name ∈ nonempty username, IsUsername name) {e' : ℕ}
    (hne : e' ≠ e) : toString e' ∉ candidateMatchForms (sp.peerId e) username := by
  have hids : toString e' ∉
      [toString (sp.peerId e), toString (stripMarkedPeerPrefix (sp.peerId e))] := by
    rw [stripMarkedPeerPrefix, h.strip100_peerId, List.mem_cons, List.mem_singleton, not_or]
    exact ⟨toString_ne_peerId hpos hne sp, fun heq => hne (natString_inj heq)⟩
  rw [candidateMatchForms]
  cases husername : nonempty username with
  | none =>
    rw [List.mem_eraseDups]
    exact hids
  | some name =>
    have hnames := toString_ne_username (hname name husername) e'
    rw [List.mem_eraseDups, List.mem_append, not_or]
    refine ⟨hids, ?_⟩
    rw [List.mem_cons, List.mem_singleton, not_or]
    exact hnames

/-- The three spellings of every channel agree exactly when all the channels are regular. -/
theorem spellings_agree_iff (decimal : Char → Option ℕ)
    (hdecimal : ∀ c : Char, c.isDigit = true → decimal c = some (c.toNat - '0'.toNat))
    (channels : Set ℕ) (hchannels : ∀ e ∈ channels, 0 < e ∧ e < 10 ^ 12) :
    SpellingsAgree decimal channels ↔ ∀ e ∈ channels, Regular e := by
  constructor
  · intro h e he
    exact regular_of_strip100 (hchannels e he).2 fun sp => (h.normalise e he sp).2.1
  · intro h
    refine ⟨?_, ?_, ?_⟩
    · intro e he sp
      refine ⟨?_, (h e he).strip100_peerId sp, (h e he).strip100_peerId sp⟩
      rw [toRawEntityId, pyInt_toString hdecimal (natAbs_peerId_lt (hchannels e he).2 sp),
        Option.map_some, (h e he).strip100_peerId sp]
    · intro getEntity monitorGroups memberships hgroups e he sp
      have hresolves : ∀ g ∈ monitorGroups ++ memberships, _ := fun g hg =>
        resolves_iff getEntity (h e he) fun n hn =>
          (hgroups g hg n hn).imp fun e' he' => ⟨h e' he'.1, he'.2⟩
      rw [admits, decide_eq_true_eq, chatRawId, (h e he).strip100_peerId, monitorRawIds, rawIds,
        rawIds, ← List.filterMap_append, List.mem_filterMap]
      apply exists_congr
      intro g
      apply and_congr_right
      exact hresolves g
    · intro e he sp username hname e' hne
      exact (h e he).forms (hchannels e he).1 sp hname hne

theorem spellings_agree_iff_ten_digits :
    SpellingsAgree asciiDecimal {3967724335} ↔ ∀ e ∈ ({3967724335} : Set ℕ), Regular e := by
  apply spellings_agree_iff
  · intro c hc
    rw [asciiDecimal, if_pos hc]
  · rintro e rfl
    decide

/-- A channel whose id begins with 100, configured by it: the gate drops what it sends. -/
theorem early_channel_dropped :
    ¬SpellingsAgree asciiDecimal {1001234567} ∧
      toRawEntityId asciiDecimal "1001234567" = some 1234567 ∧
      admits (monitorRawIds asciiDecimal (fun _ => none) ["1001234567"] []) (-1001001234567) =
        false := by
  refine ⟨?_, by decide, by decide⟩
  intro h
  have hbare := (h.normalise 1001234567 rfl .bare).2.1
  exact absurd hbare (by decide)

end MonitorGate

end Eyenet
