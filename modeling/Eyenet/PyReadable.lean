import Eyenet.PyDumps

/-!
# What the interpreter decodes can be encoded

A file has no surrogates of its own, and a pair of escapes is read as one character. So whatever
`json.loads` makes of a file is something that `json.dumps` can write and `json.loads` reads back.

* `PyJson.joined_of_scanString` — no string literal of a file takes a pair apart.
* `PyJson.readable_of_loads` — what is read of a file can be written.
-/

namespace Eyenet

namespace PyJson

variable {floats : Floats} {v : PyValue}

/-! ## Strings -/

/-- A text as it comes of a file. -/
def NoSurrogate (cs : PyStr) : Prop := ∀ k, .surrogate k ∉ cs

theorem NoSurrogate.of_isSuffix {cs ds : PyStr} (h : NoSurrogate cs) (hds : ds <:+ cs) :
    NoSurrogate ds :=
  fun k hk => h k (hds.subset hk)

theorem noSurrogate_py (s : String) : NoSurrogate (py s) := by
  intro k hk
  obtain ⟨c, -, hc⟩ := List.mem_map.mp hk
  cases hc

theorem ofUnit_eq_surrogate {n : ℕ} {k : Fin 2048} (h : PyChar.ofUnit n = .surrogate k) :
    n = (PyChar.surrogate k).code := by
  rw [PyChar.ofUnit] at h
  split_ifs at h with hn
  have hk := congrArg Fin.val (PyChar.surrogate.inj h)
  dsimp only at hk
  rw [PyChar.code]
  omega

/-- A surrogate comes of one code unit, and a high one is not followed by a low one. -/
theorem unicodeEscape_surrogate {cs rest : PyStr} {k : Fin 2048}
    (h : unicodeEscape cs = some (.surrogate k, rest)) :
    hex4 cs = some ((PyChar.surrogate k).code, rest) ∧
      ((PyChar.surrogate k).IsHigh → NotLow rest) := by
  rw [unicodeEscape] at h
  split at h
  · cases h
  · next n rest₁ hn =>
    have hunit (hof : some (PyChar.ofUnit n, rest₁) = some (.surrogate k, rest)) :
        n = (PyChar.surrogate k).code ∧ rest₁ = rest := by
      obtain ⟨hof, hrest⟩ := Prod.mk.inj (Option.some.inj hof)
      exact ⟨ofUnit_eq_surrogate hof, hrest⟩
    split_ifs at h with hhigh
    · split at h
      · next cs' =>
        split at h
        · cases h
        · next m rest₂ hm =>
          split_ifs at h with hlow
          · cases (Prod.mk.inj (Option.some.inj h)).1
          · obtain ⟨rfl, rfl⟩ := hunit h
            refine ⟨hn, fun _ cs'' heq => ?_⟩
            obtain rfl := (List.cons.inj (List.cons.inj heq).2).2
            exact ⟨m, rest₂, hm, hlow⟩
      · next hother =>
        obtain ⟨rfl, rfl⟩ := hunit h
        exact ⟨hn, fun _ cs' heq => absurd heq (hother cs')⟩
    · obtain ⟨rfl, rfl⟩ := hunit h
      exact ⟨hn, fun h => absurd h hhigh⟩

theorem nextChar_surrogate {cs rest : PyStr} {k : Fin 2048} (hcs : NoSurrogate cs)
    (h : nextChar cs = some (some (.surrogate k), rest)) :
    ∃ cs', cs = .scalar '\\' :: .scalar 'u' :: cs' ∧
      unicodeEscape cs' = some (.surrogate k, rest) := by
  cases cs with
  | nil => cases h
  | cons c cs =>
    rw [nextChar] at h
    split_ifs at h with hquote hslash
    · cases (Prod.mk.inj (Option.some.inj h)).1
    · obtain ⟨⟨d, rest'⟩, hd, hrest⟩ := Option.map_eq_some_iff.mp h
      obtain ⟨hdk, rfl⟩ := Prod.mk.inj hrest
      obtain rfl := Option.some.inj hdk
      cases cs with
      | nil => cases hd
      | cons e cs =>
        rw [escape] at hd
        split_ifs at hd with he
        · exact ⟨cs, by rw [hslash, he], hd⟩
        · obtain ⟨f, hf, heq⟩ := Option.map_eq_some_iff.mp hd
          obtain ⟨rfl, -⟩ := Prod.mk.inj heq
          have hscalar : ∀ p ∈ backslash, p.2.toChar ≠ none := by decide
          obtain ⟨l₁, l₂, hl, -⟩ := List.lookup_eq_some_iff.mp hf
          exact absurd rfl (hscalar _ (hl ▸ List.mem_append_right l₁ List.mem_cons_self))
    · obtain ⟨hck, -⟩ := Prod.mk.inj (Option.some.inj h)
      exact absurd (Option.some.inj hck ▸ List.mem_cons_self) (hcs k)

theorem scanString_cons_eq_some {cs rest s : PyStr} {c : PyChar}
    (h : scanString cs = some (c :: s, rest)) :
    ∃ rest', nextChar cs = some (some c, rest') ∧ scanString rest' = some (s, rest) := by
  rw [scanString] at h
  split at h
  · cases h
  · cases (Prod.mk.inj (Option.some.inj h)).1
  · next d rest' hd =>
    obtain ⟨⟨s', rest''⟩, hs, hrest⟩ := Option.map_eq_some_iff.mp h
    obtain ⟨hcons, rfl⟩ := Prod.mk.inj hrest
    obtain ⟨rfl, rfl⟩ := List.cons.inj hcons
    exact ⟨rest', hd, hs⟩

theorem nextChar_isSuffix {cs rest : PyStr} {o : Option PyChar}
    (h : nextChar cs = some (o, rest)) : rest <:+ cs := by
  rcases nextChar_eq_some h with ⟨-, rfl⟩ | ⟨-, used, rfl, -⟩
  · exact List.suffix_cons _ _
  · exact List.suffix_append _ _

/-- A string literal of a file takes no pair of surrogates apart. -/
theorem joined_of_scanString {cs rest s : PyStr} (hcs : NoSurrogate cs)
    (h : scanString cs = some (s, rest)) : Joined s := by
  induction s generalizing cs with
  | nil => exact List.isChain_nil
  | cons c s ih =>
    obtain ⟨rest₁, hc, hs⟩ := scanString_cons_eq_some h
    have hrest₁ := hcs.of_isSuffix (nextChar_isSuffix hc)
    have hjoined := ih hrest₁ hs
    cases s with
    | nil => exact List.isChain_singleton c
    | cons d s =>
      refine List.isChain_cons_cons.mpr ⟨?_, hjoined⟩
      rintro ⟨hhigh, hlow⟩
      obtain ⟨rest₂, hd, -⟩ := scanString_cons_eq_some hs
      cases c with
      | scalar c => exact PyChar.not_isHigh_scalar c hhigh
      | surrogate k =>
        cases d with
        | scalar d => exact PyChar.not_isLow_scalar d hlow
        | surrogate l =>
          obtain ⟨cs₁, -, hc⟩ := nextChar_surrogate hcs hc
          obtain ⟨cs₂, hcs₂, hd⟩ := nextChar_surrogate hrest₁ hd
          obtain ⟨n, rest₃, hn, hnot⟩ := (unicodeEscape_surrogate hc).2 hhigh cs₂ hcs₂
          rw [(unicodeEscape_surrogate hd).1] at hn
          obtain ⟨rfl, -⟩ := Prod.mk.inj (Option.some.inj hn)
          exact hnot hlow

theorem joined_of_scanKey {cs rest k : PyStr} (hcs : NoSurrogate cs)
    (h : scanKey cs = some (k, rest)) : Joined k := by
  cases cs with
  | nil => cases h
  | cons c cs =>
    rw [scanKey] at h
    split_ifs at h
    split at h
    · cases h
    · next key rest₁ hkey =>
      split at h
      · obtain ⟨rfl, -⟩ := Prod.mk.inj (Option.some.inj h)
        exact joined_of_scanString (hcs.of_isSuffix (List.suffix_cons _ _)) hkey
      · cases h

/-! ## Values -/

theorem readable_round_float (floats : Floats) (literal : PyStr) :
    Readable floats (floats.round (.float literal)) := by
  rw [Floats.round]
  exact .float (floats.canon_repr literal)

theorem readable_of_scanScalar {limits : Limits} {cs rest : PyStr} {v : PyValue}
    (h : scanScalar limits cs = .ok (v, rest)) : Readable floats (floats.round v) := by
  rw [scanScalar] at h
  split at h
  · next literal v' hfind =>
    obtain ⟨rfl, -⟩ := Prod.mk.inj (Except.ok.inj h)
    have hmem := List.mem_of_find?_eq_some hfind
    simp only [constants, List.mem_cons, List.not_mem_nil, or_false, Prod.mk.injEq] at hmem
    rcases hmem with ⟨-, rfl⟩ | ⟨-, rfl⟩ | ⟨-, rfl⟩ | ⟨-, rfl⟩ | ⟨-, rfl⟩ | ⟨-, rfl⟩
    · rw [Floats.round]; exact .none
    · rw [Floats.round]; exact .bool _
    · rw [Floats.round]; exact .bool _
    · exact readable_round_float floats _
    · exact readable_round_float floats _
    · exact readable_round_float floats _
  · rw [scanNumber] at h
    generalize (if cs.head? = some (.scalar '-') then [PyChar.scalar '-'] else []) = minus at h
    split_ifs at h
    · cases h
    · obtain ⟨rfl, -⟩ := Prod.mk.inj (Except.ok.inj h)
      rw [Floats.round]
      exact .int _
    · obtain ⟨rfl, -⟩ := Prod.mk.inj (Except.ok.inj h)
      rw [Floats.round]
      exact .int _
    · obtain ⟨rfl, -⟩ := Prod.mk.inj (Except.ok.inj h)
      exact readable_round_float floats _

/-- What is read in some steps can be written. -/
structure StepsReadable (floats : Floats) (limits : Limits) (steps : ℕ) : Prop where
  once : ∀ {depth cs v rest}, NoSurrogate cs → scanOnce limits steps depth cs = .ok (v, rest) →
    Readable floats (floats.round v)
  items : ∀ {depth cs items rest}, NoSurrogate cs →
    scanItems limits steps depth cs = .ok (items, rest) →
    ∀ p ∈ items, Joined p.1 ∧ Readable floats (floats.round p.2)
  elements : ∀ {depth cs items rest}, NoSurrogate cs →
    scanElements limits steps depth cs = .ok (items, rest) →
    ∀ x ∈ items, Readable floats (floats.round x)

section StepsReadable

variable {limits : Limits} {steps depth : ℕ} {cs rest : PyStr}

theorem Floats.mem_roundAll {xs : List PyValue} {y : PyValue} :
    y ∈ floats.roundAll xs ↔ ∃ x ∈ xs, floats.round x = y := by
  induction xs with
  | nil => simp [roundAll]
  | cons x xs ih => simp [roundAll, ih, eq_comm]

theorem Floats.mem_roundIn {items : List (PyStr × PyValue)} {q : PyStr × PyValue} :
    q ∈ floats.roundIn items ↔ ∃ p ∈ items, (p.1, floats.round p.2) = q := by
  induction items with
  | nil => simp [roundIn]
  | cons p items ih => simp [roundIn, ih, eq_comm]

theorem Floats.keys_roundIn (items : List (PyStr × PyValue)) :
    (floats.roundIn items).map Prod.fst = items.map Prod.fst := by
  induction items with
  | nil => rfl
  | cons p items ih => rw [roundIn, List.map_cons, List.map_cons, ih]

theorem readable_round_list {xs : List PyValue}
    (h : ∀ x ∈ xs, Readable floats (floats.round x)) :
    Readable floats (floats.round (.list xs)) := by
  rw [Floats.round]
  refine .list fun y hy => ?_
  obtain ⟨x, hx, rfl⟩ := Floats.mem_roundAll.mp hy
  exact h x hx

theorem readable_round_dict {items : List (PyStr × PyValue)}
    (h : ∀ p ∈ items, Joined p.1 ∧ Readable floats (floats.round p.2)) :
    Readable floats (floats.round (.dict (Dict.ofPairs items))) := by
  rw [Floats.round]
  refine .dict ?_ (fun q hq => ?_) (fun q hq => ?_)
  · rw [Floats.keys_roundIn]
    exact Dict.nodup_keys_gather _ _ _
  · obtain ⟨p, hp, rfl⟩ := Floats.mem_roundIn.mp hq
    exact (h p (Dict.mem_of_mem_ofPairs hp)).1
  · obtain ⟨p, hp, rfl⟩ := Floats.mem_roundIn.mp hq
    exact (h p (Dict.mem_of_mem_ofPairs hp)).2

theorem NoSurrogate.behind_comma {ds : PyStr} (hcs : NoSurrogate cs)
    (h : skipSpace cs = .scalar ',' :: ds) : NoSurrogate (skipSpace ds) := by
  have hds := hcs.of_isSuffix (skipSpace_isSuffix cs)
  rw [h] at hds
  exact hds.of_isSuffix ((skipSpace_isSuffix ds).trans (List.suffix_cons _ _))

theorem items_readable (ih : StepsReadable floats limits steps)
    {items : List (PyStr × PyValue)} (hcs : NoSurrogate cs)
    (h : scanItems limits (steps + 1) depth cs = .ok (items, rest)) :
    ∀ p ∈ items, Joined p.1 ∧ Readable floats (floats.round p.2) := by
  rw [scanItems] at h
  obtain ⟨⟨key, rest₁⟩, hkey, hvalue⟩ := bind_eq_ok.mp h
  obtain ⟨⟨v, rest₂⟩, hv, hnext⟩ := bind_eq_ok.mp hvalue
  have hkey := orDecodeError_eq_ok.mp hkey
  have hjoined := joined_of_scanKey hcs hkey
  obtain ⟨used, rfl, -, -⟩ := scanKey_eq_some hkey
  have hrest₁ := hcs.of_isSuffix (List.suffix_append used rest₁)
  have hreadable := ih.once hrest₁ hv
  obtain ⟨used', rfl, -, -⟩ := (stepsBalanced limits steps).once hv
  have hrest₂ := hrest₁.of_isSuffix (List.suffix_append used' rest₂)
  split at hnext
  · obtain ⟨rfl, -⟩ := Prod.mk.inj (Except.ok.inj hnext)
    exact List.forall_mem_singleton.mpr ⟨hjoined, hreadable⟩
  · next rest₃ hcomma =>
    obtain ⟨⟨items', rest₄⟩, hitems, hrest⟩ := map_eq_ok.mp hnext
    obtain ⟨rfl, -⟩ := Prod.mk.inj hrest
    exact List.forall_mem_cons.mpr
      ⟨⟨hjoined, hreadable⟩, ih.items (hrest₂.behind_comma hcomma) hitems⟩
  · cases hnext

theorem elements_readable (ih : StepsReadable floats limits steps) {xs : List PyValue}
    (hcs : NoSurrogate cs) (h : scanElements limits (steps + 1) depth cs = .ok (xs, rest)) :
    ∀ x ∈ xs, Readable floats (floats.round x) := by
  rw [scanElements] at h
  obtain ⟨⟨v, rest₁⟩, hv, hnext⟩ := bind_eq_ok.mp h
  have hreadable := ih.once hcs hv
  obtain ⟨used, rfl, -, -⟩ := (stepsBalanced limits steps).once hv
  have hrest₁ := hcs.of_isSuffix (List.suffix_append used rest₁)
  split at hnext
  · obtain ⟨rfl, -⟩ := Prod.mk.inj (Except.ok.inj hnext)
    exact List.forall_mem_singleton.mpr hreadable
  · next rest₂ hcomma =>
    obtain ⟨⟨items', rest₃⟩, hitems, hrest⟩ := map_eq_ok.mp hnext
    obtain ⟨rfl, -⟩ := Prod.mk.inj hrest
    exact List.forall_mem_cons.mpr
      ⟨hreadable, ih.elements (hrest₁.behind_comma hcomma) hitems⟩
  · cases hnext

theorem once_readable (ih : StepsReadable floats limits steps) (hcs : NoSurrogate cs)
    (h : scanOnce limits (steps + 1) depth cs = .ok (v, rest)) :
    Readable floats (floats.round v) := by
  cases cs with
  | nil =>
    rw [scanOnce] at h
    cases h
  | cons c cs =>
    have htail := hcs.of_isSuffix (List.suffix_cons c cs)
    have hblank := htail.of_isSuffix (skipSpace_isSuffix cs)
    rw [scanOnce] at h
    split_ifs at h
    · obtain ⟨⟨s, rest'⟩, hs, hrest⟩ := map_eq_ok.mp h
      obtain ⟨rfl, -⟩ := Prod.mk.inj hrest
      rw [Floats.round]
      exact .str (joined_of_scanString htail (orDecodeError_eq_ok.mp hs))
    · split at h
      · obtain ⟨rfl, -⟩ := Prod.mk.inj (Except.ok.inj h)
        exact readable_round_dict fun p hp => absurd hp List.not_mem_nil
      · obtain ⟨⟨items, rest'⟩, hitems, hrest⟩ := map_eq_ok.mp h
        obtain ⟨rfl, -⟩ := Prod.mk.inj hrest
        exact readable_round_dict (ih.items hblank hitems)
    · split at h
      · obtain ⟨rfl, -⟩ := Prod.mk.inj (Except.ok.inj h)
        exact readable_round_list fun x hx => absurd hx List.not_mem_nil
      · obtain ⟨⟨items, rest'⟩, hitems, hrest⟩ := map_eq_ok.mp h
        obtain ⟨rfl, -⟩ := Prod.mk.inj hrest
        exact readable_round_list (ih.elements hblank hitems)
    · exact readable_of_scanScalar h

theorem stepsReadable (floats : Floats) (limits : Limits) (steps : ℕ) :
    StepsReadable floats limits steps := by
  induction steps with
  | zero => exact ⟨fun _ h => (nomatch h), fun _ h => (nomatch h), fun _ h => (nomatch h)⟩
  | succ steps ih => exact ⟨once_readable ih, items_readable ih, elements_readable ih⟩

end StepsReadable

/-- **What is read of a file can be written.** -/
theorem readable_of_loads {file : String} (h : floats.loads file = .ok v) : Readable floats v := by
  rw [Floats.loads] at h
  cases hread : loads unlimited (py file) with
  | error e =>
    rw [hread] at h
    cases h
  | ok w =>
    rw [hread] at h
    obtain rfl := Except.ok.inj h
    rw [loads] at hread
    split at hread
    · next rest hscan =>
      split_ifs at hread
      obtain rfl := Except.ok.inj hread
      exact (stepsReadable floats unlimited _).once
        ((noSurrogate_py file).of_isSuffix (skipSpace_isSuffix _)) hscan
    · cases hread
    · cases hread

end PyJson

end Eyenet
