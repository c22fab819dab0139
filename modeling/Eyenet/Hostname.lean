import Eyenet.SourceDomain

/-!
# Normal forms of hostnames

`normalize_host` (`util/domain.py`) hands the trimmed host to the `idna` package. What the package
promises is `IdnaEncoder`; `plainEncode` is the encoder on plain hosts.

* `normalizeHost_fixed_iff` — a normalised host is its own normal form exactly when no full stop
  is left at the end of what was encoded.
* `intersect_iff_common` — the overlap check is exact among normalised hosts, unless a
  wildcard's parent is too long to have a subdomain.
-/

namespace Eyenet

/-! ## The encoder -/

/-- The characters of an encoded host. -/
def isHostChar (c : Char) : Bool := c.isLower || c.isDigit || c == '-' || c == '.'

/-- The length of a host without the full stop behind its last label. -/
def bareLength (host : String) : ℕ :=
  if host.toList.getLast? = some '.' then host.length - 1 else host.length

/-- What the `idna` package promises of `idna.encode(s, uts46=True, transitional=False)`, which
maps its argument with `uts46_remap` before it encodes the labels. -/
structure IdnaEncoder (encode : String → Option String) (uts46Remap : String → String) : Prop where
  /-- idempotent on its own output -/
  idempotent : ∀ h e, encode h = some e → encode e = some e
  /-- lower-case letters, digits, hyphens and full stops -/
  output_chars : ∀ h e, encode h = some e → ∀ c ∈ e.toList, isHostChar c
  /-- an empty domain and empty labels are refused -/
  output_labels : ∀ h e, encode h = some e →
    e ≠ "" ∧ e.toList.head? ≠ some '.' ∧ ¬ ['.', '.'] <:+: e.toList
  /-- longer domains are refused -/
  output_length : ∀ h e, encode h = some e → bareLength e ≤ 253
  /-- a full stop at the end stays there -/
  trailing_dot : ∀ h e, encode h = some e →
    (e.toList.getLast? = some '.' ↔ (uts46Remap h).toList.getLast? = some '.')
  /-- the mapping has nothing to do on an encoded host -/
  remap_host : ∀ h, (∀ c ∈ h.toList, isHostChar c) → uts46Remap h = h
  /-- labels are encoded one by one -/
  subdomain : ∀ h, encode h = some h → bareLength h ≤ 251 →
    encode ("x." ++ h) = some ("x." ++ h)

/-- A label of letters, digits and hyphens, without hyphens at its ends or in its third and
fourth place. -/
def plainLabel (label : List Char) : Bool :=
  decide (label.length ≤ 63 ∧ label.head? ≠ some '-' ∧ label.getLast? ≠ some '-' ∧
    (label.drop 2).take 2 ≠ ['-', '-'])

/-- `idna.encode` on hosts whose labels are plain. -/
def plainEncode (h : String) : Option String :=
  if h.toList.all isHostChar ∧
      (h ≠ "" ∧ h.toList.head? ≠ some '.' ∧ ¬ ['.', '.'] <:+: h.toList) ∧
      bareLength h ≤ 253 ∧ (h.toList.splitOn '.').all plainLabel then some h
  else none

section Plain

variable {h e : String}

theorem plainEncode_eq_some : plainEncode h = some e ↔ h = e ∧
    (∀ c ∈ e.toList, isHostChar c) ∧
      (e ≠ "" ∧ e.toList.head? ≠ some '.' ∧ ¬ ['.', '.'] <:+: e.toList) ∧
      bareLength e ≤ 253 ∧ ∀ label ∈ e.toList.splitOn '.', plainLabel label := by
  simp only [plainEncode, List.all_eq_true]
  refine ⟨?_, ?_⟩
  · intro heq
    split at heq
    · next hall =>
      cases heq
      exact ⟨rfl, hall⟩
    · cases heq
  · rintro ⟨rfl, hall⟩
    exact if_pos hall

theorem toList_cons_dot (h : String) : ("x." ++ h).toList = 'x' :: '.' :: h.toList := by
  rw [String.toList_append]
  rfl

theorem dots_infix_cons {c : Char} {cs : List Char} : ['.', '.'] <:+: c :: cs ↔
    c = '.' ∧ cs.head? = some '.' ∨ ['.', '.'] <:+: cs := by
  rw [List.infix_cons_iff, List.cons_prefix_cons]
  refine or_congr_left (and_congr eq_comm ?_)
  cases cs <;> simp [List.cons_prefix_cons, eq_comm]

/-- Two full stops at the end. -/
theorem dots_infix_of_last {cs : List Char} (h : cs.getLast? = some '.')
    (h' : cs.dropLast.getLast? = some '.') : ['.', '.'] <:+: cs := by
  obtain ⟨ds, rfl⟩ := List.getLast?_eq_some_iff.mp h
  rw [List.dropLast_concat] at h'
  obtain ⟨es, rfl⟩ := List.getLast?_eq_some_iff.mp h'
  exact ⟨es, [], by simp⟩

/-- Labels in front of a host add to its length. -/
theorem bareLength_subdomain {host : String} (labels : List Char) (hne : h ≠ "")
    (hhost : labels ++ '.' :: h.toList = host.toList) :
    bareLength host = labels.length + 1 + bareLength h := by
  have hnil : h.toList ≠ [] := fun hnil => hne (String.toList_eq_nil_iff.mp hnil)
  have hpos := List.length_pos_of_ne_nil hnil
  have hlen : host.length = labels.length + 1 + h.length := by
    rw [← String.length_toList, ← hhost, List.length_append, List.length_cons,
      String.length_toList]
    omega
  have hlast : host.toList.getLast? = h.toList.getLast? := by
    rw [← hhost, List.getLast?_append_cons, List.getLast?_cons]
    cases hc : h.toList.getLast? with
    | none => exact absurd (List.getLast?_eq_none_iff.mp hc) hnil
    | some c => rfl
  rw [String.length_toList] at hpos
  rw [bareLength, bareLength, hlast, hlen]
  split <;> omega

theorem plainEncoder : IdnaEncoder plainEncode id where
  idempotent h e heq := by
    obtain ⟨rfl, -⟩ := plainEncode_eq_some.mp heq
    exact heq
  output_chars h e heq := (plainEncode_eq_some.mp heq).2.1
  output_labels h e heq := (plainEncode_eq_some.mp heq).2.2.1
  output_length h e heq := (plainEncode_eq_some.mp heq).2.2.2.1
  trailing_dot h e heq := by
    obtain ⟨rfl, -⟩ := plainEncode_eq_some.mp heq
    exact Iff.rfl
  remap_host h _ := rfl
  subdomain h heq hlen := by
    obtain ⟨-, hchars, ⟨hne, hhead, hdots⟩, -, hlabels⟩ := plainEncode_eq_some.mp heq
    refine plainEncode_eq_some.mpr ⟨rfl, ?_, ⟨?_, ?_, ?_⟩, ?_, ?_⟩
    · simpa [toList_cons_dot] using ⟨by decide, by decide, hchars⟩
    · exact fun hnil => by simpa using congrArg String.toList hnil
    · simp
    · rw [toList_cons_dot, dots_infix_cons, dots_infix_cons]
      simpa [hdots] using hhead
    · rw [bareLength_subdomain ['x'] hne (toList_cons_dot h).symm]
      simp only [List.length_singleton]
      omega
    · have hsplit : ('x' :: '.' :: h.toList).splitOn '.' = ['x'] :: h.toList.splitOn '.' := by
        simp [List.splitOn, List.splitOnP_cons_eq_if_modifyHead]
      rw [toList_cons_dot, hsplit]
      exact List.forall_mem_cons.mpr ⟨by decide, hlabels⟩

end Plain

/-! ## Normal forms -/

/-- What `normalize_host` hands to the encoder: the value without outer whitespace and without one
full stop at its end. -/
def trimmedHost (value : String) : List Char :=
  let stripped := pyStrip value.toList
  if stripped.getLast? = some '.' then stripped.dropLast else stripped

/-- What `normalize_host` returns for some value. -/
def Normalized (encode : String → Option String) (host : String) : Prop :=
  ∃ value, normalizeHost encode value = some host

open SourceDomainPatternKind

section NormalForms

variable {encode : String → Option String} {uts46Remap : String → String}
variable {value host e p : String}

theorem normalizeHost_eq (encode : String → Option String) (value : String) :
    normalizeHost encode value =
      if trimmedHost value = [] then none
      else if "xn--".toList <:+: (trimmedHost value).map Char.toLower ∧
        ∃ c ∈ trimmedHost value, 127 < c.toNat then none
      else (encode (String.ofList (trimmedHost value))).map String.toLower := rfl

/-- The code points of the characters of an encoded host. -/
theorem toNat_of_isHostChar {c : Char} (h : isHostChar c) : c.toNat = 45 ∨ c.toNat = 46 ∨
    48 ≤ c.toNat ∧ c.toNat ≤ 57 ∨ 97 ≤ c.toNat ∧ c.toNat ≤ 122 := by
  simp only [isHostChar, Bool.or_eq_true, beq_iff_eq, Char.isLower, Char.isDigit,
    Bool.and_eq_true, decide_eq_true_eq, ge_iff_le, UInt32.le_iff_toNat_le] at h
  rcases h with ((h | h) | rfl) | rfl
  · exact .inr (.inr (.inr h))
  · exact .inr (.inr (.inl h))
  · exact .inl rfl
  · exact .inr (.inl rfl)

theorem toLower_of_isHostChar {c : Char} (h : isHostChar c) : c.toLower = c := by
  have hrange := toNat_of_isHostChar h
  rw [Char.toLower, dif_neg]
  rintro ⟨hA, hZ⟩
  have hA : 65 ≤ c.toNat := UInt32.le_iff_toNat_le.mp hA
  have hZ : c.toNat ≤ 90 := UInt32.le_iff_toNat_le.mp hZ
  omega

theorem not_isPySpace_of_isHostChar {c : Char} (h : isHostChar c) : isPySpace c = false := by
  have hrange := toNat_of_isHostChar h
  rw [isPySpace, decide_eq_false_iff_not]
  omega

theorem toLower_of_host (h : ∀ c ∈ host.toList, isHostChar c) : host.toLower = host := by
  apply String.toList_inj.mp
  rw [String.toLower, String.toList_map]
  exact (List.map_congr_left fun c hc => toLower_of_isHostChar (h c hc)).trans (List.map_id _)

/-- There is nothing to strip from an encoded host. -/
theorem pyStrip_of_host {cs : List Char} (h : ∀ c ∈ cs, isHostChar c) : pyStrip cs = cs :=
  pyStrip_eq_self fun c hc => not_isPySpace_of_isHostChar (h c hc)

/-- What a successful `normalize_host` returns is what the encoder gave. -/
theorem normalizeHost_eq_some (hidna : IdnaEncoder encode uts46Remap)
    (h : normalizeHost encode value = some host) :
    encode (String.ofList (trimmedHost value)) = some host := by
  rw [normalizeHost_eq] at h
  split at h
  · cases h
  · split at h
    · cases h
    · obtain ⟨e, he, rfl⟩ := Option.map_eq_some_iff.mp h
      rw [he, toLower_of_host (hidna.output_chars _ e he)]

/-- On a value of host characters only the full stop at its end is trimmed. -/
theorem trimmedHost_of_host (h : ∀ c ∈ host.toList, isHostChar c) : trimmedHost host =
    if host.toList.getLast? = some '.' then host.toList.dropLast else host.toList := by
  rw [trimmedHost, pyStrip_of_host h]

/-- A value whose trimmed form is a host goes straight to the encoder. -/
theorem normalizeHost_of_host (hidna : IdnaEncoder encode uts46Remap)
    (htrim : trimmedHost value = host.toList) (hchars : ∀ c ∈ host.toList, isHostChar c)
    (hne : host ≠ "") : normalizeHost encode value = encode host := by
  rw [normalizeHost_eq, htrim, if_neg (fun hnil => hne (String.toList_eq_nil_iff.mp hnil)),
    if_neg, String.ofList_toList]
  · cases he : encode host with
    | none => rfl
    | some e => rw [Option.map_some, toLower_of_host (hidna.output_chars _ e he)]
  · rintro ⟨-, c, hc, hlarge⟩
    have hrange := toNat_of_isHostChar (hchars c hc)
    omega

/-- **Idempotence.** A normalised host is its own normal form exactly when the mapping left no full
stop at the end of the trimmed value. -/
theorem normalizeHost_fixed_iff (hidna : IdnaEncoder encode uts46Remap)
    (h : normalizeHost encode value = some host) :
    normalizeHost encode host = some host ↔
      (uts46Remap (String.ofList (trimmedHost value))).toList.getLast? ≠ some '.' := by
  have henc := normalizeHost_eq_some hidna h
  have hchars := hidna.output_chars _ _ henc
  obtain ⟨hne, -, hdots⟩ := hidna.output_labels _ _ henc
  have hlast := hidna.trailing_dot _ _ henc
  refine ⟨?_, ?_⟩
  · intro hfixed hdot
    -- the second pass encodes the host without its last full stop, which adds none
    have henc' := normalizeHost_eq_some hidna hfixed
    have htrim := trimmedHost_of_host hchars
    rw [if_pos (hlast.mpr hdot)] at htrim
    have hremap := hidna.remap_host (String.ofList (trimmedHost host)) fun c hc =>
      hchars c (List.mem_of_mem_dropLast (by rwa [htrim, String.toList_ofList] at hc))
    have hdot' := (hidna.trailing_dot _ _ henc').mp (hlast.mpr hdot)
    rw [hremap, htrim, String.toList_ofList] at hdot'
    exact hdots (dots_infix_of_last (hlast.mpr hdot) hdot')
  · intro hdot
    have htrim := trimmedHost_of_host hchars
    rw [if_neg (fun hend => hdot (hlast.mp hend))] at htrim
    rw [normalizeHost_of_host hidna htrim hchars hne]
    exact hidna.idempotent _ _ henc

/-- Two full stops at the end leave one in the normal form, and the next pass removes it. -/
theorem normalizeHost_not_fixed : normalizeHost plainEncode "foo.com.." = some "foo.com." ∧
    normalizeHost plainEncode "foo.com." = some "foo.com" := by
  have hdotted : normalizeHost plainEncode "foo.com.." = plainEncode "foo.com." :=
    normalizeHost_of_host plainEncoder (by decide) (List.all_eq_true.mp (by decide))
      (by decide)
  have hbare : normalizeHost plainEncode "foo.com." = plainEncode "foo.com" :=
    normalizeHost_of_host plainEncoder (by decide) (List.all_eq_true.mp (by decide))
      (by decide)
  rw [hdotted, hbare]
  decide

/-- A value with one full stop at its end, to which the theorem applies. -/
theorem normalizeHost_fixed_iff_sample :
    normalizeHost plainEncode "foo.com" = some "foo.com" := by
  have hnorm : normalizeHost plainEncode " foo.com." = plainEncode "foo.com" :=
    normalizeHost_of_host plainEncoder (by decide) (List.all_eq_true.mp (by decide))
      (by decide)
  have henc : plainEncode "foo.com" = some "foo.com" := by decide
  have h : normalizeHost plainEncode " foo.com." = some "foo.com" := hnorm.trans henc
  exact (normalizeHost_fixed_iff plainEncoder h).mpr (by decide)

/-! ## The overlap check among normalised hosts -/

/-- The normalised hosts are the fixed points of the encoder. -/
theorem normalized_iff (hidna : IdnaEncoder encode uts46Remap) :
    Normalized encode host ↔ encode host = some host := by
  refine ⟨?_, ?_⟩
  · rintro ⟨value, hvalue⟩
    exact hidna.idempotent _ _ (normalizeHost_eq_some hidna hvalue)
  · intro h
    have hchars := hidna.output_chars _ _ h
    have hne := (hidna.output_labels _ _ h).1
    by_cases hdot : host.toList.getLast? = some '.'
    · -- one full stop is trimmed, so the value has one more
      have hchars' : ∀ c ∈ (host ++ ".").toList, isHostChar c := by
        simpa [or_imp, forall_and] using ⟨hchars, by decide⟩
      have htrim : trimmedHost (host ++ ".") = host.toList := by
        have hdotted : (host ++ ".").toList = host.toList ++ ['.'] := String.toList_append
        rw [trimmedHost_of_host hchars', hdotted, if_pos List.getLast?_concat,
          List.dropLast_concat]
      exact ⟨host ++ ".", by rw [normalizeHost_of_host hidna htrim hchars hne, h]⟩
    · have htrim := trimmedHost_of_host hchars
      rw [if_neg hdot] at htrim
      exact ⟨host, by rw [normalizeHost_of_host hidna htrim hchars hne, h]⟩

/-- A normalised host has a normalised subdomain exactly when there is room for one more label. -/
theorem exists_normalized_subdomain_iff (hidna : IdnaEncoder encode uts46Remap)
    (hp : Normalized encode p) :
    (∃ host, Normalized encode host ∧ isStrictSubdomain host p) ↔ bareLength p ≤ 251 := by
  rw [normalized_iff hidna] at hp
  refine ⟨?_, ?_⟩
  · rintro ⟨host, hhost, hsub⟩
    rw [normalized_iff hidna] at hhost
    have hlen := hidna.output_length _ _ hhost
    obtain ⟨-, hhead, -⟩ := hidna.output_labels _ _ hhost
    obtain ⟨labels, hlabels⟩ := isStrictSubdomain_iff.mp hsub
    rw [bareLength_subdomain labels (hidna.output_labels _ _ hp).1 hlabels] at hlen
    -- the label in front is not empty
    cases labels with
    | nil => exact absurd (by rw [← hlabels]; rfl) hhead
    | cons c labels =>
      rw [List.length_cons] at hlen
      omega
  · intro hlen
    refine ⟨"x." ++ p, (normalized_iff hidna).mpr (hidna.subdomain p hp hlen), ?_⟩
    rw [isStrictSubdomain_iff, toList_cons_dot]
    exact List.suffix_cons _ _

/-- A wildcard whose parent leaves no room for one more label. -/
def exhausted (p : String) (k : SourceDomainPatternKind) : Prop :=
  k = subdomainWildcard ∧ 251 < bareLength p

/-- The pattern reaches below `parent`: it is not exact and is `parent` or a domain above it. -/
def reachesBelow (p : String) (k : SourceDomainPatternKind) (parent : String) : Prop :=
  k ≠ exact ∧ (parent = p ∨ isStrictSubdomain parent p)

/-- Some normalised host matches both patterns. -/
def CommonHost (encode : String → Option String) (p₁ : String) (k₁ : SourceDomainPatternKind)
    (p₂ : String) (k₂ : SourceDomainPatternKind) : Prop :=
  ∃ host, Normalized encode host ∧ patternMatchesHost p₁ k₁ host ∧ patternMatchesHost p₂ k₂ host

variable {p₁ p₂ : String} {k₁ k₂ : SourceDomainPatternKind}

theorem CommonHost.symm (h : CommonHost encode p₁ k₁ p₂ k₂) : CommonHost encode p₂ k₂ p₁ k₁ := by
  obtain ⟨host, hhost, h₁, h₂⟩ := h
  exact ⟨host, hhost, h₂, h₁⟩

/-- A pattern that is not exact matches every subdomain of a host below it. -/
theorem matches_below {host parent : String} (h : reachesBelow p k₁ parent)
    (hhost : isStrictSubdomain host parent) : patternMatchesHost p k₁ host := by
  obtain ⟨hk, hparent⟩ := h
  have hsub : isStrictSubdomain host p := by
    rcases hparent with rfl | hparent
    · exact hhost
    · exact isStrictSubdomain_trans hhost hparent
  cases k₁ with
  | exact => exact absurd rfl hk
  | subdomainWildcard => exact hsub
  | suffixMatch => exact patternMatchesHost_suffixMatch.mpr (.inr hsub)

/-- The order of the arguments does not matter. -/
theorem patternsIntersect_comm (p₁ : String) (k₁ : SourceDomainPatternKind) (p₂ : String)
    (k₂ : SourceDomainPatternKind) :
    patternsIntersect p₁ k₁ p₂ k₂ = patternsIntersect p₂ k₂ p₁ k₁ := by
  have hiff : patternsIntersect p₁ k₁ p₂ k₂ = some true ↔
      patternsIntersect p₂ k₂ p₁ k₁ = some true := by
    rw [patternsIntersect_iff, patternsIntersect_iff]
    simp only [and_comm]
  obtain ⟨b, hb⟩ := Option.isSome_iff_exists.mp
    (show (patternsIntersect p₁ k₁ p₂ k₂).isSome from patternsIntersect_isSome)
  obtain ⟨c, hc⟩ := Option.isSome_iff_exists.mp
    (show (patternsIntersect p₂ k₂ p₁ k₁).isSome from patternsIntersect_isSome)
  rw [hb, hc] at hiff ⊢
  cases b <;> cases c <;> simp_all

/-- Below a pattern that has room, or that matches its own value, there is a common host. -/
theorem commonHost_of_below (hidna : IdnaEncoder encode uts46Remap) (hp₁ : Normalized encode p₁)
    (h₁ : k₁ ≠ exact) (h₂ : reachesBelow p₂ k₂ p₁)
    (hroom : bareLength p₁ ≤ 251 ∨ k₁ = suffixMatch ∧ patternMatchesHost p₂ k₂ p₁) :
    CommonHost encode p₁ k₁ p₂ k₂ := by
  rcases hroom with hroom | ⟨rfl, hmatch⟩
  · obtain ⟨host, hhost, hsub⟩ := (exists_normalized_subdomain_iff hidna hp₁).mpr hroom
    exact ⟨host, hhost, matches_below ⟨h₁, .inl rfl⟩ hsub, matches_below h₂ hsub⟩
  · exact ⟨p₁, hp₁, patternMatchesHost_suffixMatch.mpr (.inl rfl), hmatch⟩

/-- Two patterns whose values lie one below the other have a common host, unless a wildcard among
them that reaches no further is exhausted. -/
theorem commonHost_of_reaches (hidna : IdnaEncoder encode uts46Remap) (hp₁ : Normalized encode p₁)
    (h₁ : k₁ ≠ exact) (h₂ : reachesBelow p₂ k₂ p₁) (hroom₁ : ¬ exhausted p₁ k₁)
    (hroom₂ : p₁ = p₂ → ¬ exhausted p₂ k₂) : CommonHost encode p₁ k₁ p₂ k₂ := by
  refine commonHost_of_below hidna hp₁ h₁ h₂ ?_
  by_cases hlen : bareLength p₁ ≤ 251
  · exact .inl hlen
  · have hk₁ : k₁ = suffixMatch := by
      cases k₁ with
      | exact => exact absurd rfl h₁
      | subdomainWildcard => exact absurd ⟨rfl, not_le.mp hlen⟩ hroom₁
      | suffixMatch => rfl
    refine .inr ⟨hk₁, ?_⟩
    obtain ⟨hk₂, rfl | hsub⟩ := h₂
    · cases k₂ with
      | exact => exact absurd rfl hk₂
      | subdomainWildcard => exact absurd ⟨rfl, not_le.mp hlen⟩ (hroom₂ rfl)
      | suffixMatch => exact patternMatchesHost_suffixMatch.mpr (.inl rfl)
    · exact matches_below ⟨hk₂, .inl rfl⟩ hsub

/-- Patterns that some host matches have a normalised one, unless a wildcard among them is exhausted
where the other reaches below it. -/
theorem commonHost_of_matches (hidna : IdnaEncoder encode uts46Remap) (hp₁ : Normalized encode p₁)
    (hp₂ : Normalized encode p₂) (hroom₁ : ¬ (exhausted p₁ k₁ ∧ reachesBelow p₂ k₂ p₁))
    (hroom₂ : ¬ (exhausted p₂ k₂ ∧ reachesBelow p₁ k₁ p₂))
    (h₁ : patternMatchesHost p₁ k₁ host) (h₂ : patternMatchesHost p₂ k₂ host) :
    CommonHost encode p₁ k₁ p₂ k₂ := by
  by_cases hk₁ : k₁ = exact
  · rw [hk₁, patternMatchesHost_exact] at h₁
    exact ⟨p₁, hp₁, by rw [hk₁, patternMatchesHost_exact], h₁ ▸ h₂⟩
  by_cases hk₂ : k₂ = exact
  · rw [hk₂, patternMatchesHost_exact] at h₂
    exact ⟨p₂, hp₂, h₂ ▸ h₁, by rw [hk₂, patternMatchesHost_exact]⟩
  -- neither is exact, so the host lies below both values
  have hbelow : ∀ {p : String} {k : SourceDomainPatternKind}, k ≠ exact →
      patternMatchesHost p k host → host = p ∨ isStrictSubdomain host p := by
    intro p k hk h
    cases k with
    | exact => exact absurd rfl hk
    | subdomainWildcard => exact .inr h
    | suffixMatch => exact patternMatchesHost_suffixMatch.mp h
  have hreach := parentsReachOverlap_of_common (hbelow hk₁ h₁) (hbelow hk₂ h₂)
  simp only [parentsReachOverlap, Bool.or_eq_true, beq_iff_eq] at hreach
  rcases hreach with (rfl | hsub) | hsub
  · exact commonHost_of_reaches hidna hp₁ hk₁ ⟨hk₂, .inl rfl⟩
      (fun h => hroom₁ ⟨h, hk₂, .inl rfl⟩) (fun _ h => hroom₂ ⟨h, hk₁, .inl rfl⟩)
  · refine commonHost_of_reaches hidna hp₁ hk₁ ⟨hk₂, .inr hsub⟩
      (fun h => hroom₁ ⟨h, hk₂, .inr hsub⟩) (fun heq => ?_)
    simp [isStrictSubdomain, heq] at hsub
  · refine (commonHost_of_reaches hidna hp₂ hk₂ ⟨hk₁, .inr hsub⟩
      (fun h => hroom₂ ⟨h, hk₁, .inr hsub⟩) (fun heq => ?_)).symm
    simp [isStrictSubdomain, heq] at hsub

/-- An exhausted wildcard has no normalised host in common with anything. -/
theorem not_commonHost_of_exhausted (hidna : IdnaEncoder encode uts46Remap)
    (hp₁ : Normalized encode p₁) (h : exhausted p₁ k₁) : ¬ CommonHost encode p₁ k₁ p₂ k₂ := by
  rintro ⟨host, hhost, h₁, -⟩
  obtain ⟨rfl, hlen⟩ := h
  have hroom := (exists_normalized_subdomain_iff hidna hp₁).mp ⟨host, hhost, h₁⟩
  omega

theorem patternsIntersect_of_reaches (h₁ : k₁ ≠ exact) (h₂ : reachesBelow p₂ k₂ p₁) :
    patternsIntersect p₁ k₁ p₂ k₂ = some true := by
  obtain ⟨host, hhost⟩ := exists_isStrictSubdomain p₁
  exact patternsIntersect_iff.mpr
    ⟨host, matches_below ⟨h₁, .inl rfl⟩ hhost, matches_below h₂ hhost⟩

/-- **Exactness among normalised hosts.** The check is symmetric and says whether some normalised
host matches both patterns, exactly when no exhausted wildcard lies where the other pattern
reaches. -/
theorem intersect_iff_common (hidna : IdnaEncoder encode uts46Remap) (hp₁ : Normalized encode p₁)
    (hp₂ : Normalized encode p₂) :
    (patternsIntersect p₁ k₁ p₂ k₂ = patternsIntersect p₂ k₂ p₁ k₁ ∧
        (patternsIntersect p₁ k₁ p₂ k₂ = some true ↔ CommonHost encode p₁ k₁ p₂ k₂)) ↔
      ¬ (exhausted p₁ k₁ ∧ reachesBelow p₂ k₂ p₁) ∧
        ¬ (exhausted p₂ k₂ ∧ reachesBelow p₁ k₁ p₂) := by
  refine ⟨?_, ?_⟩
  · rintro ⟨hcomm, hiff⟩
    refine ⟨fun ⟨hex, hreach⟩ => ?_, fun ⟨hex, hreach⟩ => ?_⟩
    · have hk : k₁ ≠ exact := by simp [hex.1]
      exact not_commonHost_of_exhausted hidna hp₁ hex
        (hiff.mp (patternsIntersect_of_reaches hk hreach))
    · have hk : k₂ ≠ exact := by simp [hex.1]
      exact not_commonHost_of_exhausted hidna hp₂ hex
        (hiff.mp (hcomm.trans (patternsIntersect_of_reaches hk hreach))).symm
  · rintro ⟨hroom₁, hroom₂⟩
    refine ⟨patternsIntersect_comm .., fun h => ?_, fun ⟨host, _, hmatch⟩ => ?_⟩
    · obtain ⟨host, h₁, h₂⟩ := patternsIntersect_iff.mp h
      exact commonHost_of_matches hidna hp₁ hp₂ hroom₁ hroom₂ h₁ h₂
    · exact patternsIntersect_iff.mpr ⟨host, hmatch⟩

end NormalForms

/-- A host of 253 characters. -/
def longestHost : String :=
  String.ofList (List.replicate 63 'a' ++ '.' :: List.replicate 63 'a' ++ '.' ::
    List.replicate 63 'a' ++ '.' :: List.replicate 61 'a')

theorem toList_longestHost : longestHost.toList = List.replicate 63 'a' ++ '.' ::
    List.replicate 63 'a' ++ '.' :: List.replicate 63 'a' ++ '.' :: List.replicate 61 'a' :=
  String.toList_ofList

theorem bareLength_longestHost : bareLength longestHost = 253 := by
  rw [bareLength, ← String.length_toList, toList_longestHost]
  decide +kernel

theorem normalized_longestHost : Normalized plainEncode longestHost := by
  apply (normalized_iff plainEncoder).mpr
  refine plainEncode_eq_some.mpr ⟨rfl, ?_, ⟨?_, ?_, ?_⟩, bareLength_longestHost.le, ?_⟩
  · rw [toList_longestHost]
    exact List.all_eq_true.mp (by decide +kernel)
  · intro hnil
    have hlist : longestHost.toList = [] := String.toList_eq_nil_iff.mpr hnil
    rw [toList_longestHost] at hlist
    exact absurd hlist (by decide)
  · rw [toList_longestHost]
    decide
  · rw [toList_longestHost]
    decide +kernel
  · rw [toList_longestHost]
    decide

/-- Below the longest hosts there is none that two wildcards on them could share, and yet they
intersect. -/
theorem intersect_without_common : Normalized plainEncode longestHost ∧
    patternsIntersect longestHost subdomainWildcard longestHost subdomainWildcard = some true ∧
    ¬ CommonHost plainEncode longestHost subdomainWildcard longestHost subdomainWildcard := by
  refine ⟨normalized_longestHost, patternsIntersect_of_reaches (by decide) ⟨by decide, .inl rfl⟩,
    not_commonHost_of_exhausted plainEncoder normalized_longestHost ⟨rfl, ?_⟩⟩
  rw [bareLength_longestHost]
  decide

/-- A parent and a strict subdomain of it, each with a wildcard. -/
theorem intersect_iff_common_sample :
    patternsIntersect "foo.com" subdomainWildcard "bar.foo.com" subdomainWildcard =
        patternsIntersect "bar.foo.com" subdomainWildcard "foo.com" subdomainWildcard ∧
      (patternsIntersect "foo.com" subdomainWildcard "bar.foo.com" subdomainWildcard = some true ↔
        CommonHost plainEncode "foo.com" subdomainWildcard "bar.foo.com" subdomainWildcard) := by
  have hfoo : Normalized plainEncode "foo.com" :=
    (normalized_iff plainEncoder).mpr (by decide)
  have hbar : Normalized plainEncode "bar.foo.com" :=
    (normalized_iff plainEncoder).mpr (by decide)
  exact (intersect_iff_common plainEncoder hfoo hbar).mpr
    ⟨fun h => absurd h.1.2 (by decide), fun h => absurd h.1.2 (by decide)⟩

end Eyenet
