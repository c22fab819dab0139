import Eyenet.Enums
import Mathlib

/-!
# Source domains

A source owns hostname patterns (`sqlmodel_repo/sources.py`, `util/domain.py`). Adding a pattern is
refused when some hostname matches both it and an active one; the check works on the patterns
alone.

* `patternsIntersect_iff` — the check is exact: two patterns intersect exactly when some hostname
  matches both.
* `DisjointRows` — the active rows are pairwise disjoint; every operation keeps this.
* `DisjointRows.findSourceForHost_eq` — among disjoint rows, what a host resolves to depends
  neither on the order of the rows nor on the specificity of the kinds.
-/

namespace Eyenet

/-! ## Hostnames -/

/-- The characters that `str.strip` removes. -/
def isPySpace (c : Char) : Bool :=
  let n := c.toNat
  decide (9 ≤ n ∧ n ≤ 13 ∨ 28 ≤ n ∧ n ≤ 32 ∨ n = 133 ∨ n = 160 ∨ n = 5760 ∨
    8192 ≤ n ∧ n ≤ 8202 ∨ n = 8232 ∨ n = 8233 ∨ n = 8239 ∨ n = 8287 ∨ n = 12288)

/-- `str.strip` -/
def pyStrip (s : List Char) : List Char :=
  ((s.dropWhile isPySpace).reverse.dropWhile isPySpace).reverse

theorem dropWhile_isPySpace {s : List Char} (h : ∀ c ∈ s, isPySpace c = false) :
    s.dropWhile isPySpace = s := by
  cases s with
  | nil => rfl
  | cons c s =>
    rw [List.dropWhile_cons, h c List.mem_cons_self]
    rfl

/-- There is nothing to strip from a text without blanks. -/
theorem pyStrip_eq_self {s : List Char} (h : ∀ c ∈ s, isPySpace c = false) : pyStrip s = s := by
  rw [pyStrip, dropWhile_isPySpace h,
    dropWhile_isPySpace (fun c hc => h c (List.mem_reverse.mp hc)), List.reverse_reverse]

/-- `normalize_host` with the encoder of the `idna` package; `none` where it raises. -/
def normalizeHost (idnaEncode : String → Option String) (value : String) : Option String :=
  let stripped := pyStrip value.toList
  let host := if stripped.getLast? = some '.' then stripped.dropLast else stripped
  if host = [] then none
  else if "xn--".toList <:+: host.map Char.toLower ∧ ∃ c ∈ host, 127 < c.toNat then none
  else (idnaEncode (String.ofList host)).map String.toLower

/-- `_is_strict_subdomain` -/
def isStrictSubdomain (host parent : String) : Bool :=
  decide ('.' :: parent.toList <:+ host.toList) && decide (host ≠ parent)

theorem isStrictSubdomain_iff {host parent : String} :
    isStrictSubdomain host parent ↔ '.' :: parent.toList <:+ host.toList := by
  simp only [isStrictSubdomain, Bool.and_eq_true, decide_eq_true_eq, and_iff_left_iff_imp]
  rintro h rfl
  simpa using h.length_le

/-- A subdomain of a subdomain is a subdomain. -/
theorem isStrictSubdomain_trans {a b c : String} (hab : isStrictSubdomain a b)
    (hbc : isStrictSubdomain b c) : isStrictSubdomain a c := by
  rw [isStrictSubdomain_iff] at *
  exact hbc.trans ((List.suffix_cons _ _).trans hab)

/-- Of two domains of one host, one is a subdomain of the other. -/
theorem isStrictSubdomain_or {host a b : String} (ha : isStrictSubdomain host a)
    (hb : isStrictSubdomain host b) : a = b ∨ isStrictSubdomain a b ∨ isStrictSubdomain b a := by
  have hshorter : ∀ {a b : String}, '.' :: a.toList <:+ '.' :: b.toList →
      a = b ∨ isStrictSubdomain b a := by
    intro a b h
    rw [isStrictSubdomain_iff]
    rcases List.suffix_cons_iff.mp h with heq | hsuf
    · exact .inl (String.ext (List.cons.inj heq).2)
    · exact .inr hsuf
  rw [isStrictSubdomain_iff] at ha hb
  rcases List.suffix_or_suffix_of_suffix ha hb with h | h
  · exact (hshorter h).imp id .inr
  · exact (hshorter h).imp Eq.symm .inl

/-- Every domain has a subdomain. -/
theorem exists_isStrictSubdomain (parent : String) : ∃ host, isStrictSubdomain host parent :=
  ⟨String.ofList ('x' :: '.' :: parent.toList), by
    rw [isStrictSubdomain_iff, String.toList_ofList]
    exact List.suffix_cons _ _⟩

/-! ## Patterns -/

/-- How a pattern is matched. -/
inductive SourceDomainPatternKind where
  | exact
  | subdomainWildcard
  | suffixMatch
  deriving DecidableEq, Repr

namespace SourceDomainPatternKind

/-- The member's value. -/
def value : SourceDomainPatternKind → String
  | exact => "exact"
  | subdomainWildcard => "subdomain_wildcard"
  | suffixMatch => "suffix_match"

/-- `_KIND_SPECIFICITY.index` -/
def specificity : SourceDomainPatternKind → ℕ
  | exact => 0
  | subdomainWildcard => 1
  | suffixMatch => 2

end SourceDomainPatternKind

open SourceDomainPatternKind

/-- `pattern_matches_host` -/
def patternMatchesHost (pattern : String) (kind : SourceDomainPatternKind) (host : String) : Bool :=
  match kind with
  | exact => host == pattern
  | subdomainWildcard => isStrictSubdomain host pattern
  | suffixMatch => host == pattern || isStrictSubdomain host pattern

/-- `_parents_reach_overlap` -/
def parentsReachOverlap (a b : String) : Bool :=
  a == b || isStrictSubdomain a b || isStrictSubdomain b a

/-- `patterns_intersect` after its arguments are in order; `none` for the assertion at its end. -/
def patternsIntersectOrdered (p₁ : String) (k₁ : SourceDomainPatternKind) (p₂ : String)
    (k₂ : SourceDomainPatternKind) : Option Bool :=
  match k₁, k₂ with
  | exact, exact => some (p₁ == p₂)
  | exact, subdomainWildcard => some (isStrictSubdomain p₁ p₂)
  | exact, suffixMatch => some (p₁ == p₂ || isStrictSubdomain p₁ p₂)
  | subdomainWildcard, subdomainWildcard => some (parentsReachOverlap p₁ p₂)
  | subdomainWildcard, suffixMatch => some (parentsReachOverlap p₁ p₂)
  | suffixMatch, suffixMatch => some (parentsReachOverlap p₁ p₂)
  -- the less specific kind comes first
  | _, _ => none

/-- `patterns_intersect` -/
def patternsIntersect (p₁ : String) (k₁ : SourceDomainPatternKind) (p₂ : String)
    (k₂ : SourceDomainPatternKind) : Option Bool :=
  -- the values of the kinds happen to be in the order of their specificity
  if k₂.value < k₁.value ∨ k₁.value = k₂.value ∧ p₂ < p₁ then patternsIntersectOrdered p₂ k₂ p₁ k₁
  else patternsIntersectOrdered p₁ k₁ p₂ k₂

section Patterns

variable {a b host p p₁ p₂ : String} {k k₁ k₂ : SourceDomainPatternKind}

theorem patternMatchesHost_exact : patternMatchesHost p exact host ↔ host = p := by
  simp [patternMatchesHost]

theorem patternMatchesHost_suffixMatch :
    patternMatchesHost p suffixMatch host ↔ host = p ∨ isStrictSubdomain host p := by
  simp [patternMatchesHost]

/-- Overlapping parents have a common subdomain. -/
theorem exists_common_subdomain (h : parentsReachOverlap a b) :
    ∃ host, isStrictSubdomain host a ∧ isStrictSubdomain host b := by
  simp only [parentsReachOverlap, Bool.or_eq_true, beq_iff_eq, or_assoc] at h
  rcases h with rfl | hab | hba
  · obtain ⟨host, hhost⟩ := exists_isStrictSubdomain a
    exact ⟨host, hhost, hhost⟩
  · obtain ⟨host, hhost⟩ := exists_isStrictSubdomain a
    exact ⟨host, hhost, isStrictSubdomain_trans hhost hab⟩
  · obtain ⟨host, hhost⟩ := exists_isStrictSubdomain b
    exact ⟨host, isStrictSubdomain_trans hhost hba, hhost⟩

/-- Parents that a host shares, itself included, overlap. -/
theorem parentsReachOverlap_of_common (ha : host = a ∨ isStrictSubdomain host a)
    (hb : host = b ∨ isStrictSubdomain host b) : parentsReachOverlap a b := by
  simp only [parentsReachOverlap, Bool.or_eq_true, beq_iff_eq, or_assoc]
  rcases ha with rfl | ha <;> rcases hb with rfl | hb
  · exact .inl rfl
  · exact .inr (.inl hb)
  · exact .inr (.inr ha)
  · exact isStrictSubdomain_or ha hb

/-- On ordered arguments the check says whether some hostname matches both patterns. -/
theorem patternsIntersectOrdered_iff {answer : Bool}
    (h : patternsIntersectOrdered p₁ k₁ p₂ k₂ = some answer) :
    answer = true ↔ ∃ host, patternMatchesHost p₁ k₁ host ∧ patternMatchesHost p₂ k₂ host := by
  cases k₁ <;> cases k₂ <;> cases h
  · -- exact and exact
    simp only [patternMatchesHost_exact, beq_iff_eq]
    exact ⟨fun h => ⟨p₁, rfl, h⟩, fun ⟨host, h₁, h₂⟩ => h₁ ▸ h₂⟩
  · -- exact and wildcard
    simp only [patternMatchesHost_exact]
    exact ⟨fun h => ⟨p₁, rfl, h⟩, fun ⟨host, h₁, h₂⟩ => h₁ ▸ h₂⟩
  · -- exact and suffix
    simp only [patternMatchesHost_exact]
    exact ⟨fun h => ⟨p₁, rfl, h⟩, fun ⟨host, h₁, h₂⟩ => h₁ ▸ h₂⟩
  · -- wildcard and wildcard
    exact ⟨exists_common_subdomain, fun ⟨host, h₁, h₂⟩ =>
      parentsReachOverlap_of_common (.inr h₁) (.inr h₂)⟩
  · -- wildcard and suffix
    simp only [patternMatchesHost_suffixMatch]
    refine ⟨?_, ?_⟩
    · intro h
      obtain ⟨host, h₁, h₂⟩ := exists_common_subdomain h
      exact ⟨host, h₁, .inr h₂⟩
    · rintro ⟨host, h₁, h₂⟩
      exact parentsReachOverlap_of_common (.inr h₁) h₂
  · -- suffix and suffix
    simp only [patternMatchesHost_suffixMatch]
    refine ⟨?_, ?_⟩
    · intro h
      obtain ⟨host, h₁, h₂⟩ := exists_common_subdomain h
      exact ⟨host, .inr h₁, .inr h₂⟩
    · rintro ⟨host, h₁, h₂⟩
      exact parentsReachOverlap_of_common h₁ h₂

theorem value_lt_iff : k₂.value < k₁.value ↔ k₂.specificity < k₁.specificity := by
  cases k₁ <;> cases k₂ <;> decide

theorem value_injective : Function.Injective value := by
  intro k₁ k₂ h
  cases k₁ <;> cases k₂ <;> first | rfl | exact absurd h (by decide)

theorem patternsIntersectOrdered_isSome (h : k₁.specificity ≤ k₂.specificity) :
    (patternsIntersectOrdered p₁ k₁ p₂ k₂).isSome := by
  cases k₁ <;> cases k₂ <;> first | rfl | exact absurd h (by decide)

/-- The assertion at the end of `patterns_intersect` is not reached. -/
theorem patternsIntersect_isSome : (patternsIntersect p₁ k₁ p₂ k₂).isSome := by
  rw [patternsIntersect]
  split
  · next h =>
    apply patternsIntersectOrdered_isSome
    rcases h with hlt | ⟨heq, -⟩
    · exact (value_lt_iff.mp hlt).le
    · rw [value_injective heq]
  · next h =>
    apply patternsIntersectOrdered_isSome
    exact not_lt.mp fun hlt => h (.inl (value_lt_iff.mpr hlt))

/-- **Exactness.** Two patterns intersect exactly when some hostname matches both. -/
theorem patternsIntersect_iff : patternsIntersect p₁ k₁ p₂ k₂ = some true ↔
    ∃ host, patternMatchesHost p₁ k₁ host ∧ patternMatchesHost p₂ k₂ host := by
  obtain ⟨answer, hanswer⟩ := Option.isSome_iff_exists.mp
    (show (patternsIntersect p₁ k₁ p₂ k₂).isSome from patternsIntersect_isSome)
  rw [hanswer, Option.some.injEq]
  rw [patternsIntersect] at hanswer
  -- swapped arguments ask for a host of the same two patterns
  split at hanswer
  · rw [patternsIntersectOrdered_iff hanswer]
    simp only [and_comm]
  · exact patternsIntersectOrdered_iff hanswer

end Patterns

/-! ## The rows -/

/-- A row of `source_domain`. -/
structure SourceDomainRow where
  id : Uuid
  sourceId : Uuid
  pattern : String
  patternKind : SourceDomainPatternKind
  isPrimary : Bool
  createdAt : ℤ
  createdByUserId : Option Uuid
  removedAt : Option ℤ
  removedByUserId : Option Uuid
  notes : Option String
  deriving DecidableEq

/-- Not soft-removed. -/
def SourceDomainRow.active (r : SourceDomainRow) : Bool := r.removedAt.isNone

/-- The row's pattern matches the host. -/
def SourceDomainRow.matchesHost (r : SourceDomainRow) (host : String) : Bool :=
  patternMatchesHost r.pattern r.patternKind host

/-- What the operations on source domains raise. -/
inductive SourceDomainError where
  /-- `normalize_host` -/
  | invalidHost
  /-- `SourceDomainOverlapError` -/
  | overlap (conflictingId : Uuid) (conflictKind : String)
  /-- there is no such row, or it is not the source's -/
  | notFound (domainId : Uuid)
  | alreadyRemoved (domainId : Uuid)
  /-- a removed row cannot be primary -/
  | notActive (domainId : Uuid)
  /-- a constraint of the table -/
  | integrity
  deriving DecidableEq

/-- The `CHECK`s on one row that depend on what a caller passes. -/
def SourceDomainRow.checks (r : SourceDomainRow) : Bool :=
  decide (r.pattern ≠ "" ∧ r.pattern.toLower = r.pattern ∧ '*' ∉ r.pattern.toList ∧
    r.notes ≠ some "")

/-- The unique constraints: the key, and one active primary row for each source. -/
def uniqueRows (rows : List SourceDomainRow) : Bool :=
  decide (rows.map (·.id)).Nodup &&
    decide ((rows.filter fun r => r.isPrimary && r.active).map (·.sourceId)).Nodup

/-- `_detect_overlap_in_session`: the first active row that intersects the pattern. -/
def detectOverlap (rows : List SourceDomainRow) (pattern : String)
    (kind : SourceDomainPatternKind) : Option SourceDomainRow :=
  rows.find? fun r =>
    r.active && decide (patternsIntersect pattern kind r.pattern r.patternKind = some true)

/-- `add_source_domain` on the table of source domains; `r` is the row to insert, with the pattern
as the caller gives it. -/
def addSourceDomain (normalize : String → Option String) (rows : List SourceDomainRow)
    (r : SourceDomainRow) : Except SourceDomainError (List SourceDomainRow) :=
  match normalize r.pattern with
  | none => .error .invalidHost
  | some pattern =>
    match detectOverlap rows pattern r.patternKind with
    | some conflict => .error (.overlap conflict.id conflict.patternKind.value)
    | none =>
      -- a removed row with this pattern does not stand in the way
      let row := { r with pattern, removedAt := none, removedByUserId := none }
      if row.checks ∧ uniqueRows (rows ++ [row]) then .ok (rows ++ [row]) else .error .integrity

/-- The row with this key. -/
def getSourceDomain (rows : List SourceDomainRow) (id : Uuid) : Option SourceDomainRow :=
  rows.find? fun r => r.id == id

/-- The row with this key is rewritten. -/
def updateSourceDomain (rows : List SourceDomainRow) (id : Uuid)
    (f : SourceDomainRow → SourceDomainRow) : List SourceDomainRow :=
  rows.map fun r => if r.id = id then f r else r

/-- `remove_source_domain` -/
def removeSourceDomain (rows : List SourceDomainRow) (domainId : Uuid) (removedAt : ℤ)
    (removedByUserId : Uuid) : Except SourceDomainError (List SourceDomainRow) :=
  match getSourceDomain rows domainId with
  | none => .error (.notFound domainId)
  | some r =>
    if !r.active then .error (.alreadyRemoved domainId)
    else .ok (updateSourceDomain rows domainId fun r =>
      { r with removedAt := some removedAt, removedByUserId := some removedByUserId })

/-- `swap_source_domain_primary`: the active primary rows of the source are demoted, then the
target is promoted. -/
def swapSourceDomainPrimary (rows : List SourceDomainRow) (sourceId domainId : Uuid) :
    Except SourceDomainError (List SourceDomainRow) :=
  match getSourceDomain rows domainId with
  | none => .error (.notFound domainId)
  | some target =>
    if target.sourceId ≠ sourceId then .error (.notFound domainId)
    else if !target.active then .error (.notActive domainId)
    else
      let demoted := rows.map fun r =>
        if r.sourceId = sourceId ∧ r.isPrimary ∧ r.active ∧ r.id ≠ domainId then
          { r with isPrimary := false }
        else r
      .ok (updateSourceDomain demoted domainId fun r => { r with isPrimary := true })

/-- The active rows that match the host. -/
def matching (rows : List SourceDomainRow) (host : String) : List SourceDomainRow :=
  rows.filter fun r => r.active && r.matchesHost host

/-- `find_source_for_host`: the most specific kind first, then the oldest row. -/
def findSourceForHost (normalize : String → Option String) (rows : List SourceDomainRow)
    (host : String) : Except SourceDomainError (Option SourceDomainRow) :=
  match normalize host with
  | none => .error .invalidHost
  | some host =>
    .ok ((matching rows host).insertionSort fun r q =>
      toLex (r.patternKind.specificity, r.createdAt) ≤
        toLex (q.patternKind.specificity, q.createdAt)).head?

section Rows

variable {normalize : String → Option String} {rows rows' : List SourceDomainRow}
variable {r q : SourceDomainRow} {host host' : String}

/-- The active rows are pairwise disjoint. -/
def DisjointRows (rows : List SourceDomainRow) : Prop :=
  rows.Pairwise fun r q => r.active → q.active → ∀ host, ¬ (r.matchesHost host ∧ q.matchesHost host)

theorem mem_matching :
    r ∈ matching rows host ↔ r ∈ rows ∧ r.active ∧ r.matchesHost host := by
  simp [matching]

/-- At most one active row matches a host. -/
theorem DisjointRows.matching_length (h : DisjointRows rows) (host : String) :
    (matching rows host).length ≤ 1 := by
  induction rows with
  | nil => simp [matching]
  | cons r rows ih =>
    obtain ⟨hhead, htail⟩ := List.pairwise_cons.mp h
    rw [matching, List.filter_cons]
    split
    · next hr =>
      rw [Bool.and_eq_true] at hr
      have hnone : matching rows host = [] := by
        rw [List.eq_nil_iff_forall_not_mem]
        intro q hq
        obtain ⟨hmem, hactive, hmatch⟩ := mem_matching.mp hq
        exact hhead q hmem hr.1 hactive host ⟨hr.2, hmatch⟩
      rw [matching] at hnone
      rw [hnone]
      rfl
    · exact ih htail

/-- What matches a host, when anything does. -/
theorem DisjointRows.matching_eq (h : DisjointRows rows) (hr : r ∈ matching rows host) :
    matching rows host = [r] := by
  have hlen := h.matching_length host
  match hmatching : matching rows host with
  | [] => simp [hmatching] at hr
  | [q] =>
    rw [hmatching, List.mem_singleton] at hr
    rw [hr]
  | _ :: _ :: _ =>
    rw [hmatching] at hlen
    simp at hlen

/-- **Resolution.** A host resolves to the one active row that matches it, whatever the order of
the rows and the specificity of the kinds. -/
theorem DisjointRows.findSourceForHost_eq (h : DisjointRows rows)
    (hnorm : normalize host = some host') :
    findSourceForHost normalize rows host = .ok (some r) ↔ r ∈ matching rows host' := by
  rw [findSourceForHost, hnorm]
  cases hmatching : matching rows host' with
  | nil => simp [hmatching]
  | cons q qs =>
    have hone := h.matching_eq (r := q) (by rw [hmatching]; exact List.mem_cons_self)
    rw [hmatching] at hone
    obtain rfl : qs = [] := (List.cons.inj hone).2
    simp [hmatching, eq_comm]

/-- The order of the rows does not matter. -/
theorem DisjointRows.perm (h : DisjointRows rows) (hperm : rows'.Perm rows) :
    DisjointRows rows' := by
  refine (hperm.pairwise_iff fun {r q} hrq hq hr host hboth => ?_).mpr h
  exact hrq hr hq host hboth.symm

/-! ### What the operations keep -/

/-- Rewriting rows keeps them disjoint when no row comes to match more. -/
theorem DisjointRows.map {f : SourceDomainRow → SourceDomainRow} (h : DisjointRows rows)
    (hf : ∀ r, (f r).active → r.active ∧ ∀ host, (f r).matchesHost host → r.matchesHost host) :
    DisjointRows (rows.map f) := by
  rw [DisjointRows, List.pairwise_map]
  refine h.imp fun {r q} hrq hr hq host hboth => ?_
  obtain ⟨hr', hrm⟩ := hf r hr
  obtain ⟨hq', hqm⟩ := hf q hq
  exact hrq hr' hq' host ⟨hrm host hboth.1, hqm host hboth.2⟩

/-- What a successful `add_source_domain` inserts. -/
theorem addSourceDomain_ok (h : addSourceDomain normalize rows r = .ok rows') :
    ∃ pattern, normalize r.pattern = some pattern ∧
      detectOverlap rows pattern r.patternKind = none ∧
      rows' = rows ++ [{ r with pattern, removedAt := none, removedByUserId := none }] := by
  simp only [addSourceDomain] at h
  split at h
  · cases h
  · next pattern hpattern =>
    split at h
    · cases h
    · next hdetect =>
      split at h
      · cases h
        exact ⟨pattern, hpattern, hdetect, rfl⟩
      · cases h

/-- A pattern without overlap shares no host with an active row. -/
theorem detectOverlap_eq_none {pattern : String} {kind : SourceDomainPatternKind}
    (h : detectOverlap rows pattern kind = none) (hr : r ∈ rows) (hactive : r.active)
    (host : String) :
    ¬ (r.matchesHost host ∧ patternMatchesHost pattern kind host) := by
  rintro ⟨hmatch, hpattern⟩
  have hnot := List.find?_eq_none.mp h r hr
  rw [hactive, Bool.true_and, decide_eq_true_eq] at hnot
  exact hnot (patternsIntersect_iff.mpr ⟨host, hpattern, hmatch⟩)

theorem DisjointRows.add (h : DisjointRows rows)
    (hadd : addSourceDomain normalize rows r = .ok rows') : DisjointRows rows' := by
  obtain ⟨pattern, -, hdetect, rfl⟩ := addSourceDomain_ok hadd
  rw [DisjointRows, List.pairwise_append]
  refine ⟨h, List.pairwise_singleton _ _, fun q hq row hrow hactive _ host => ?_⟩
  rw [List.mem_singleton.mp hrow]
  exact detectOverlap_eq_none hdetect hq hactive host

/-- What a successful `remove_source_domain` does. -/
theorem removeSourceDomain_ok {id user : Uuid} {stamp : ℤ}
    (h : removeSourceDomain rows id stamp user = .ok rows') :
    rows' = updateSourceDomain rows id fun r =>
      { r with removedAt := some stamp, removedByUserId := some user } := by
  simp only [removeSourceDomain] at h
  split at h
  · cases h
  · split at h
    · cases h
    · exact (Except.ok.inj h).symm

theorem DisjointRows.remove {id user : Uuid} {stamp : ℤ} (h : DisjointRows rows)
    (hremove : removeSourceDomain rows id stamp user = .ok rows') : DisjointRows rows' := by
  rw [removeSourceDomain_ok hremove]
  refine h.map fun r => ?_
  split
  · exact fun hactive => absurd hactive (by simp [SourceDomainRow.active])
  · exact fun hactive => ⟨hactive, fun _ hmatch => hmatch⟩

/-- A swap changes nothing but `is_primary`. -/
theorem swapSourceDomainPrimary_ok {source id : Uuid}
    (h : swapSourceDomainPrimary rows source id = .ok rows') :
    ∃ f : SourceDomainRow → SourceDomainRow, rows' = rows.map f ∧
      ∀ r, ∃ primary, f r = { r with isPrimary := primary } := by
  simp only [swapSourceDomainPrimary] at h
  split at h
  · cases h
  · split at h
    · cases h
    · split at h
      · cases h
      · cases h
        refine ⟨_, List.map_map .., fun r => ?_⟩
        simp only [Function.comp_apply]
        split <;> split <;> exact ⟨_, rfl⟩

theorem DisjointRows.swap {source id : Uuid} (h : DisjointRows rows)
    (hswap : swapSourceDomainPrimary rows source id = .ok rows') : DisjointRows rows' := by
  obtain ⟨f, rfl, hf⟩ := swapSourceDomainPrimary_ok hswap
  refine h.map fun r hactive => ?_
  obtain ⟨primary, hr⟩ := hf r
  rw [hr] at hactive ⊢
  exact ⟨hactive, fun _ hmatch => hmatch⟩

end Rows

end Eyenet
