import Eyenet.Framing
import Eyenet.Machine
import Eyenet.Sha256
import Eyenet.SourceDomain

/-!
# Bridge resolution

An infrastructure artifact that carries a host resolves to the source that owns the host
(`sqlmodel_repo/artifacts.py`). The resolution is kept on the artifact: it is computed when the
artifact is written, and when a domain is added the unresolved artifacts are swept. A row also
remembers the active domains when it was last resolved, which the real table does not.

* `unique_resolution` — in every reachable state at most one active domain matches a host.
* `BridgeState.Faithful` — an artifact resolves as its own kind and value say.
* `faithful_iff_consistent` — exactly when every state of a run is faithful.
-/

namespace Eyenet

open Machine

/-! ## Artifacts -/

/-- The kinds of artifacts. -/
inductive InfrastructureKind where
  | walletBtc
  | walletXmr
  | walletEth
  | pgpKey
  | domain
  | onion
  | email
  | phone
  | handleOtherPlatform
  | pasteUrl
  deriving DecidableEq, Repr

/-- `BRIDGEABLE_KINDS` -/
def InfrastructureKind.bridgeable : InfrastructureKind → Bool
  | domain => true
  | onion => true
  | pasteUrl => true
  | _ => false

/-- How an artifact is resolved. -/
inductive ResolutionState where
  | unresolved
  | resolved
  | ambiguous
  | notApplicable
  deriving DecidableEq, Repr

/-- A row of `infrastructure_artifact`. -/
structure InfrastructureArtifactRow where
  id : Uuid
  kind : InfrastructureKind
  value : String
  valueHash : String
  firstSeenAtIngest : ℤ
  lastSeenAtIngest : ℤ
  resolvedToSourceId : Option Uuid
  resolutionState : ResolutionState
  /-- the active domains when the row was last resolved -/
  resolvedAmong : List SourceDomainRow
  deriving DecidableEq

/-- `_value_hash` -/
def valueHash (value : String) : String := hex (Sha256.digest (utf8 value))

/-- What the store needs from outside: `normalize_host`, which rests on the `idna` package, and
`urlparse(value).hostname`; `none` where they raise. -/
structure HostParsers where
  normalizeHost : String → Option String
  urlHostname : String → Option (Option String)

section Resolution

variable (parsers : HostParsers)

/-- `artifact_value_to_host`; the outer `none` is where it raises. -/
def artifactValueToHost (kind : InfrastructureKind) (value : String) : Option (Option String) :=
  if !kind.bridgeable then some none
  else
    match kind with
    | .pasteUrl =>
      match parsers.urlHostname value with
      | none => none
      | some hostname =>
        let host := hostname.getD ""
        if host = "" then some none else some (parsers.normalizeHost host)
    | _ => some (parsers.normalizeHost value)

/-- `_resolve_artifact_in_session` -/
def resolveArtifact (rows : List SourceDomainRow) (kind : InfrastructureKind) (value : String) :
    Option (ResolutionState × Option Uuid) :=
  if !kind.bridgeable then some (.notApplicable, none)
  else
    match artifactValueToHost parsers kind value with
    | none => none
    | some none => some (.unresolved, none)
    | some (some host) =>
      match matching rows host with
      | [] => some (.unresolved, none)
      | r :: rs =>
        -- `len({r.source_id for r in matches}) == 1`
        if (rs.map (·.sourceId)).all (· == r.sourceId) then some (.resolved, some r.sourceId)
        else some (.ambiguous, none)

/-- The host of a kind and a value, if they have one. -/
def hostOf (kind : InfrastructureKind) (value : String) : Option String :=
  (artifactValueToHost parsers kind value).join

/-- The source that owns the host. -/
def owner (rows : List SourceDomainRow) (host : Option String) : Option Uuid :=
  host.bind fun host => (matching rows host).head?.map (·.sourceId)

/-- `_resolve_existing_artifacts_for_new_domain_in_session` looks at the artifact. -/
def swept (a : InfrastructureArtifactRow) : Bool :=
  a.resolutionState = .unresolved ∧ a.kind.bridgeable

/-- `_resolve_existing_artifacts_for_new_domain_in_session` on one artifact; `rows` are the active
domains with the new one. -/
def sweepArtifact (rows : List SourceDomainRow) (new : SourceDomainRow)
    (a : InfrastructureArtifactRow) : InfrastructureArtifactRow :=
  match swept a, artifactValueToHost parsers a.kind a.value with
  | true, some (some host) =>
    if new.matchesHost host then
      { a with
        resolutionState := .resolved
        resolvedToSourceId := some new.sourceId
        resolvedAmong := rows }
    else a
  | _, _ => a

end Resolution

/-! ## The store -/

/-- The source domains and the artifacts. -/
structure BridgeState where
  domains : List SourceDomainRow
  artifacts : List InfrastructureArtifactRow
  deriving DecidableEq

/-- The operations. -/
inductive BridgeStep where
  /-- `put_infrastructure_artifact`; `id` is the key of a new row -/
  | put (id : Uuid) (kind : InfrastructureKind) (value : String)
    (firstSeenAtIngest lastSeenAtIngest : ℤ)
  /-- `add_source_domain` -/
  | addDomain (r : SourceDomainRow)
  /-- `remove_source_domain` -/
  | removeDomain (domainId : Uuid) (removedAt : ℤ) (removedByUserId : Uuid)
  /-- `swap_source_domain_primary` -/
  | swapPrimary (sourceId domainId : Uuid)
  deriving DecidableEq

namespace BridgeState

/-- Nothing is stored. -/
def init : BridgeState := ⟨[], []⟩

section Operations

variable (parsers : HostParsers)

/-- The active domains. -/
def active (s : BridgeState) : List SourceDomainRow := s.domains.filter SourceDomainRow.active

/-- The rows with the hash of the value. -/
def withHash (s : BridgeState) (value : String) : List InfrastructureArtifactRow :=
  s.artifacts.filter fun a => a.valueHash == valueHash value

/-- An artifact is resolved anew, from the given kind and value. -/
def resolveAgain (s : BridgeState) (result : ResolutionState × Option Uuid) (lastSeenAtIngest : ℤ)
    (a : InfrastructureArtifactRow) : InfrastructureArtifactRow :=
  { a with
    lastSeenAtIngest
    resolutionState := result.1
    resolvedToSourceId := result.2
    resolvedAmong := s.active }

/-- `put_infrastructure_artifact`; `none` where it raises. -/
def put (s : BridgeState) (id : Uuid) (kind : InfrastructureKind) (value : String)
    (firstSeenAtIngest lastSeenAtIngest : ℤ) : Option BridgeState :=
  match s.withHash value, resolveArtifact parsers s.domains kind value with
  | _, none => none
  | [], some result =>
    if id ∈ s.artifacts.map (·.id) then none
    else some { s with artifacts := s.artifacts ++
      [⟨id, kind, value, valueHash value, firstSeenAtIngest, lastSeenAtIngest, result.2, result.1,
        s.active⟩] }
  -- the row with the hash of the value, which may be of another kind
  | [existing], some result =>
    some { s with artifacts := s.artifacts.map fun a =>
      if a.id = existing.id then s.resolveAgain result lastSeenAtIngest a else a }
  -- `one_or_none` finds two rows
  | _ :: _ :: _, some _ => none

/-- `add_source_domain`; `none` where it raises. -/
def addDomain (s : BridgeState) (r : SourceDomainRow) : Option BridgeState :=
  match addSourceDomain parsers.normalizeHost s.domains r with
  | .error _ => none
  | .ok domains =>
    match domains.getLast? with
    | none => none
    | some new =>
      -- the sweep reads every unresolved value, and one that raises undoes the whole call
      if s.artifacts.any fun a =>
          swept a && (artifactValueToHost parsers a.kind a.value).isNone then
        none
      else some ⟨domains, s.artifacts.map (sweepArtifact parsers (domains.filter (·.active)) new)⟩

/-- One operation; one that raises leaves everything as it is. -/
def step (s : BridgeState) : BridgeStep → Option BridgeState
  | .put id kind value first last => some ((s.put parsers id kind value first last).getD s)
  | .addDomain r => some ((s.addDomain parsers r).getD s)
  | .removeDomain id stamp user =>
    match removeSourceDomain s.domains id stamp user with
    | .error _ => some s
    | .ok domains => some { s with domains }
  | .swapPrimary source id =>
    match swapSourceDomainPrimary s.domains source id with
    | .error _ => some s
    | .ok domains => some { s with domains }

/-- The artifact resolves as its own kind and value say: when it is resolved, its source owned a
matching domain at that time; and while an active domain matches, it is resolved to its source. -/
structure FaithfulArtifact (rows : List SourceDomainRow) (a : InfrastructureArtifactRow) :
    Prop where
  resolved : a.resolutionState = .resolved → ∃ host ∈ hostOf parsers a.kind a.value,
    ∃ r ∈ a.resolvedAmong, r.matchesHost host ∧ a.resolvedToSourceId = some r.sourceId
  active : ∀ host ∈ hostOf parsers a.kind a.value, ∀ r ∈ matching rows host,
    a.resolutionState = .resolved ∧ a.resolvedToSourceId = some r.sourceId

/-- Every artifact resolves as its own kind and value say. -/
def Faithful (s : BridgeState) : Prop := ∀ a ∈ s.artifacts, FaithfulArtifact parsers s.domains a

/-- A value is observed under kinds of one owner only, and a domain is added only when no artifact
that it matches is resolved elsewhere, or counts as not resolvable. -/
def Consistent (s : BridgeState) : BridgeStep → Prop
  | .put id kind value first last => (s.put parsers id kind value first last).isSome →
    ∀ a ∈ s.withHash value,
      owner s.domains (hostOf parsers kind value) = owner s.domains (hostOf parsers a.kind a.value)
  | .addDomain r => (s.addDomain parsers r).isSome → ∀ pattern ∈ parsers.normalizeHost r.pattern,
    ∀ a ∈ s.artifacts, ∀ host ∈ hostOf parsers a.kind a.value,
      patternMatchesHost pattern r.patternKind host →
        a.resolutionState = .unresolved ∨
          a.resolutionState = .resolved ∧ a.resolvedToSourceId = some r.sourceId
  | _ => True

end Operations

/-! ## Invariants -/

/-- What every operation keeps. -/
structure Sound (s : BridgeState) : Prop where
  disjoint : DisjointRows s.domains
  ids : (s.artifacts.map (·.id)).Nodup
  unambiguous : ∀ a ∈ s.artifacts, a.resolutionState ≠ .ambiguous

section Invariant

variable {parsers : HostParsers} {rows : List SourceDomainRow} {s s' : BridgeState}
variable {kind : InfrastructureKind} {value host : String} {h? : Option String} {source : Uuid}
variable {result : ResolutionState × Option Uuid} {r : SourceDomainRow}

theorem sound_init : Sound init := by
  constructor <;> simp [init, DisjointRows]

/-- Among disjoint rows the owner is the source of any row that matches. -/
theorem owner_eq (hdisjoint : DisjointRows rows) (hr : r ∈ matching rows host) :
    owner rows (some host) = some r.sourceId := by
  simp [owner, hdisjoint.matching_eq hr]

theorem owner_eq_some : owner rows h? = some source →
    ∃ host ∈ h?, ∃ r ∈ matching rows host, r.sourceId = source := by
  intro h
  obtain ⟨host, hhost, hmap⟩ := Option.bind_eq_some_iff.mp h
  obtain ⟨r, hr, hsource⟩ := Option.map_eq_some_iff.mp hmap
  exact ⟨host, hhost, r, List.mem_of_head? hr, hsource⟩

/-- **Resolution.** Among disjoint rows an artifact is resolved exactly to the owner of its host,
and never ambiguous. -/
theorem resolveArtifact_spec (hdisjoint : DisjointRows rows)
    (hres : resolveArtifact parsers rows kind value = some result) :
    (result.1 = .resolved ↔ (owner rows (hostOf parsers kind value)).isSome) ∧
      result.2 = owner rows (hostOf parsers kind value) ∧ result.1 ≠ .ambiguous := by
  simp only [resolveArtifact] at hres
  split at hres
  · next hkind =>
    cases hres
    have hnone : hostOf parsers kind value = none := by
      simp [hostOf, artifactValueToHost, hkind]
    simp [hnone, owner]
  · split at hres
    · cases hres
    · next hhost =>
      cases hres
      simp [hostOf, hhost, owner]
    · next host hhost =>
      have hsome : hostOf parsers kind value = some host := by rw [hostOf, hhost, Option.join_some]
      rw [hsome]
      split at hres
      · next hmatching =>
        cases hres
        simp [owner, hmatching]
      · next q qs hmatching =>
        have hone := hdisjoint.matching_eq (r := q) (by rw [hmatching]; exact List.mem_cons_self)
        rw [hmatching] at hone
        obtain rfl : qs = [] := (List.cons.inj hone).2
        simp only [List.map_nil, List.all_nil, if_true, Option.some.injEq] at hres
        cases hres
        simp [owner, hmatching]

/-! ### What each operation does -/

theorem put_cases {id : Uuid} {first last : ℤ}
    (h : s.put parsers id kind value first last = some s') :
    ∃ result, resolveArtifact parsers s.domains kind value = some result ∧
      ((s.withHash value = [] ∧ id ∉ s.artifacts.map (·.id) ∧
          s' = { s with artifacts := s.artifacts ++ [⟨id, kind, value, valueHash value, first, last,
            result.2, result.1, s.active⟩] }) ∨
        ∃ existing, s.withHash value = [existing] ∧
          s' = { s with artifacts := s.artifacts.map fun a =>
            if a.id = existing.id then s.resolveAgain result last a else a }) := by
  simp only [put] at h
  split at h
  · cases h
  · next result hhash hres =>
    split at h
    · cases h
    · next hid =>
      cases h
      exact ⟨result, hres, .inl ⟨hhash, hid, rfl⟩⟩
  · next existing result hhash hres =>
    cases h
    exact ⟨result, hres, .inr ⟨existing, hhash, rfl⟩⟩
  · cases h

theorem addDomain_cases (h : s.addDomain parsers r = some s') :
    ∃ pattern, parsers.normalizeHost r.pattern = some pattern ∧
      ∃ new : SourceDomainRow,
        new = { r with pattern, removedAt := none, removedByUserId := none } ∧
        addSourceDomain parsers.normalizeHost s.domains r = .ok (s.domains ++ [new]) ∧
        s' = ⟨s.domains ++ [new], s.artifacts.map
          (sweepArtifact parsers ((s.domains ++ [new]).filter (·.active)) new)⟩ := by
  simp only [addDomain] at h
  split at h
  · cases h
  · next domains hadd =>
    obtain ⟨pattern, hpattern, -, rfl⟩ := addSourceDomain_ok hadd
    rw [List.getLast?_concat] at h
    simp only at h
    split at h
    · cases h
    · cases h
      exact ⟨pattern, hpattern, _, rfl, hadd, rfl⟩

theorem bridgeable_of_host {kind : InfrastructureKind} (h : host ∈ hostOf parsers kind value) :
    kind.bridgeable := by
  by_contra hkind
  rw [Bool.not_eq_true] at hkind
  simp [hostOf, artifactValueToHost, hkind] at h

/-- What the sweep does to an artifact. -/
theorem sweepArtifact_eq (rows : List SourceDomainRow) (new : SourceDomainRow)
    (a : InfrastructureArtifactRow) :
    sweepArtifact parsers rows new a =
      if a.resolutionState = .unresolved ∧
          ∃ host ∈ hostOf parsers a.kind a.value, new.matchesHost host then
        { a with
          resolutionState := .resolved
          resolvedToSourceId := some new.sourceId
          resolvedAmong := rows }
      else a := by
  cases hhost : artifactValueToHost parsers a.kind a.value with
  | none => simp [sweepArtifact, hostOf, hhost]
  | some h? =>
    cases h? with
    | none => simp [sweepArtifact, hostOf, hhost]
    | some host =>
      have hkind : a.kind.bridgeable := bridgeable_of_host (by rw [hostOf, hhost]; rfl)
      by_cases hstate : a.resolutionState = .unresolved
      · simp [sweepArtifact, swept, hostOf, hhost, hstate, hkind]
      · simp [sweepArtifact, swept, hostOf, hhost, hstate]

/-- **Step lemma.** Every operation keeps the active domains disjoint. -/
theorem Sound.step {a : BridgeStep} (h : Sound s) (hstep : step parsers s a = some s') :
    Sound s' := by
  cases a with
  | put id kind value first last =>
    simp only [BridgeState.step] at hstep
    cases hput : s.put parsers id kind value first last with
    | none =>
      rw [hput] at hstep
      cases hstep
      exact h
    | some t =>
      rw [hput, Option.getD_some] at hstep
      cases hstep
      obtain ⟨result, hres, hcases⟩ := put_cases hput
      obtain ⟨-, -, hunamb⟩ := resolveArtifact_spec h.disjoint hres
      rcases hcases with ⟨-, hid, rfl⟩ | ⟨existing, -, rfl⟩
      · refine ⟨h.disjoint, ?_, ?_⟩
        · rw [List.map_append, List.nodup_append]
          refine ⟨h.ids, List.nodup_singleton _, ?_⟩
          rintro x hx y hy rfl
          simp only [List.map_cons, List.map_nil, List.mem_singleton] at hy
          exact hid (hy ▸ hx)
        · intro a ha
          rcases List.mem_append.mp ha with ha | ha
          · exact h.unambiguous a ha
          · rw [List.mem_singleton.mp ha]
            exact hunamb
      · refine ⟨h.disjoint, ?_, ?_⟩
        · have hids : ∀ a, (if a.id = existing.id then s.resolveAgain result last a else a).id =
              a.id := by
            intro a
            split <;> rfl
          simpa [List.map_map, Function.comp_def, hids] using h.ids
        · intro a ha
          obtain ⟨b, hb, rfl⟩ := List.mem_map.mp ha
          split
          · exact hunamb
          · exact h.unambiguous b hb
  | addDomain r =>
    simp only [BridgeState.step] at hstep
    cases hadd : s.addDomain parsers r with
    | none =>
      rw [hadd] at hstep
      cases hstep
      exact h
    | some t =>
      rw [hadd, Option.getD_some] at hstep
      cases hstep
      obtain ⟨pattern, -, new, -, hok, rfl⟩ := addDomain_cases hadd
      refine ⟨h.disjoint.add hok, ?_, ?_⟩
      · have hids : ∀ rows a, (sweepArtifact parsers rows new a).id = a.id := by
          intro rows a
          rw [sweepArtifact_eq]
          split <;> rfl
        simpa [List.map_map, Function.comp_def, hids] using h.ids
      · intro a ha
        obtain ⟨b, hb, rfl⟩ := List.mem_map.mp ha
        rw [sweepArtifact_eq]
        split
        · rintro ⟨⟩
        · exact h.unambiguous b hb
  | removeDomain id stamp user =>
    simp only [BridgeState.step] at hstep
    split at hstep <;> cases hstep
    · exact h
    · next hremove => exact ⟨h.disjoint.remove hremove, h.ids, h.unambiguous⟩
  | swapPrimary source id =>
    simp only [BridgeState.step] at hstep
    split at hstep <;> cases hstep
    · exact h
    · next hswap => exact ⟨h.disjoint.swap hswap, h.ids, h.unambiguous⟩

/-- Every sequence of operations is a run. -/
theorem run_isSome (parsers : HostParsers) (s : BridgeState) (as : List BridgeStep) :
    ∃ s', run (BridgeState.step parsers) s as = some s' := by
  apply exists_run
  intro s a
  cases a with
  | put | addDomain => exact ⟨_, rfl⟩
  | removeDomain | swapPrimary =>
    simp only [BridgeState.step]
    split <;> exact ⟨_, rfl⟩

/-- **Unique resolution.** After any sequence of operations at most one active domain matches a
host; what a host resolves to is that domain, for every order of the rows; and no artifact is or
becomes ambiguous. -/
theorem unique_resolution (parsers : HostParsers) (as : List BridgeStep) :
    ∃ s, run (BridgeState.step parsers) init as = some s ∧
      (∀ host, (matching s.domains host).length ≤ 1) ∧
      (∀ rows, rows.Perm s.domains → ∀ normalize host host', normalize host = some host' →
        ∀ r, findSourceForHost normalize rows host = .ok (some r) ↔ r ∈ matching s.domains host') ∧
      (∀ kind value source,
        resolveArtifact parsers s.domains kind value ≠ some (.ambiguous, source)) ∧
      ∀ a ∈ s.artifacts, a.resolutionState ≠ .ambiguous := by
  obtain ⟨s, hs⟩ := run_isSome parsers init as
  have hsound : Sound s := run_preserves (fun h hstep => h.step hstep) sound_init hs
  refine ⟨s, hs, hsound.disjoint.matching_length, ?_, ?_, hsound.unambiguous⟩
  · intro rows hperm normalize host host' hnorm r
    rw [(hsound.disjoint.perm hperm).findSourceForHost_eq hnorm, mem_matching, mem_matching,
      hperm.mem_iff]
  · intro kind value source hres
    exact (resolveArtifact_spec hsound.disjoint hres).2.2 rfl

/-! ### Faithful artifacts -/

variable {a : InfrastructureArtifactRow}

/-- An artifact that was resolved from another kind and value is faithful exactly when both have
one owner. -/
theorem faithfulArtifact_iff_owner (hdisjoint : DisjointRows rows)
    (hres : resolveArtifact parsers rows kind value = some result)
    (hstate : a.resolutionState = result.1) (hto : a.resolvedToSourceId = result.2)
    (hamong : a.resolvedAmong = rows.filter SourceDomainRow.active) :
    FaithfulArtifact parsers rows a ↔
      owner rows (hostOf parsers kind value) = owner rows (hostOf parsers a.kind a.value) := by
  obtain ⟨hresolved, hsource, -⟩ := resolveArtifact_spec hdisjoint hres
  rw [← hstate] at hresolved
  rw [← hto] at hsource
  refine ⟨?_, ?_⟩
  · intro h
    cases howner : owner rows (hostOf parsers a.kind a.value) with
    | some source =>
      obtain ⟨host, hhost, r, hr, rfl⟩ := owner_eq_some howner
      rw [← hsource, (h.active host hhost r hr).2]
    | none =>
      -- nobody owns the host, so a row that is resolved has a source that never matched
      by_contra hne
      obtain ⟨host, hhost, r, hr, hmatch, -⟩ :=
        h.resolved (hresolved.mpr (Option.isSome_iff_ne_none.mpr hne))
      rw [hamong, List.mem_filter] at hr
      have hmem : r ∈ matching rows host := mem_matching.mpr ⟨hr.1, hr.2, hmatch⟩
      rw [Option.mem_def.mp hhost, owner_eq hdisjoint hmem] at howner
      cases howner
  · intro heq
    rw [heq] at hresolved hsource
    refine ⟨fun hstate => ?_, fun host hhost r hr => ?_⟩
    · obtain ⟨source, howner⟩ := Option.isSome_iff_exists.mp (hresolved.mp hstate)
      obtain ⟨host, hhost, r, hr, rfl⟩ := owner_eq_some howner
      obtain ⟨hmem, hactive, hmatch⟩ := mem_matching.mp hr
      refine ⟨host, hhost, r, ?_, hmatch, hsource.trans howner⟩
      rw [hamong]
      exact List.mem_filter.mpr ⟨hmem, hactive⟩
    · have howner : owner rows (hostOf parsers a.kind a.value) = some r.sourceId := by
        rw [Option.mem_def.mp hhost, owner_eq hdisjoint hr]
      exact ⟨hresolved.mpr (by rw [howner]; rfl), hsource.trans howner⟩

/-- Fewer matches ask for less. -/
theorem FaithfulArtifact.mono {rows' : List SourceDomainRow} (h : FaithfulArtifact parsers rows a)
    (hsub : ∀ host, ∀ r' ∈ matching rows' host, ∃ r ∈ matching rows host,
      r.sourceId = r'.sourceId) :
    FaithfulArtifact parsers rows' a where
  resolved := h.resolved
  active := by
    intro host hhost r' hr'
    obtain ⟨r, hr, hsource⟩ := hsub host r' hr'
    rw [← hsource]
    exact h.active host hhost r hr

theorem matching_remove {id user : Uuid} {stamp : ℤ} {rows' : List SourceDomainRow}
    (h : removeSourceDomain rows id stamp user = .ok rows') (host : String) :
    ∀ r' ∈ matching rows' host, ∃ r ∈ matching rows host, r.sourceId = r'.sourceId := by
  intro r' hr'
  rw [removeSourceDomain_ok h] at hr'
  obtain ⟨hmem, hactive, hmatch⟩ := mem_matching.mp hr'
  obtain ⟨r, hr, rfl⟩ := List.mem_map.mp hmem
  split at hactive
  · simp [SourceDomainRow.active] at hactive
  · next hne =>
    rw [if_neg hne] at hmatch ⊢
    exact ⟨r, mem_matching.mpr ⟨hr, hactive, hmatch⟩, rfl⟩

theorem matching_swap {source id : Uuid} {rows' : List SourceDomainRow}
    (h : swapSourceDomainPrimary rows source id = .ok rows') (host : String) :
    ∀ r' ∈ matching rows' host, ∃ r ∈ matching rows host, r.sourceId = r'.sourceId := by
  obtain ⟨f, rfl, hf⟩ := swapSourceDomainPrimary_ok h
  intro r' hr'
  obtain ⟨hmem, hactive, hmatch⟩ := mem_matching.mp hr'
  obtain ⟨r, hr, rfl⟩ := List.mem_map.mp hmem
  obtain ⟨primary, hfr⟩ := hf r
  rw [hfr] at hactive hmatch ⊢
  exact ⟨r, mem_matching.mpr ⟨hr, hactive, hmatch⟩, rfl⟩

/-- A new domain adds its own matches. -/
theorem mem_matching_concat {new : SourceDomainRow} :
    r ∈ matching (rows ++ [new]) host ↔
      r ∈ matching rows host ∨ r = new ∧ new.active ∧ new.matchesHost host := by
  simp only [mem_matching, List.mem_append, List.mem_singleton]
  refine ⟨?_, ?_⟩
  · rintro ⟨hr | rfl, hactive, hmatch⟩
    · exact .inl ⟨hr, hactive, hmatch⟩
    · exact .inr ⟨rfl, hactive, hmatch⟩
  · rintro (⟨hr, hactive, hmatch⟩ | ⟨rfl, hactive, hmatch⟩)
    · exact ⟨.inl hr, hactive, hmatch⟩
    · exact ⟨.inr rfl, hactive, hmatch⟩

/-- An artifact is faithful to the new domain exactly when it was not resolved elsewhere before. -/
theorem faithful_sweep_iff {new : SourceDomainRow} (h : FaithfulArtifact parsers rows a)
    (hdisjoint : DisjointRows (rows ++ [new])) (hactive : new.active) :
    FaithfulArtifact parsers (rows ++ [new])
        (sweepArtifact parsers ((rows ++ [new]).filter (·.active)) new a) ↔
      ∀ host ∈ hostOf parsers a.kind a.value, new.matchesHost host →
        a.resolutionState = .unresolved ∨
          a.resolutionState = .resolved ∧ a.resolvedToSourceId = some new.sourceId := by
  have hnew : ∀ {host}, new.matchesHost host → new ∈ matching (rows ++ [new]) host :=
    fun hmatch => mem_matching_concat.mpr (.inr ⟨rfl, hactive, hmatch⟩)
  rw [sweepArtifact_eq]
  split
  · next hsweep =>
    obtain ⟨hunresolved, host, hhost, hmatch⟩ := hsweep
    refine iff_of_true ⟨fun _ => ?_, fun host' hhost' r hr => ?_⟩ fun _ _ _ => .inl hunresolved
    · refine ⟨host, hhost, new, ?_, hmatch, rfl⟩
      exact List.mem_filter.mpr ⟨List.mem_append_right _ (List.mem_singleton.mpr rfl), hactive⟩
    · obtain rfl : host' = host := Option.mem_unique hhost' hhost
      rw [hdisjoint.matching_eq (hnew hmatch), List.mem_singleton] at hr
      rw [hr]
      exact ⟨rfl, rfl⟩
  · next hkeep =>
    -- the sweep passes over the artifact, which has to be resolved rightly already
    refine ⟨?_, ?_⟩
    · exact fun h' host hhost hmatch => .inr (h'.active host hhost new (hnew hmatch))
    · refine fun hcond => ⟨h.resolved, fun host hhost r hr => ?_⟩
      rcases mem_matching_concat.mp hr with hr | ⟨rfl, -, hmatch⟩
      · exact h.active host hhost r hr
      · refine (hcond host hhost hmatch).resolve_left fun hunresolved => ?_
        exact hkeep ⟨hunresolved, host, hhost, hmatch⟩

/-- Every artifact with the hash of the value is the one that the write found. -/
theorem Sound.eq_existing {existing : InfrastructureArtifactRow} (h : Sound s)
    (hhash : s.withHash value = [existing]) (ha : a ∈ s.artifacts) (hid : a.id = existing.id) :
    a = existing := by
  have hexisting : existing ∈ s.artifacts :=
    (List.mem_filter.mp (hhash ▸ List.mem_singleton.mpr rfl)).1
  exact List.inj_on_of_nodup_map h.ids ha hexisting hid

/-- **Step lemma.** From a faithful state an operation leads to a faithful state exactly when it is
consistent. -/
theorem Sound.faithful_iff {b : BridgeStep} (h : Sound s) (hfaithful : Faithful parsers s)
    (hstep : BridgeState.step parsers s b = some s') :
    Faithful parsers s' ↔ Consistent parsers s b := by
  cases b with
  | put id kind value first last =>
    simp only [BridgeState.step] at hstep
    cases hput : s.put parsers id kind value first last with
    | none =>
      rw [hput] at hstep
      cases hstep
      exact iff_of_true hfaithful fun hsome => by simp [hput] at hsome
    | some t =>
      rw [hput, Option.getD_some] at hstep
      cases hstep
      have hconsistent : Consistent parsers s (.put id kind value first last) ↔
          ∀ a ∈ s.withHash value, owner s.domains (hostOf parsers kind value) =
            owner s.domains (hostOf parsers a.kind a.value) := by
        simp [Consistent, hput]
      rw [hconsistent]
      obtain ⟨result, hres, ⟨hhash, -, rfl⟩ | ⟨existing, hhash, rfl⟩⟩ := put_cases hput
      · rw [hhash]
        refine iff_of_true (fun a ha => ?_) (by simp)
        rcases List.mem_append.mp ha with ha | ha
        · exact hfaithful a ha
        · rw [List.mem_singleton.mp ha]
          exact (faithfulArtifact_iff_owner h.disjoint hres rfl rfl rfl).mpr rfl
      · -- the row that is found is resolved as the new kind says
        have hagain : FaithfulArtifact parsers s.domains (s.resolveAgain result last existing) ↔
            owner s.domains (hostOf parsers kind value) =
              owner s.domains (hostOf parsers existing.kind existing.value) :=
          faithfulArtifact_iff_owner h.disjoint hres rfl rfl rfl
        have hexisting : existing ∈ s.artifacts :=
          (List.mem_filter.mp (hhash ▸ List.mem_singleton.mpr rfl)).1
        rw [hhash, List.forall_mem_singleton, ← hagain]
        refine ⟨?_, ?_⟩
        · intro hall
          refine hall _ (List.mem_map.mpr ⟨existing, hexisting, ?_⟩)
          rw [if_pos rfl]
        · intro hone a ha
          obtain ⟨b, hb, rfl⟩ := List.mem_map.mp ha
          split
          · next hid =>
            rw [h.eq_existing hhash hb hid]
            exact hone
          · exact hfaithful b hb
  | addDomain r =>
    simp only [BridgeState.step] at hstep
    cases hadd : s.addDomain parsers r with
    | none =>
      rw [hadd] at hstep
      cases hstep
      exact iff_of_true hfaithful fun hsome => by simp [hadd] at hsome
    | some t =>
      rw [hadd, Option.getD_some] at hstep
      cases hstep
      obtain ⟨pattern, hpattern, new, hnew, hok, rfl⟩ := addDomain_cases hadd
      have hsweep := fun a ha => faithful_sweep_iff (hfaithful a ha) (h.disjoint.add hok)
        (show new.active by rw [hnew]; rfl)
      have hconsistent : Consistent parsers s (.addDomain r) ↔ ∀ a ∈ s.artifacts,
          ∀ host ∈ hostOf parsers a.kind a.value, new.matchesHost host →
            a.resolutionState = .unresolved ∨
              a.resolutionState = .resolved ∧ a.resolvedToSourceId = some new.sourceId := by
        rw [hnew]
        simp [Consistent, hadd, hpattern, SourceDomainRow.matchesHost]
      rw [hconsistent, Faithful, List.forall_mem_map]
      exact forall₂_congr hsweep
  | removeDomain id stamp user =>
    simp only [BridgeState.step] at hstep
    refine iff_of_true (fun a ha => ?_) trivial
    split at hstep <;> cases hstep
    · exact hfaithful a ha
    · next hremove => exact (hfaithful a ha).mono (matching_remove hremove)
  | swapPrimary source id =>
    simp only [BridgeState.step] at hstep
    refine iff_of_true (fun a ha => ?_) trivial
    split at hstep <;> cases hstep
    · exact hfaithful a ha
    · next hswap => exact (hfaithful a ha).mono (matching_swap hswap)

/-- **Faithful resolution.** Every state of a run is faithful exactly when all its operations are
consistent. -/
theorem faithful_iff_consistent (parsers : HostParsers) (as : List BridgeStep) :
    Throughout (BridgeState.step parsers) (Faithful parsers) init as ↔
      Along (BridgeState.step parsers) (Consistent parsers) init as := by
  obtain ⟨s, hs⟩ := run_isSome parsers init as
  exact throughout_iff_along (I := fun s => Sound s ∧ Faithful parsers s) (fun h => h.2)
    (fun h hcons hstep => ⟨h.1.step hstep, (h.1.faithful_iff h.2 hstep).mpr hcons⟩)
    (fun h hstep hfaithful => (h.1.faithful_iff h.2 hstep).mp hfaithful)
    ⟨sound_init, by simp [Faithful, init]⟩ hs

end Invariant

/-- Hostnames are taken as they are. -/
def plainParsers : HostParsers := ⟨some, fun _ => some none⟩

/-- A domain of a source. -/
def sampleDomain (id source : Uuid) : SourceDomainRow :=
  ⟨id, source, "foo.com", .suffixMatch, false, 0, none, none, none, none⟩

/-- A domain changes hands, but the artifact stays with the old source; and a value that is
observed as an e-mail address loses the source that its own kind gives it. -/
theorem stale_resolutions :
    (∃ s, run (step plainParsers) init
      [.addDomain (sampleDomain 1 10), .put 2 .domain "x.foo.com" 0 0,
        .removeDomain 1 5 9, .addDomain (sampleDomain 3 20)] = some s ∧
      ∃ a ∈ s.artifacts, hostOf plainParsers a.kind a.value = some "x.foo.com" ∧
        a.resolvedToSourceId = some 10 ∧
        (matching s.domains "x.foo.com").map (·.sourceId) = [20]) ∧
    ∃ s, run (step plainParsers) init
      [.addDomain (sampleDomain 1 10), .put 2 .domain "x.foo.com" 0 0,
        .put 3 .email "x.foo.com" 1 1] = some s ∧
      ∃ a ∈ s.artifacts, a.kind = .domain ∧ a.resolutionState = .notApplicable ∧
        (matching s.domains "x.foo.com").map (·.sourceId) = [10] := by
  decide +kernel

end BridgeState

end Eyenet
