import Eyenet.Machine
import Eyenet.SourceDomain

/-!
# The canonical URL of a source

`set_source_canonical_url` (`sqlmodel_repo/sources.py`) takes a URL only if its host matches the
active primary domain of the source. The URL is kept with the source and the domain is a row of
its own, so `remove_source_domain` and `swap_source_domain_primary` can take the domain away from
under the URL.

* `SourceRegistry.Sound.apply_iff` — which calls keep every URL on its primary domain.
* `SourceRegistry.sound_iff_careful` — exactly when it is there throughout a sequence of calls.
-/

namespace Eyenet

open Machine

/-- A row of `source`, as far as the calls read or write it. -/
structure SourceUrlRow where
  id : Uuid
  canonicalUrl : Option String
  deriving DecidableEq

/-- Why a URL is rejected. -/
inductive CanonicalUrlFault where
  /-- `invalid_url`: unparseable URL -/
  | unparseable (text : String)
  /-- `invalid_url`: URL has no host component -/
  | noHost
  /-- `invalid_url`: the host does not normalize -/
  | badHost
  /-- `no_primary_domain`: source has no active primary SourceDomain -/
  | noPrimaryDomain
  /-- `host_not_owned`: the host does not match the primary domain -/
  | hostNotOwned (host : String) (kind : SourceDomainPatternKind) (pattern : String)
  /-- `source_not_found` -/
  | sourceNotFound
  deriving DecidableEq

/-- `SourceCanonicalUrlError` -/
structure SourceCanonicalUrlError where
  sourceId : Uuid
  fault : CanonicalUrlFault
  deriving DecidableEq

/-- An active primary row of the source. -/
def SourceDomainRow.primaryOf (r : SourceDomainRow) (sourceId : Uuid) : Bool :=
  r.sourceId = sourceId ∧ r.isPrimary ∧ r.active

/-- The sources with their domains. -/
structure SourceRegistry where
  sources : List SourceUrlRow
  domains : List SourceDomainRow
  deriving DecidableEq

/-- A call on the sources. -/
inductive SourceCall where
  | addDomain (r : SourceDomainRow)
  | removeDomain (domainId : Uuid) (removedAt : ℤ) (removedByUserId : Uuid)
  | swapPrimary (sourceId domainId : Uuid)
  | setCanonicalUrl (sourceId : Uuid) (canonicalUrl : Option String)
  deriving DecidableEq

namespace SourceRegistry

/-- Sources without a URL, and no domains. -/
def init (sourceIds : List Uuid) : SourceRegistry := ⟨sourceIds.map fun id => ⟨id, none⟩, []⟩

/-- `_update_source_canonical_url` -/
def updateCanonicalUrl (s : SourceRegistry) (sourceId : Uuid) (canonicalUrl : Option String) :
    Except SourceCanonicalUrlError SourceRegistry :=
  if sourceId ∈ s.sources.map SourceUrlRow.id then
    .ok { s with sources := s.sources.map fun source =>
      if source.id = sourceId then { source with canonicalUrl } else source }
  else .error ⟨sourceId, .sourceNotFound⟩

/-- `_active_primary_domain_for` -/
def activePrimaryDomainFor (s : SourceRegistry) (sourceId : Uuid) : Option SourceDomainRow :=
  s.domains.find? fun r => r.primaryOf sourceId

variable (urlHostname : String → Except String (Option String))
  (normalize : String → Option String)

/-- `_validate_url_host`, with the host name that `urlparse` finds in a URL. -/
def validateUrlHost (url : String) : Except CanonicalUrlFault String :=
  match urlHostname url with
  | .error text => .error (.unparseable text)
  | .ok none => .error .noHost
  | .ok (some hostname) =>
    if hostname = "" then .error .noHost
    else
      match normalize hostname with
      | none => .error .badHost
      | some host => .ok host

/-- `set_source_canonical_url` -/
def setSourceCanonicalUrl (s : SourceRegistry) (sourceId : Uuid) (canonicalUrl : Option String) :
    Except SourceCanonicalUrlError SourceRegistry :=
  match canonicalUrl with
  | none => s.updateCanonicalUrl sourceId none
  | some url =>
    match validateUrlHost urlHostname normalize url with
    | .error fault => .error ⟨sourceId, fault⟩
    | .ok host =>
      match s.activePrimaryDomainFor sourceId with
      | none => .error ⟨sourceId, .noPrimaryDomain⟩
      | some primary =>
        if primary.matchesHost host then s.updateCanonicalUrl sourceId (some url)
        else .error ⟨sourceId, .hostNotOwned host primary.patternKind primary.pattern⟩

/-- The registry after a call; one that raises changes nothing. -/
def apply (s : SourceRegistry) : SourceCall → SourceRegistry
  | .addDomain r =>
    match addSourceDomain normalize s.domains r with
    | .ok rows => { s with domains := rows }
    | .error _ => s
  | .removeDomain domainId removedAt removedByUserId =>
    match removeSourceDomain s.domains domainId removedAt removedByUserId with
    | .ok rows => { s with domains := rows }
    | .error _ => s
  | .swapPrimary sourceId domainId =>
    match swapSourceDomainPrimary s.domains sourceId domainId with
    | .ok rows => { s with domains := rows }
    | .error _ => s
  | .setCanonicalUrl sourceId canonicalUrl =>
    match s.setSourceCanonicalUrl urlHostname normalize sourceId canonicalUrl with
    | .ok s' => s'
    | .error _ => s

/-- A call, as a step. -/
def step (s : SourceRegistry) (call : SourceCall) : Option SourceRegistry :=
  some (s.apply urlHostname normalize call)

/-- The host of the URL matches an active primary row of the source. -/
def OwnsUrl (domains : List SourceDomainRow) (sourceId : Uuid) (url : String) : Prop :=
  ∃ host, validateUrlHost urlHostname normalize url = .ok host ∧
    ∃ r ∈ domains, r.primaryOf sourceId ∧ r.matchesHost host

/-- Every source has at most one active primary domain, and a URL with a host that matches it. -/
structure Sound (s : SourceRegistry) : Prop where
  onePrimary : ∀ sourceId, (s.domains.filter fun r => r.primaryOf sourceId).length ≤ 1
  owned : ∀ source ∈ s.sources, ∀ url, source.canonicalUrl = some url →
    OwnsUrl urlHostname normalize s.domains source.id url

/-- The call does not remove the primary domain of a source with a URL, nor make a domain primary
that the host of the URL does not match. -/
def Careful (s : SourceRegistry) : SourceCall → Prop
  | .addDomain _ => True
  | .setCanonicalUrl _ _ => True
  | .removeDomain domainId _ _ => ∀ r ∈ s.domains, r.id = domainId →
    ∀ source ∈ s.sources, r.primaryOf source.id → source.canonicalUrl = none
  | .swapPrimary sourceId domainId => ∀ r ∈ s.domains, r.id = domainId → r.sourceId = sourceId →
    r.active → ∀ source ∈ s.sources, source.id = sourceId → ∀ url, source.canonicalUrl = some url →
      ∀ host, validateUrlHost urlHostname normalize url = .ok host → r.matchesHost host

/-! ## Unique rows -/

/-- The keys of two rows differ, and they are not active primaries of one source. -/
def Apart (r q : SourceDomainRow) : Prop :=
  r.id ≠ q.id ∧ ∀ sourceId, r.primaryOf sourceId → ¬q.primaryOf sourceId

instance : Std.Symm Apart where
  symm _ _ h := ⟨h.1.symm, fun sourceId hq hr => h.2 sourceId hr hq⟩

/-- Any two rows are apart. -/
def Unique (rows : List SourceDomainRow) : Prop := rows.Pairwise Apart

section Unique

variable {rows rows' : List SourceDomainRow} {r q : SourceDomainRow} {sourceId domainId : Uuid}

theorem unique_of_uniqueRows (h : uniqueRows rows = true) : Unique rows := by
  rw [uniqueRows, Bool.and_eq_true, decide_eq_true_eq, decide_eq_true_eq] at h
  obtain ⟨hids, hprimary⟩ := h
  rw [List.Nodup, List.pairwise_map] at hids hprimary
  rw [List.pairwise_filter] at hprimary
  refine (hids.and hprimary).imp fun {r q} hrq => ⟨hrq.1, fun sourceId hr hq => ?_⟩
  simp only [SourceDomainRow.primaryOf, decide_eq_true_eq] at hr hq
  exact hrq.2 (by simp [hr.2]) (by simp [hq.2]) (hr.1.trans hq.1.symm)

theorem Unique.eq_of_id (h : Unique rows) (hr : r ∈ rows) (hq : q ∈ rows) (hid : r.id = q.id) :
    r = q := by
  by_contra hne
  exact (List.Pairwise.forall h hr hq hne).1 hid

theorem Unique.eq_of_primaryOf (h : Unique rows) (hr : r ∈ rows) (hq : q ∈ rows)
    (hrp : r.primaryOf sourceId) (hqp : q.primaryOf sourceId) : r = q := by
  by_contra hne
  exact (List.Pairwise.forall h hr hq hne).2 sourceId hrp hqp

theorem getSourceDomain_mem (h : getSourceDomain rows domainId = some r) :
    r ∈ rows ∧ r.id = domainId :=
  ⟨List.mem_of_find?_eq_some h, by simpa using List.find?_some h⟩

theorem Unique.getSourceDomain_eq (h : Unique rows) (hr : r ∈ rows) :
    getSourceDomain rows r.id = some r := by
  have hsome : (getSourceDomain rows r.id).isSome := List.find?_isSome.mpr ⟨r, hr, by simp⟩
  obtain ⟨q, hq⟩ := Option.isSome_iff_exists.mp hsome
  obtain ⟨hmem, hid⟩ := getSourceDomain_mem hq
  rw [hq, h.eq_of_id hmem hr hid]

theorem Unique.length_le (h : Unique rows) (sourceId : Uuid) :
    (rows.filter fun r => r.primaryOf sourceId).length ≤ 1 := by
  have hfiltered := List.Pairwise.sublist
    (List.filter_sublist (p := fun r => SourceDomainRow.primaryOf r sourceId)) h
  have hprimary : ∀ r ∈ rows.filter fun r => r.primaryOf sourceId, r.primaryOf sourceId :=
    fun r hr => (List.mem_filter.mp hr).2
  generalize rows.filter (fun r => r.primaryOf sourceId) = primaries at hfiltered hprimary ⊢
  cases primaries with
  | nil => exact Nat.zero_le 1
  | cons r primaries =>
    cases primaries with
    | nil => exact le_rfl
    | cons q primaries =>
      -- two of them would be apart
      have hapart := (List.pairwise_cons.mp hfiltered).1 q List.mem_cons_self
      exact absurd (hprimary q (List.mem_cons_of_mem _ List.mem_cons_self))
        (hapart.2 sourceId (hprimary r List.mem_cons_self))

/-- Rows that keep their keys and sources, and become primary only where they were, stay unique. -/
theorem Unique.map {f : SourceDomainRow → SourceDomainRow} (h : Unique rows)
    (hid : ∀ r, (f r).id = r.id)
    (hprimary : ∀ r ∈ rows, ∀ sourceId, (f r).primaryOf sourceId → r.primaryOf sourceId) :
    Unique (rows.map f) := by
  rw [Unique, List.pairwise_map]
  refine List.Pairwise.imp_of_mem (fun {r q} hr hq hrq => ?_) h
  refine ⟨?_, fun sourceId hrp hqp => ?_⟩
  · rw [hid, hid]
    exact hrq.1
  · exact hrq.2 sourceId (hprimary r hr sourceId hrp) (hprimary q hq sourceId hqp)

/-! ## Removing and swapping -/

/-- Removing a domain leaves the primary rows other than it. -/
theorem mem_removed {stamp : ℤ} {user : Uuid}
    (hremove : removeSourceDomain rows domainId stamp user = .ok rows') :
    r ∈ rows' ∧ r.primaryOf sourceId ↔ r ∈ rows ∧ r.id ≠ domainId ∧ r.primaryOf sourceId := by
  rw [removeSourceDomain_ok hremove, updateSourceDomain, List.mem_map]
  refine ⟨?_, ?_⟩
  · rintro ⟨⟨q, hq, rfl⟩, hprimary⟩
    by_cases hid : q.id = domainId
    · rw [if_pos hid] at hprimary
      simp [SourceDomainRow.primaryOf, SourceDomainRow.active] at hprimary
    · rw [if_neg hid] at hprimary ⊢
      exact ⟨hq, hid, hprimary⟩
  · rintro ⟨hr, hid, hprimary⟩
    exact ⟨⟨r, hr, if_neg hid⟩, hprimary⟩

theorem Unique.remove {stamp : ℤ} {user : Uuid} (h : Unique rows)
    (hremove : removeSourceDomain rows domainId stamp user = .ok rows') : Unique rows' := by
  rw [removeSourceDomain_ok hremove, updateSourceDomain]
  refine h.map (fun r => ?_) fun r _ sourceId hprimary => ?_
  · split_ifs <;> rfl
  · split_ifs at hprimary
    · simp [SourceDomainRow.primaryOf, SourceDomainRow.active] at hprimary
    · exact hprimary

/-- A row after the swap. -/
def swapped (sourceId domainId : Uuid) (r : SourceDomainRow) : SourceDomainRow :=
  if r.id = domainId then { r with isPrimary := true }
  else if r.primaryOf sourceId then { r with isPrimary := false } else r

/-- What a successful swap does; its target belongs to the source and is active. -/
theorem swapSourceDomainPrimary_eq
    (hswap : swapSourceDomainPrimary rows sourceId domainId = .ok rows') :
    ∃ target ∈ rows, target.id = domainId ∧ target.sourceId = sourceId ∧ target.active ∧
      rows' = rows.map (swapped sourceId domainId) := by
  simp only [swapSourceDomainPrimary] at hswap
  split at hswap
  · cases hswap
  · next target htarget =>
    split_ifs at hswap with hsource hactive
    obtain ⟨hmem, hid⟩ := getSourceDomain_mem htarget
    refine ⟨target, hmem, hid, not_not.mp hsource, by simpa using hactive, ?_⟩
    rw [← Except.ok.inj hswap, updateSourceDomain, List.map_map]
    refine List.map_congr_left fun r _ => ?_
    rw [swapped]
    by_cases hr : r.id = domainId
    · simp [hr]
    · by_cases hp : r.primaryOf sourceId
      · have hprimary := hp
        simp only [SourceDomainRow.primaryOf, decide_eq_true_eq] at hprimary
        simp [hr, hp, hprimary]
      · have hprimary := hp
        simp only [SourceDomainRow.primaryOf, decide_eq_true_eq] at hprimary
        simp [hr, hp, hprimary]

theorem matchesHost_swapped (r : SourceDomainRow) (host : String) :
    (swapped sourceId domainId r).matchesHost host = r.matchesHost host := by
  rw [swapped]
  split_ifs <;> rfl

theorem id_swapped (r : SourceDomainRow) : (swapped sourceId domainId r).id = r.id := by
  rw [swapped]
  split_ifs <;> rfl

/-- The target alone is primary for its source, and the other sources stay as they are. -/
theorem Unique.primaryOf_swapped {src : Uuid} (h : Unique rows) (htarget : q ∈ rows)
    (hid : q.id = domainId) (hsource : q.sourceId = sourceId) (hactive : q.active) (hr : r ∈ rows) :
    (swapped sourceId domainId r).primaryOf src ↔
      if r.id = domainId then src = sourceId else src ≠ sourceId ∧ r.primaryOf src := by
  rw [swapped]
  by_cases hrid : r.id = domainId
  · obtain rfl : r = q := h.eq_of_id hr htarget (hrid.trans hid.symm)
    have hstill : (SourceDomainRow.active { r with isPrimary := true }) = true := hactive
    rw [if_pos hrid, if_pos hrid, SourceDomainRow.primaryOf, decide_eq_true_eq]
    exact ⟨fun h => h.1.symm.trans hsource, fun h => ⟨hsource.trans h.symm, rfl, hstill⟩⟩
  · rw [if_neg hrid, if_neg hrid]
    split_ifs with hprimary
    · have hrsource : r.sourceId = sourceId := (of_decide_eq_true hprimary).1
      refine iff_of_false (by simp [SourceDomainRow.primaryOf]) fun h => h.1 ?_
      exact (of_decide_eq_true h.2).1.symm.trans hrsource
    · refine ⟨fun h => ⟨?_, h⟩, fun h => h.2⟩
      rintro rfl
      exact hprimary h

theorem Unique.swap (h : Unique rows)
    (hswap : swapSourceDomainPrimary rows sourceId domainId = .ok rows') : Unique rows' := by
  obtain ⟨target, hmem, htarget, hsource, hactive, rfl⟩ := swapSourceDomainPrimary_eq hswap
  rw [Unique, List.pairwise_map]
  refine List.Pairwise.imp_of_mem (fun {r q} hr hq hrq => ⟨?_, fun src hrp hqp => ?_⟩) h
  · rw [id_swapped, id_swapped]
    exact hrq.1
  · rw [h.primaryOf_swapped hmem htarget hsource hactive hr] at hrp
    rw [h.primaryOf_swapped hmem htarget hsource hactive hq] at hqp
    split_ifs at hrp hqp with hrid hqid hqid
    · exact hrq.1 (hrid.trans hqid.symm)
    · exact hqp.1 hrp
    · exact hrp.1 hqp
    · exact hrq.2 src hrp.2 hqp.2

end Unique

/-! ## One call -/

section Calls

variable {urlHostname : String → Except String (Option String)} {normalize : String → Option String}
  {s s' : SourceRegistry} {call : SourceCall} {rows' : List SourceDomainRow}
  {sourceId domainId : Uuid} {url : String}

theorem Unique.add {rows : List SourceDomainRow} {r : SourceDomainRow}
    (hadd : addSourceDomain normalize rows r = .ok rows') : Unique rows' ∧ rows ⊆ rows' := by
  simp only [addSourceDomain] at hadd
  split at hadd
  · cases hadd
  · split at hadd
    · cases hadd
    · split_ifs at hadd with hchecks
      obtain rfl := Except.ok.inj hadd
      exact ⟨unique_of_uniqueRows hchecks.2, List.subset_append_left _ _⟩

theorem OwnsUrl.mono {rows : List SourceDomainRow}
    (h : OwnsUrl urlHostname normalize rows sourceId url) (hsub : rows ⊆ rows') :
    OwnsUrl urlHostname normalize rows' sourceId url := by
  obtain ⟨host, hhost, r, hr, hprimary, hmatch⟩ := h
  exact ⟨host, hhost, r, hsub hr, hprimary, hmatch⟩

/-- What `_update_source_canonical_url` changes. -/
theorem updateCanonicalUrl_ok {canonicalUrl : Option String}
    (h : s.updateCanonicalUrl sourceId canonicalUrl = .ok s') : s'.domains = s.domains ∧
      ∀ source ∈ s'.sources, source ∈ s.sources ∨
        source.id = sourceId ∧ source.canonicalUrl = canonicalUrl := by
  rw [updateCanonicalUrl] at h
  split_ifs at h
  obtain rfl := Except.ok.inj h
  refine ⟨rfl, fun source hsource => ?_⟩
  obtain ⟨old, hold, rfl⟩ := List.mem_map.mp hsource
  split_ifs with hid
  · exact Or.inr ⟨hid, rfl⟩
  · exact Or.inl hold

/-- A URL is set only where the source owns it. -/
theorem setSourceCanonicalUrl_ok {canonicalUrl : Option String}
    (h : s.setSourceCanonicalUrl urlHostname normalize sourceId canonicalUrl = .ok s') :
    s.updateCanonicalUrl sourceId canonicalUrl = .ok s' ∧
      ∀ url, canonicalUrl = some url → OwnsUrl urlHostname normalize s.domains sourceId url := by
  cases canonicalUrl with
  | none => exact ⟨h, by simp⟩
  | some url =>
    simp only [setSourceCanonicalUrl] at h
    split at h
    · cases h
    · next host hhost =>
      split at h
      · cases h
      · next primary hprimary =>
        split_ifs at h with hmatch
        refine ⟨h, fun url' hurl => ?_⟩
        obtain rfl := Option.some.inj hurl
        rw [activePrimaryDomainFor] at hprimary
        exact ⟨host, hhost, primary, List.mem_of_find?_eq_some hprimary,
          List.find?_some (p := fun r => SourceDomainRow.primaryOf r sourceId) hprimary, hmatch⟩

theorem unique_apply (h : Unique s.domains) :
    Unique (s.apply urlHostname normalize call).domains := by
  cases call with
  | addDomain r =>
    rw [apply]
    split
    · next hadd => exact (Unique.add hadd).1
    · exact h
  | removeDomain domainId removedAt user =>
    rw [apply]
    split
    · next hremove => exact h.remove hremove
    · exact h
  | swapPrimary sourceId domainId =>
    rw [apply]
    split
    · next hswap => exact h.swap hswap
    · exact h
  | setCanonicalUrl sourceId canonicalUrl =>
    rw [apply]
    split
    · next hset =>
      rw [(updateCanonicalUrl_ok (setSourceCanonicalUrl_ok hset).1).1]
      exact h
    · exact h

/-- Adding a domain leaves every URL on its primary domain, -/
theorem Sound.addDomain (h : s.Sound urlHostname normalize) (hu : Unique s.domains)
    (r : SourceDomainRow) :
    (s.apply urlHostname normalize (.addDomain r)).Sound urlHostname normalize := by
  refine ⟨(unique_apply hu).length_le, ?_⟩
  rw [apply]
  split
  · next hadd =>
    exact fun source hsource url hurl => (h.owned source hsource url hurl).mono (Unique.add hadd).2
  · exact h.owned

/-- and so does setting a URL. -/
theorem Sound.setCanonicalUrl (h : s.Sound urlHostname normalize) (hu : Unique s.domains)
    (sourceId : Uuid) (canonicalUrl : Option String) :
    (s.apply urlHostname normalize (.setCanonicalUrl sourceId canonicalUrl)).Sound urlHostname
      normalize := by
  refine ⟨(unique_apply hu).length_le, ?_⟩
  rw [apply]
  split
  · next hset =>
    obtain ⟨hupdate, howns⟩ := setSourceCanonicalUrl_ok hset
    obtain ⟨hdomains, hsources⟩ := updateCanonicalUrl_ok hupdate
    intro source hsource url hurl
    rw [hdomains]
    rcases hsources source hsource with hold | ⟨rfl, hnew⟩
    · exact h.owned source hold url hurl
    · exact howns url (hnew.symm.trans hurl)
  · exact h.owned

/-- Removing a domain does exactly if it is not the primary one under a URL, -/
theorem Sound.removeDomain_iff (h : s.Sound urlHostname normalize) (hu : Unique s.domains)
    (removedAt : ℤ) (user : Uuid) :
    (s.apply urlHostname normalize (.removeDomain domainId removedAt user)).Sound urlHostname
        normalize ↔
      s.Careful urlHostname normalize (.removeDomain domainId removedAt user) := by
  rw [Careful]
  cases hremove : removeSourceDomain s.domains domainId removedAt user with
  | error e =>
    simp only [apply, hremove]
    refine iff_of_true h fun r hr hid source hsource hprimary => ?_
    -- an active row that is there would have been removed
    rw [removeSourceDomain, ← hid, hu.getSourceDomain_eq hr] at hremove
    have hactive : r.active = true := (of_decide_eq_true hprimary).2.2
    simp [hactive] at hremove
  | ok rows =>
    simp only [apply, hremove]
    refine ⟨?_, ?_⟩
    · intro hafter r hr hid source hsource hprimary
      by_contra hset
      obtain ⟨url, hurl⟩ := Option.ne_none_iff_exists'.mp hset
      obtain ⟨-, -, q, hq, hqp, -⟩ := hafter.owned source hsource url hurl
      obtain ⟨hq, hqid, hqp⟩ := (mem_removed hremove).mp ⟨hq, hqp⟩
      rw [hu.eq_of_primaryOf hq hr hqp hprimary] at hqid
      exact hqid hid
    · intro hcareful
      refine ⟨(hu.remove hremove).length_le, fun source hsource url hurl => ?_⟩
      obtain ⟨host, hhost, r, hr, hprimary, hmatch⟩ := h.owned source hsource url hurl
      have hid : r.id ≠ domainId := by
        intro hid
        rw [hcareful r hr hid source hsource hprimary] at hurl
        cases hurl
      exact ⟨host, hhost, r, ((mem_removed hremove).mpr ⟨hr, hid, hprimary⟩).1, hprimary, hmatch⟩

/-- and a swap does exactly if its target matches the URL of the source. -/
theorem Sound.swapPrimary_iff (h : s.Sound urlHostname normalize) (hu : Unique s.domains) :
    (s.apply urlHostname normalize (.swapPrimary sourceId domainId)).Sound urlHostname normalize ↔
      s.Careful urlHostname normalize (.swapPrimary sourceId domainId) := by
  rw [Careful]
  cases hswap : swapSourceDomainPrimary s.domains sourceId domainId with
  | error e =>
    simp only [apply, hswap]
    refine iff_of_true h fun r hr hid hsource hactive => ?_
    -- an active row of the source would have become primary
    rw [swapSourceDomainPrimary, ← hid, hu.getSourceDomain_eq hr] at hswap
    simp [hsource, hactive] at hswap
  | ok rows =>
    have hrows := hu.swap hswap
    obtain ⟨target, hmem, hid, hsource, hactive, rfl⟩ := swapSourceDomainPrimary_eq hswap
    have hswapped : ∀ r ∈ s.domains, ∀ src, (swapped sourceId domainId r).primaryOf src ↔
        if r.id = domainId then src = sourceId else src ≠ sourceId ∧ r.primaryOf src :=
      fun r hr src => hu.primaryOf_swapped hmem hid hsource hactive hr
    simp only [apply, hswap]
    refine ⟨?_, ?_⟩
    · intro hafter r hr hrid _ _ source hsrc rfl url hurl host hhost
      obtain ⟨host', hhost', q', hq', hqp, hmatch⟩ := hafter.owned source hsrc url hurl
      obtain rfl : host' = host := Except.ok.inj (hhost'.symm.trans hhost)
      obtain ⟨q, hq, rfl⟩ := List.mem_map.mp hq'
      rw [hswapped q hq] at hqp
      split_ifs at hqp with hqid
      · rwa [matchesHost_swapped, hu.eq_of_id hq hr (hqid.trans hrid.symm)] at hmatch
      · exact absurd rfl hqp.1
    · intro hcareful
      refine ⟨hrows.length_le, fun source hsrc url hurl => ?_⟩
      obtain ⟨host, hhost, r, hr, hprimary, hmatch⟩ := h.owned source hsrc url hurl
      by_cases hown : source.id = sourceId
      · refine ⟨host, hhost, _, List.mem_map_of_mem hmem, ?_, ?_⟩
        · rw [hswapped target hmem, if_pos hid]
          exact hown
        · rw [matchesHost_swapped]
          exact hcareful target hmem hid hsource hactive source hsrc hown url hurl host hhost
      · refine ⟨host, hhost, _, List.mem_map_of_mem hr, ?_, ?_⟩
        · rw [hswapped r hr, if_neg]
          · exact ⟨hown, hprimary⟩
          · -- the target belongs to the other source
            intro hrid
            rw [hu.eq_of_id hr hmem (hrid.trans hid.symm)] at hprimary
            exact hown ((of_decide_eq_true hprimary).1.symm.trans hsource)
        · rwa [matchesHost_swapped]

/-- A call keeps the URLs on their primary domains exactly if it is careful. -/
theorem Sound.apply_iff (h : s.Sound urlHostname normalize) (hu : Unique s.domains)
    (call : SourceCall) : (s.apply urlHostname normalize call).Sound urlHostname normalize ↔
      s.Careful urlHostname normalize call := by
  cases call with
  | addDomain r => exact iff_of_true (h.addDomain hu r) trivial
  | removeDomain domainId removedAt user => exact h.removeDomain_iff hu removedAt user
  | swapPrimary sourceId domainId => exact h.swapPrimary_iff hu
  | setCanonicalUrl sourceId canonicalUrl =>
    exact iff_of_true (h.setCanonicalUrl hu sourceId canonicalUrl) trivial

theorem sound_init (sourceIds : List Uuid) : (init sourceIds).Sound urlHostname normalize := by
  refine ⟨fun _ => Nat.zero_le 1, fun source hsource url hurl => ?_⟩
  obtain ⟨id, -, rfl⟩ := List.mem_map.mp hsource
  cases hurl

/-- **The URL and the primary domain.** From sources without URLs and domains, throughout any
sequence of calls, every source has at most one active primary domain and a URL, if any, whose host
matches it, exactly when no call removes the primary domain from under a URL or makes one primary
that its host does not match. -/
theorem sound_iff_careful (urlHostname : String → Except String (Option String))
    (normalize : String → Option String) (sourceIds : List Uuid) (calls : List SourceCall) :
    Throughout (step urlHostname normalize) (Sound urlHostname normalize) (init sourceIds) calls ↔
      Along (step urlHostname normalize) (Careful urlHostname normalize) (init sourceIds)
        calls := by
  obtain ⟨s', hrun⟩ : ∃ s', run (step urlHostname normalize) (init sourceIds) calls = some s' :=
    exists_run (fun s call => ⟨_, rfl⟩) (init sourceIds) calls
  have hinit : Unique (init sourceIds).domains ∧ (init sourceIds).Sound urlHostname normalize :=
    ⟨List.Pairwise.nil, sound_init sourceIds⟩
  refine throughout_iff_along (I := fun s => Unique s.domains ∧ s.Sound urlHostname normalize)
    And.right ?_ ?_ hinit hrun
  · rintro s call t ⟨hu, h⟩ hcareful hstep
    obtain rfl := Option.some.inj hstep
    exact ⟨unique_apply hu, (h.apply_iff hu call).mpr hcareful⟩
  · rintro s call t ⟨hu, h⟩ hstep hsound
    obtain rfl := Option.some.inj hstep
    exact (h.apply_iff hu call).mp hsound

/-- A source has at most one active primary domain in any case. -/
theorem length_primary_le {sourceIds : List Uuid} {calls : List SourceCall}
    (hrun : run (step urlHostname normalize) (init sourceIds) calls = some s) (sourceId : Uuid) :
    (s.domains.filter fun r => r.primaryOf sourceId).length ≤ 1 := by
  refine Unique.length_le (run_preserves (I := fun s => Unique s.domains)
    (fun {s call t} hu hstep => ?_) ?_ hrun) sourceId
  · obtain rfl := Option.some.inj hstep
    exact unique_apply hu
  · exact List.Pairwise.nil

end Calls

/-- The domain of a forum, and a mirror. -/
def sampleDomain (id : Uuid) (pattern : String) (isPrimary : Bool) : SourceDomainRow :=
  ⟨id, 1, pattern, .exact, isPrimary, 0, none, none, none, none⟩

/-- The URL stays when its domain is removed, and when another one becomes primary. -/
theorem url_without_primary :
    (∃ s, run (step (fun _ => .ok (some "forum.example")) some) (init [1])
        [.addDomain (sampleDomain 10 "forum.example" true),
          .setCanonicalUrl 1 (some "https://forum.example/"), .removeDomain 10 5 7] = some s ∧
      ¬s.Sound (fun _ => .ok (some "forum.example")) some) ∧
    ∃ s, run (step (fun _ => .ok (some "forum.example")) some) (init [1])
        [.addDomain (sampleDomain 10 "forum.example" true),
          .setCanonicalUrl 1 (some "https://forum.example/"),
          .addDomain (sampleDomain 11 "mirror.example" false), .swapPrimary 1 11] = some s ∧
      ¬s.Sound (fun _ => .ok (some "forum.example")) some := by
  refine ⟨⟨⟨[⟨1, some "https://forum.example/"⟩], [⟨10, 1, "forum.example", .exact, true, 0, none,
      some 5, some 7, none⟩]⟩, by decide +kernel, fun h => ?_⟩,
    ⟨⟨[⟨1, some "https://forum.example/"⟩], [sampleDomain 10 "forum.example" false,
      sampleDomain 11 "mirror.example" true]⟩, by decide +kernel, fun h => ?_⟩⟩
  · obtain ⟨host, -, r, hr, hprimary, -⟩ := h.owned _ List.mem_cons_self _ rfl
    rw [List.mem_singleton.mp hr] at hprimary
    revert hprimary
    decide
  · obtain ⟨host, hhost, hmatch⟩ := h.owned _ List.mem_cons_self _ rfl
    obtain rfl : "forum.example" = host := Except.ok.inj hhost
    revert hmatch
    decide

end SourceRegistry

end Eyenet
