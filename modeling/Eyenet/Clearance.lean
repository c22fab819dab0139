import Eyenet.Calls
import Eyenet.Enums
import Eyenet.Machine
import Mathlib.Data.List.MinMax
import Mathlib.Data.List.Dedup
import Mathlib.Data.List.Sort
import Mathlib.Data.String.Basic

/-!
# Clearance: grants, the scope cache and access tokens

A row above the normal tier is read only with the clearance scope of its tier. A clearance is a
grant with a bounded lifetime that can be revoked (`sqlmodel_repo/clearance.py`); a request
carries it as one of its effective scopes. These are resolved from the database, kept in a cache
for some seconds (`auth/_cache.py`), and frozen into the personal access tokens minted under them
(`api_mint_token.py`, `deps.py`).

A request is split at its awaits, so that grants can come and go between any two of its steps. A
scope that no live grant backs any more can still be carried by a cache entry, a token or a
request in flight:

* `AuthState.Carries` — where a scope can be carried.
* `AuthState.Keeps` — a step does not end the last grant of a scope that is still carried.
* `tier_clearance_exact` — while every step keeps the scope, a request passes its tier check only
  under an active grant.
* `resolveTierGrant_active` — the journal path looks the grant up itself.
-/

namespace Eyenet

open Machine

/-! ## Scopes -/

/-- The scopes that are only held through a grant. -/
inductive ClearanceScope where
  | readRestricted
  | readClassified
  | adminReclassify
  | adminCase
  deriving DecidableEq, Repr

/-- The scope string. -/
def ClearanceScope.value : ClearanceScope → String
  | readRestricted => "read:restricted"
  | readClassified => "read:classified"
  | adminReclassify => "admin:reclassify"
  | adminCase => "admin:case"

theorem ClearanceScope.value_injective : Function.Injective ClearanceScope.value := by
  intro a b h
  cases a <;> cases b <;> first | rfl | exact absurd h (by decide)

inductive SystemUserRole where
  | admin
  | analyst
  | viewer
  deriving DecidableEq, Repr

/-- `ROLE_BASELINE` -/
def roleBaseline : SystemUserRole → List String
  | .admin => ["read:actors", "read:personas", "read:linkages", "read:observations", "read:audit",
      "read:graph", "read:metrics", "read:cases", "write:actors", "write:linkage_decision",
      "write:persona_decision", "write:identity", "write:cases", "write:documents",
      "read:sources", "write:sources", "read:collectors", "write:collectors",
      "admin:collectors", "read:candidates", "write:candidates", "read:groups", "write:groups",
      "stream:linkages", "stream:personas", "stream:audit", "stream:control", "read:incidents",
      "write:incidents", "stream:incidents", "admin:incident_rules", "admin:users",
      "admin:tokens"]
  | .analyst => ["read:actors", "read:personas", "read:linkages", "read:observations",
      "read:audit", "read:graph", "read:cases", "write:actors", "write:linkage_decision",
      "write:persona_decision", "write:identity", "write:cases", "write:documents",
      "read:sources", "write:sources", "read:collectors", "write:collectors",
      "read:candidates", "write:candidates", "read:groups", "write:groups",
      "stream:linkages", "stream:personas", "read:incidents", "write:incidents",
      "stream:incidents"]
  | .viewer => ["read:actors", "read:personas", "read:linkages", "read:graph", "read:incidents"]

/-- No role comes with a clearance. -/
theorem value_not_mem_roleBaseline (k : ClearanceScope) (role : SystemUserRole) :
    k.value ∉ roleBaseline role := by
  cases k <;> cases role <;> decide

/-- `_GRANTABLE`: the scopes that `eyenet user scopes grant` hands out. -/
def grantable : List String := roleBaseline .admin ++ roleBaseline .analyst ++ roleBaseline .viewer

theorem value_not_mem_grantable (k : ClearanceScope) : k.value ∉ grantable := by
  simp [grantable, value_not_mem_roleBaseline]

/-- `_CLEARANCE` -/
def clearanceValues : List String :=
  [ClearanceScope.readRestricted, .readClassified, .adminReclassify, .adminCase].map (·.value)

/-! ## Grants -/

/-- A row of `system_user_clearance_grant`; times are instants. -/
structure ClearanceGrantRow where
  id : Uuid
  userId : Uuid
  scope : ClearanceScope
  grantedByUserId : Uuid
  reason : String
  grantedAt : ℤ
  expiresAt : ℤ
  revokedAt : Option ℤ
  revokedByUserId : Option Uuid
  revocationReason : Option String
  deriving DecidableEq

namespace ClearanceGrantRow

/-- The `WHERE` of `active_clearance_grants_for`: not revoked and not expired. -/
def live (now : ℤ) (g : ClearanceGrantRow) : Bool :=
  g.revokedAt.isNone && decide (now < g.expiresAt)

/-- The active-grant predicate: `granted_at <= now AND expires_at > now AND revoked_at IS NULL`. -/
def Active (now : ℤ) (g : ClearanceGrantRow) : Prop :=
  g.grantedAt ≤ now ∧ now < g.expiresAt ∧ g.revokedAt = none

instance (now : ℤ) (g : ClearanceGrantRow) : Decidable (g.Active now) :=
  inferInstanceAs (Decidable (g.grantedAt ≤ now ∧ now < g.expiresAt ∧ g.revokedAt = none))

/-- The query leaves out the date of the grant. -/
theorem active_iff {now : ℤ} {g : ClearanceGrantRow} :
    g.Active now ↔ g.grantedAt ≤ now ∧ g.live now := by
  simp only [Active, live, Bool.and_eq_true, Option.isNone_iff_eq_none, decide_eq_true_iff]
  tauto

end ClearanceGrantRow

/-- Why `grant_clearance` or `revoke_clearance` refuses. -/
inductive ClearanceGrantError where
  /-- expires_at must be strictly after granted_at -/
  | notAfterGranted
  /-- grant duration exceeds 90-day cap -/
  | exceedsCap (duration : ℤ)
  /-- reason must be at least 16 characters -/
  | reasonTooShort
  /-- revocation reason must be at least 16 characters -/
  | revocationReasonTooShort
  /-- the grant is not found -/
  | notFound (id : Uuid)
  /-- the grant has already expired -/
  | alreadyExpired (id : Uuid)
  /-- the database's own CHECK: a revocation is not dated before its grant -/
  | revokedBeforeGranted
  deriving DecidableEq

/-- `MAX_GRANT_DURATION`: ninety days. -/
def maxGrantDuration : ℤ := 90 * 86400 * 1000000

/-- `_MIN_REASON_LEN` of the clearance store -/
def clearanceMinReasonLen : ℕ := 16

/-- `grant_clearance`: the row that it inserts. -/
def grantClearance (id granteeUserId granterUserId : Uuid) (scope : ClearanceScope)
    (reason : String) (expiresAt grantedAt : ℤ) : Except ClearanceGrantError ClearanceGrantRow :=
  if expiresAt ≤ grantedAt then .error .notAfterGranted
  else if expiresAt - grantedAt > maxGrantDuration then
    .error (.exceedsCap (expiresAt - grantedAt))
  else if reason.length < clearanceMinReasonLen then .error .reasonTooShort
  else .ok {
    id, userId := granteeUserId, scope, grantedByUserId := granterUserId, reason, grantedAt
    expiresAt, revokedAt := none, revokedByUserId := none, revocationReason := none }

/-- `revoke_clearance`: the row as it leaves it. -/
def revokeClearance (grants : List ClearanceGrantRow) (id revokerUserId : Uuid)
    (reason : String) (revokedAt : ℤ) : Except ClearanceGrantError ClearanceGrantRow :=
  if reason.length < clearanceMinReasonLen then .error .revocationReasonTooShort
  else match grants.find? fun g => g.id == id with
    | none => .error (.notFound id)
    | some g =>
      if g.revokedAt.isSome then .ok g
      else if g.expiresAt ≤ revokedAt then .error (.alreadyExpired id)
      else if revokedAt < g.grantedAt then .error .revokedBeforeGranted
      else .ok { g with
        revokedAt := some revokedAt
        revokedByUserId := some revokerUserId
        revocationReason := some reason }

/-- `active_clearance_grants_for` -/
def activeClearanceGrantsFor (grants : List ClearanceGrantRow) (userId : Uuid) (now : ℤ) :
    List ClearanceGrantRow :=
  grants.filter fun g => g.userId == userId && g.live now

theorem mem_activeClearanceGrantsFor {grants : List ClearanceGrantRow} {u : Uuid} {now : ℤ}
    {g : ClearanceGrantRow} :
    g ∈ activeClearanceGrantsFor grants u now ↔ g ∈ grants ∧ g.userId = u ∧ g.live now := by
  simp [activeClearanceGrantsFor]

/-! ## Users and their effective scopes -/

/-- The fields of a system user that authorization reads. -/
structure SystemUser where
  role : SystemUserRole
  isActive : Bool
  deriving DecidableEq

/-- `resolve_effective_scopes`: baseline, explicit scopes and clearance scopes. -/
def resolveEffectiveScopes (user : SystemUser) (explicitGrants : List String)
    (activeClearanceGrants : List ClearanceGrantRow) : List String :=
  roleBaseline user.role ++ explicitGrants ++ activeClearanceGrants.map (·.scope.value)

/-- A clearance among the effective scopes comes from a grant or from an explicit scope. -/
theorem value_mem_resolveEffectiveScopes {user : SystemUser} {explicitGrants : List String}
    {gs : List ClearanceGrantRow} {k : ClearanceScope} :
    k.value ∈ resolveEffectiveScopes user explicitGrants gs ↔
      k.value ∈ explicitGrants ∨ ∃ g ∈ gs, g.scope = k := by
  simp only [resolveEffectiveScopes, List.mem_append, value_not_mem_roleBaseline, false_or,
    List.mem_map, ClearanceScope.value_injective.eq_iff]

/-! ## The tier check -/

/-- `_TIER_SCOPE` -/
def tierScope : SensitivityTier → Option ClearanceScope
  | .normal => none
  | .restricted => some .readRestricted
  | .classified => some .readClassified

/-- The 403 response, naming the missing scope. -/
structure ScopeForbidden where
  scope : String
  deriving DecidableEq

/-- `enforce_tier_clearance` -/
def enforceTierClearance (effectiveScopes : List String) (effectiveTier : SensitivityTier) :
    Except ScopeForbidden Unit :=
  match tierScope effectiveTier with
  | none => .ok ()
  | some needed =>
    if needed.value ∉ effectiveScopes then .error ⟨needed.value⟩ else .ok ()

theorem enforceTierClearance_ok_iff {scopes : List String} {tier : SensitivityTier}
    {k : ClearanceScope} (htier : tierScope tier = some k) :
    enforceTierClearance scopes tier = .ok () ↔ k.value ∈ scopes := by
  simp [enforceTierClearance, htier]

/-- `resolve_tier_grant`: the tier check and the grant that the journal row names. -/
def resolveTierGrant (userId : Uuid) (effectiveScopes : List String)
    (grants : List ClearanceGrantRow) (effectiveTier : SensitivityTier) (now : ℤ) :
    Except ScopeForbidden (Option Uuid) :=
  match tierScope effectiveTier with
  | none => .ok none
  | some needed =>
    if needed.value ∉ effectiveScopes then .error ⟨needed.value⟩
    else
      let matching := (activeClearanceGrantsFor grants userId now).filter (·.scope == needed)
      -- the grant that expires last, in the order of the integers
      match @List.argmax _ _ Int.instLinearOrder.toPreorder _ (·.expiresAt) matching with
      | none => .error ⟨needed.value⟩
      | some g => .ok (some g.id)

/-- The grant that the journal path names is live, and no live grant of that scope lives longer. -/
theorem resolveTierGrant_active {u id : Uuid} {scopes : List String}
    {grants : List ClearanceGrantRow} {tier : SensitivityTier} {k : ClearanceScope} {now : ℤ}
    (htier : tierScope tier = some k)
    (h : resolveTierGrant u scopes grants tier now = .ok (some id)) :
    ∃ g ∈ grants, g.id = id ∧ g.userId = u ∧ g.scope = k ∧ g.live now ∧
      ∀ g' ∈ grants, g'.userId = u → g'.scope = k → g'.live now → g'.expiresAt ≤ g.expiresAt := by
  simp only [resolveTierGrant, htier] at h
  split at h
  · cases h
  split at h
  · cases h
  · next g hg =>
    obtain rfl : g.id = id := by simpa using h
    have hmem := List.argmax_mem hg
    rw [List.mem_filter, mem_activeClearanceGrantsFor] at hmem
    refine ⟨g, hmem.1.1, rfl, hmem.1.2.1, by simpa using hmem.2, hmem.1.2.2, ?_⟩
    intro g' hg' hu hk hlive
    refine List.le_of_mem_argmax ?_ hg
    rw [List.mem_filter, mem_activeClearanceGrantsFor]
    exact ⟨⟨hg', hu, hlive⟩, by simpa using hk⟩

/-! ## Tokens, cache and requests -/

/-- A row of `personal_access_token`; its scopes are frozen at mint. -/
structure PersonalAccessTokenRow where
  tokenId : Uuid
  userId : Uuid
  scopes : List String
  createdAt : ℤ
  expiresAt : Option ℤ
  revokedAt : Option ℤ
  deriving DecidableEq

/-- `_resolve_pat` accepts the row: it is not revoked and not expired. -/
def PersonalAccessTokenRow.usable (now : ℤ) (p : PersonalAccessTokenRow) : Bool :=
  p.revokedAt.isNone && p.expiresAt.all fun e => decide (now < e)

/-- `AuthContext` -/
structure AuthContext where
  user : SystemUser
  effectiveScopes : List String
  loadedAt : ℤ
  deriving DecidableEq

/-- An entry of the cache, until its time to live is over. -/
structure CacheEntry where
  userId : Uuid
  context : AuthContext
  expires : ℤ
  deriving DecidableEq

/-- Where a request stands. `frozen` are the scopes of the access token it came with, if any, and
`now` is the clock that it read on arrival. -/
inductive RequestPhase where
  /-- the bearer is accepted, `get_or_load` is called -/
  | arrived (userId : Uuid) (frozen : Option (List String)) (now : ℤ)
  /-- `_load` has read the user -/
  | userLoaded (userId : Uuid) (frozen : Option (List String)) (now : ℤ) (user : SystemUser)
  /-- `_load` has read the explicit scopes -/
  | scopesLoaded (userId : Uuid) (frozen : Option (List String)) (now : ℤ) (user : SystemUser)
      (explicitGrants : List String)
  /-- `_load` has read the grants and resolved the scopes -/
  | loaded (userId : Uuid) (frozen : Option (List String)) (context : AuthContext)
  /-- the handler runs with these effective scopes -/
  | principal (userId : Uuid) (effectiveScopes : List String)
  /-- `enforce_tier_clearance` has passed -/
  | passed (userId : Uuid) (effectiveTier : SensitivityTier)
  /-- a token was minted -/
  | minted (tokenId : Uuid)
  /-- 401 or 403 -/
  | refused
  deriving DecidableEq

/-- The user of a request in flight, and the scopes it already carries. -/
def RequestPhase.carried : RequestPhase → Option (Uuid × List String)
  | arrived u frozen _ => some (u, frozen.getD [])
  | userLoaded u frozen _ _ => some (u, frozen.getD [])
  | scopesLoaded u frozen _ _ _ => some (u, frozen.getD [])
  | loaded u frozen context => some (u, frozen.getD [] ++ context.effectiveScopes)
  | principal u effectiveScopes => some (u, effectiveScopes)
  | passed _ _ => none
  | minted _ => none
  | refused => none

/-- The explicit scopes that a load in progress has read. -/
def RequestPhase.explicitGrants : RequestPhase → List String
  | scopesLoaded _ _ _ _ explicitGrants => explicitGrants
  | _ => []

/-- The databases, the cache of one process, and its requests. -/
structure AuthState where
  clock : ℤ
  users : List (Uuid × SystemUser)
  scopes : List (Uuid × String)
  grants : List ClearanceGrantRow
  tokens : List PersonalAccessTokenRow
  cache : List CacheEntry
  requests : Calls RequestPhase
  deriving DecidableEq

/-- One step of a request, of an administrator, or of the clock. -/
inductive AuthStep where
  /-- time passes -/
  | tick (d : ℕ)
  /-- a user is created or changed -/
  | putUser (u : Uuid) (user : SystemUser)
  /-- `eyenet user scopes grant`, one scope -/
  | scopesGrant (u : Uuid) (scope : String)
  /-- `eyenet user scopes revoke`, one scope -/
  | scopesRevoke (u : Uuid) (scope : String)
  /-- `grant_clearance`; without `now` it reads the clock -/
  | grantClearance (id grantee granter : Uuid) (scope : ClearanceScope) (reason : String)
      (expiresAt : ℤ) (now : Option ℤ)
  /-- `revoke_clearance`; without `now` it reads the clock -/
  | revokeClearance (id revoker : Uuid) (reason : String) (now : Option ℤ)
  /-- `revoke_personal_access_token` -/
  | revokeToken (id : Uuid)
  /-- the cache drops an entry: `invalidate`, `clear`, or a full cache -/
  | evict (u : Uuid)
  /-- a request arrives with a valid session of a user -/
  | requestSession (r : ℕ) (u : Uuid)
  /-- a request arrives with the secret of a token -/
  | requestPat (r : ℕ) (id : Uuid)
  /-- the cache answers -/
  | hit (r : ℕ)
  /-- `_load` reads the user -/
  | loadUser (r : ℕ)
  /-- `_load` reads the explicit scopes -/
  | loadScopes (r : ℕ)
  /-- `_load` reads the live grants -/
  | loadGrants (r : ℕ)
  /-- `get_or_load` stores what was loaded and returns it -/
  | store (r : ℕ)
  /-- the handler checks the tier of the row it serves -/
  | enforce (r : ℕ) (tier : SensitivityTier)
  /-- the handler mints a token -/
  | mint (r : ℕ) (id : Uuid) (scopes : List String) (expiresAt : Option ℤ)
  deriving DecidableEq

/-- `_DEFAULT_TTL_SECONDS` -/
def defaultTtlSeconds : ℤ := 30

namespace AuthState

/-- The empty databases at some time. -/
def init (clock : ℤ) : AuthState := ⟨clock, [], [], [], [], [], []⟩

/-- Where a request stands. -/
def phase (s : AuthState) (r : ℕ) : Option RequestPhase := s.requests.phase r

/-- A request moves on. -/
def put (s : AuthState) (r : ℕ) (p : RequestPhase) : AuthState :=
  { s with requests := s.requests.put r p }

/-- `list_explicit_scopes` -/
def listExplicitScopes (s : AuthState) (u : Uuid) : List String :=
  (s.scopes.filter fun x => x.1 == u).map Prod.snd

/-- `_cache.get`: the user's entry while it lives; a cache without lifetime is not asked. -/
def cached (ttl : ℤ) (s : AuthState) (u : Uuid) : Option CacheEntry :=
  if ttl ≤ 0 then none
  else s.cache.find? fun e => e.userId == u && decide (s.clock < e.expires)

/-- The cache with a fresh entry in the place of the user's old one. -/
def cacheStore (ttl : ℤ) (s : AuthState) (u : Uuid) (context : AuthContext) : List CacheEntry :=
  if ttl ≤ 0 then s.cache
  else ⟨u, context, s.clock + ttl * 1000000⟩ :: s.cache.filter fun e => e.userId != u

/-- One step; `none` where it is refused or cannot happen. `ttl` is the cache's time to live in
seconds. -/
def step (ttl : ℤ) (s : AuthState) : AuthStep → Option AuthState
  | .tick d => some { s with clock := s.clock + d }
  | .putUser u user =>
    some { s with users := (u, user) :: s.users.filter fun x => x.1 != u }
  | .scopesGrant u scope =>
    if scope ∈ clearanceValues then none
    else if scope ∉ grantable then none
    else if (u, scope) ∈ s.scopes then some s
    else some { s with scopes := s.scopes ++ [(u, scope)] }
  | .scopesRevoke u scope =>
    if (u, scope) ∈ s.scopes then some { s with scopes := s.scopes.erase (u, scope) } else none
  | .grantClearance id grantee granter scope reason expiresAt now =>
    match grantClearance id grantee granter scope reason expiresAt (now.getD s.clock) with
    | .error _ => none
    | .ok g =>
      if s.grants.any fun g' => g'.id == id then none
      else some { s with grants := s.grants ++ [g] }
  | .revokeClearance id revoker reason now =>
    match revokeClearance s.grants id revoker reason (now.getD s.clock) with
    | .error _ => none
    | .ok g => some { s with grants := s.grants.map fun g' => if g'.id = id then g else g' }
  | .revokeToken id =>
    if s.tokens.any fun p => p.tokenId == id then
      some { s with
        tokens := s.tokens.map fun p =>
          if p.tokenId = id ∧ p.revokedAt = none then { p with revokedAt := some s.clock } else p }
    else none
  | .evict u => some { s with cache := s.cache.filter fun e => e.userId != u }
  | .requestSession r u =>
    match s.phase r with
    | some _ => none
    | none => some (s.put r (.arrived u none s.clock))
  | .requestPat r id =>
    match s.phase r, s.tokens.find? fun p => p.tokenId == id with
    | none, some p =>
      if p.usable s.clock then some (s.put r (.arrived p.userId (some p.scopes) s.clock))
      else some (s.put r .refused)
    | _, _ => none
  | .hit r =>
    match s.phase r with
    | some (.arrived u frozen _) =>
      match s.cached ttl u with
      | some e => some (s.put r (.principal u (frozen.getD e.context.effectiveScopes)))
      | none => none
    | _ => none
  | .loadUser r =>
    match s.phase r with
    | some (.arrived u frozen now) =>
      if (s.cached ttl u).isSome then none
      else match s.users.lookup u with
        | some user =>
          if user.isActive then some (s.put r (.userLoaded u frozen now user))
          else some (s.put r .refused)
        | none => some (s.put r .refused)
    | _ => none
  | .loadScopes r =>
    match s.phase r with
    | some (.userLoaded u frozen now user) =>
      some (s.put r (.scopesLoaded u frozen now user (s.listExplicitScopes u)))
    | _ => none
  | .loadGrants r =>
    match s.phase r with
    | some (.scopesLoaded u frozen now user explicitGrants) =>
      some (s.put r (.loaded u frozen
        ⟨user, resolveEffectiveScopes user explicitGrants
          (activeClearanceGrantsFor s.grants u now), now⟩))
    | _ => none
  | .store r =>
    match s.phase r with
    | some (.loaded u frozen context) =>
      some { s.put r (.principal u (frozen.getD context.effectiveScopes)) with
        cache := s.cacheStore ttl u context }
    | _ => none
  | .enforce r tier =>
    match s.phase r with
    | some (.principal u effectiveScopes) =>
      match enforceTierClearance effectiveScopes tier with
      | .ok () => some (s.put r (.passed u tier))
      | .error _ => some (s.put r .refused)
    | _ => none
  | .mint r id scopes expiresAt =>
    match s.phase r with
    | some (.principal u effectiveScopes) =>
      if scopes ≠ [] ∧ scopes ⊆ effectiveScopes ∧ ∀ p ∈ s.tokens, p.tokenId ≠ id then
        some { s.put r (.minted id) with
          tokens := s.tokens ++
            [⟨id, u, scopes.dedup.insertionSort (· ≤ ·), s.clock, expiresAt, none⟩] }
      else none
    | _ => none

/-! ## What carries a scope -/

/-- The user has a grant of the scope that the resolver would find at `t`. -/
def Cleared (s : AuthState) (u : Uuid) (k : ClearanceScope) (t : ℤ) : Prop :=
  ∃ g ∈ s.grants, g.userId = u ∧ g.scope = k ∧ g.live t

/-- At `t` a cache entry, a usable token or a request in flight still has the scope. -/
def Carries (s : AuthState) (u : Uuid) (k : ClearanceScope) (t : ℤ) : Prop :=
  (∃ e ∈ s.cache, e.userId = u ∧ t < e.expires ∧ k.value ∈ e.context.effectiveScopes) ∨
  (∃ p ∈ s.tokens, p.userId = u ∧ p.usable t ∧ k.value ∈ p.scopes) ∨
  (∃ x ∈ s.requests, ∃ c ∈ x.2.carried, c.1 = u ∧ k.value ∈ c.2)

instance (s : AuthState) (u : Uuid) (k : ClearanceScope) (t : ℤ) : Decidable (s.Cleared u k t) :=
  inferInstanceAs (Decidable (∃ g ∈ s.grants, g.userId = u ∧ g.scope = k ∧ g.live t))

instance (s : AuthState) (u : Uuid) (k : ClearanceScope) (t : ℤ) : Decidable (s.Carries u k t) :=
  inferInstanceAs (Decidable
    ((∃ e ∈ s.cache, e.userId = u ∧ t < e.expires ∧ k.value ∈ e.context.effectiveScopes) ∨
    (∃ p ∈ s.tokens, p.userId = u ∧ p.usable t ∧ k.value ∈ p.scopes) ∨
    (∃ x ∈ s.requests, ∃ c ∈ x.2.carried, c.1 = u ∧ k.value ∈ c.2)))

/-- The step keeps the scope `k` of `u`: it does not end its last live grant while the scope is
still carried, it loads no grant that expired since the request arrived, and it dates no grant
later than the clock. -/
def Keeps (u : Uuid) (k : ClearanceScope) (s : AuthState) : AuthStep → Prop
  | .tick d =>
    ¬ s.Cleared u k (s.clock + d) → s.Cleared u k s.clock → ¬ s.Carries u k (s.clock + d)
  | .grantClearance _ grantee _ scope _ _ now =>
    grantee = u → scope = k → now.getD s.clock ≤ s.clock
  | .revokeClearance id _ _ _ =>
    (∀ g ∈ s.grants, g.userId = u → g.scope = k → g.live s.clock → g.id = id) →
      s.Cleared u k s.clock → ¬ s.Carries u k s.clock
  | .loadGrants r =>
    ∀ x ∈ s.requests, x.1 = r → match x.2 with
      | .scopesLoaded u' _ now _ _ => u' = u → s.Cleared u k now → s.Cleared u k s.clock
      | _ => True
  | _ => True

instance (u : Uuid) (k : ClearanceScope) (s : AuthState) : ∀ a, Decidable (Keeps u k s a)
  | .tick d => inferInstanceAs (Decidable
      (¬ s.Cleared u k (s.clock + d) → s.Cleared u k s.clock → ¬ s.Carries u k (s.clock + d)))
  | .grantClearance _ grantee _ scope _ _ now => inferInstanceAs (Decidable
      (grantee = u → scope = k → now.getD s.clock ≤ s.clock))
  | .revokeClearance id _ _ _ => inferInstanceAs (Decidable
      ((∀ g ∈ s.grants, g.userId = u → g.scope = k → g.live s.clock → g.id = id) →
        s.Cleared u k s.clock → ¬ s.Carries u k s.clock))
  | .loadGrants r =>
    have : ∀ x : ℕ × RequestPhase, Decidable (match x.2 with
        | .scopesLoaded u' _ now _ _ => u' = u → s.Cleared u k now → s.Cleared u k s.clock
        | _ => True) := fun x => by split <;> infer_instance
    inferInstanceAs (Decidable (∀ x ∈ s.requests, x.1 = r → match x.2 with
      | .scopesLoaded u' _ now _ _ => u' = u → s.Cleared u k now → s.Cleared u k s.clock
      | _ => True))
  | .putUser _ _ | .scopesGrant _ _ | .scopesRevoke _ _ | .revokeToken _ | .evict _
  | .requestSession _ _ | .requestPat _ _ | .hit _ | .loadUser _ | .loadScopes _ | .store _
  | .enforce _ _ | .mint _ _ _ _ => .isTrue trivial

/-! ## The invariant -/

section Invariant

variable {ttl : ℤ} {s s' : AuthState} {u : Uuid} {k : ClearanceScope} {r : ℕ}

/-- What lives later is carried now. -/
theorem Carries.anti {t t' : ℤ} (h : s.Carries u k t') (hle : t ≤ t') : s.Carries u k t := by
  rcases h with ⟨e, he, hu, ht, hk⟩ | ⟨p, hp, hu, ht, hk⟩ | hreq
  · exact .inl ⟨e, he, hu, lt_of_le_of_lt hle ht, hk⟩
  · refine .inr (.inl ⟨p, hp, hu, ?_, hk⟩)
    simp only [PersonalAccessTokenRow.usable, Bool.and_eq_true] at ht ⊢
    refine ⟨ht.1, ?_⟩
    cases hexp : p.expiresAt with
    | none => rfl
    | some e =>
      rw [hexp] at ht
      simpa using lt_of_le_of_lt hle (by simpa using ht.2)
  · exact .inr (.inr hreq)

/-- Of one user and one scope: the grants are dated in the past, no explicit scope stands for the
clearance, and whatever carries it is backed by a live grant. -/
structure Sound (u : Uuid) (k : ClearanceScope) (s : AuthState) : Prop where
  dated : ∀ g ∈ s.grants, g.userId = u → g.scope = k → g.grantedAt ≤ s.clock
  explicitScopes : ∀ x ∈ s.scopes, x.2 ≠ k.value
  loading : ∀ x ∈ s.requests, k.value ∉ x.2.explicitGrants
  carried : s.Carries u k s.clock → s.Cleared u k s.clock

theorem sound_init (u : Uuid) (k : ClearanceScope) (clock : ℤ) : Sound u k (init clock) := by
  constructor <;> simp [init, Carries]

/-- A request moves on; what it carries is backed. -/
theorem Sound.put {p : RequestPhase} (h : Sound u k s)
    (hp : ∀ c ∈ p.carried, c.1 = u → k.value ∈ c.2 → s.Cleared u k s.clock)
    (he : k.value ∉ p.explicitGrants) : Sound u k (s.put r p) where
  dated := h.dated
  explicitScopes := h.explicitScopes
  loading := by
    intro x hx
    rcases Calls.mem_put.mp hx with rfl | ⟨hx, -⟩
    · exact he
    · exact h.loading x hx
  carried := by
    rintro (hc | hc | ⟨x, hx, c, hc, hu, hk⟩)
    · exact h.carried (.inl hc)
    · exact h.carried (.inr (.inl hc))
    · rcases Calls.mem_put.mp hx with rfl | ⟨hx, -⟩
      · exact hp c hc hu hk
      · exact h.carried (.inr (.inr ⟨x, hx, c, hc, hu, hk⟩))

/-- The cache changes; the new entries are backed. -/
theorem Sound.setCache {cache : List CacheEntry} (h : Sound u k s)
    (hc : ∀ e ∈ cache, e ∈ s.cache ∨
      (e.userId = u → k.value ∈ e.context.effectiveScopes → s.Cleared u k s.clock)) :
    Sound u k { s with cache } where
  dated := h.dated
  explicitScopes := h.explicitScopes
  loading := h.loading
  carried := by
    rintro (⟨e, he, hu, ht, hk⟩ | hrest)
    · rcases hc e he with he | hnew
      · exact h.carried (.inl ⟨e, he, hu, ht, hk⟩)
      · exact hnew hu hk
    · exact h.carried (.inr hrest)

/-- The tokens change; the usable ones are backed. -/
theorem Sound.setTokens {tokens : List PersonalAccessTokenRow} (h : Sound u k s)
    (hp : ∀ p ∈ tokens, p.usable s.clock → p ∈ s.tokens ∨
      (p.userId = u → k.value ∈ p.scopes → s.Cleared u k s.clock)) :
    Sound u k { s with tokens } where
  dated := h.dated
  explicitScopes := h.explicitScopes
  loading := h.loading
  carried := by
    rintro (he | ⟨p, hmem, hu, ht, hk⟩ | hreq)
    · exact h.carried (.inl he)
    · rcases hp p hmem ht with hold | hnew
      · exact h.carried (.inr (.inl ⟨p, hold, hu, ht, hk⟩))
      · exact hnew hu hk
    · exact h.carried (.inr (.inr hreq))

/-- Explicit scopes that leave the clearance out. -/
theorem Sound.setScopes {scopes : List (Uuid × String)} (h : Sound u k s)
    (hx : ∀ x ∈ scopes, x.2 ≠ k.value) : Sound u k { s with scopes } :=
  ⟨h.dated, hx, h.loading, h.carried⟩

/-! ### One step -/

/-- Time passes: what is still carried keeps its grant. -/
theorem Sound.tick {d : ℕ} (h : Sound u k s) (hk : Keeps u k s (.tick d)) :
    Sound u k { s with clock := s.clock + d } where
  dated := fun g hg hu hscope => le_trans (h.dated g hg hu hscope) (by simp)
  explicitScopes := h.explicitScopes
  loading := h.loading
  carried := by
    intro hc
    by_contra hcleared
    exact hk hcleared (h.carried (Carries.anti hc (by simp))) hc

theorem grantClearance_ok {id grantee granter : Uuid} {scope : ClearanceScope} {reason : String}
    {expiresAt now : ℤ} {g : ClearanceGrantRow}
    (h : grantClearance id grantee granter scope reason expiresAt now = .ok g) :
    g.userId = grantee ∧ g.scope = scope ∧ g.grantedAt = now ∧ g.revokedAt = none := by
  simp only [grantClearance] at h
  split at h
  · cases h
  split at h
  · cases h
  split at h
  · cases h
  · cases h
    exact ⟨rfl, rfl, rfl, rfl⟩

/-- One more grant, not dated later than the clock. -/
theorem Sound.grant {g : ClearanceGrantRow} (h : Sound u k s)
    (hg : g.userId = u → g.scope = k → g.grantedAt ≤ s.clock) :
    Sound u k { s with grants := s.grants ++ [g] } where
  dated := by
    intro g' hg'
    rcases List.mem_append.mp hg' with hg' | hg'
    · exact h.dated g' hg'
    · rw [List.mem_singleton] at hg'
      subst hg'
      exact hg
  explicitScopes := h.explicitScopes
  loading := h.loading
  carried := by
    intro hc
    obtain ⟨g', hg', hrest⟩ := h.carried hc
    exact ⟨g', List.mem_append_left _ hg', hrest⟩

/-- A successful revocation keeps the row's identity and its date. -/
theorem revokeClearance_ok {grants : List ClearanceGrantRow} {id revoker : Uuid}
    {reason : String} {now : ℤ} {g : ClearanceGrantRow}
    (h : revokeClearance grants id revoker reason now = .ok g) :
    ∃ g₀ ∈ grants, g₀.id = id ∧ g.userId = g₀.userId ∧ g.scope = g₀.scope ∧
      g.grantedAt = g₀.grantedAt ∧ g.revokedAt ≠ none := by
  simp only [revokeClearance] at h
  split at h
  · cases h
  split at h
  · cases h
  next g₀ hfind =>
  have hmem := List.mem_of_find?_eq_some hfind
  have hid : g₀.id = id := by simpa using List.find?_some hfind
  split at h
  · next hrev =>
    cases h
    exact ⟨g, hmem, hid, rfl, rfl, rfl, by simpa [Option.isSome_iff_ne_none] using hrev⟩
  split at h
  · cases h
  split at h
  · cases h
  · cases h
    exact ⟨g₀, hmem, hid, rfl, rfl, rfl, by simp⟩

/-- A revocation that spares a live grant, or revokes what nothing carries. -/
theorem Sound.revoke {id revoker : Uuid} {reason : String} {now : Option ℤ}
    {g : ClearanceGrantRow} (h : Sound u k s)
    (hk : Keeps u k s (.revokeClearance id revoker reason now))
    (hg : revokeClearance s.grants id revoker reason (now.getD s.clock) = .ok g) :
    Sound u k { s with grants := s.grants.map fun g' => if g'.id = id then g else g' } where
  dated := by
    obtain ⟨g₀, hg₀, -, huser, hscope, hdate, -⟩ := revokeClearance_ok hg
    intro g' hg' hu hs
    obtain ⟨g₁, hg₁, rfl⟩ := List.mem_map.mp hg'
    split at hu
    · next hid =>
      rw [if_pos hid] at hs ⊢
      exact hdate ▸ h.dated g₀ hg₀ (huser ▸ hu) (hscope ▸ hs)
    · next hid =>
      rw [if_neg hid] at hs ⊢
      exact h.dated g₁ hg₁ hu hs
  explicitScopes := h.explicitScopes
  loading := h.loading
  carried := by
    intro hc
    have hcleared := h.carried hc
    -- the scope is carried, so some live grant of it is not the revoked one
    obtain ⟨g', hg', hu, hs, hlive, hid⟩ : ∃ g' ∈ s.grants, g'.userId = u ∧ g'.scope = k ∧
        g'.live s.clock ∧ g'.id ≠ id := by
      by_contra hno
      push Not at hno
      exact hk hno hcleared hc
    exact ⟨g', List.mem_map.mpr ⟨g', hg', if_neg hid⟩, hu, hs, hlive⟩

/-- Revoking a token leaves no usable token that was not there. -/
theorem Sound.revokeToken {id : Uuid} (h : Sound u k s) :
    Sound u k { s with
      tokens := s.tokens.map fun p =>
        if p.tokenId = id ∧ p.revokedAt = none then { p with revokedAt := some s.clock }
        else p } := by
  refine h.setTokens fun p hp husable => .inl ?_
  obtain ⟨p₀, hp₀, rfl⟩ := List.mem_map.mp hp
  split at husable
  · simp [PersonalAccessTokenRow.usable] at husable
  · next hne =>
    rw [if_neg hne]
    exact hp₀

theorem cached_mem {e : CacheEntry} (h : s.cached ttl u = some e) :
    e ∈ s.cache ∧ e.userId = u ∧ s.clock < e.expires := by
  simp only [cached] at h
  split at h
  · cases h
  · have hprop := List.find?_some h
    rw [Bool.and_eq_true, beq_iff_eq, decide_eq_true_iff] at hprop
    exact ⟨List.mem_of_find?_eq_some h, hprop⟩

/-- The scopes that a context resolves to are backed, if the grants it read are still live. -/
theorem Sound.resolved {u' : Uuid} {user : SystemUser} {explicitGrants : List String} {now : ℤ}
    (hx : k.value ∉ explicitGrants) (hk : u' = u → s.Cleared u k now → s.Cleared u k s.clock)
    (hu : u' = u) (hmem : k.value ∈ resolveEffectiveScopes user explicitGrants
      (activeClearanceGrantsFor s.grants u' now)) : s.Cleared u k s.clock := by
  rcases value_mem_resolveEffectiveScopes.mp hmem with hexp | ⟨g, hg, hscope⟩
  · exact absurd hexp hx
  · rw [mem_activeClearanceGrantsFor] at hg
    exact hk hu ⟨g, hg.1, hg.2.1.trans hu, hscope, hg.2.2⟩

/-- **Step lemma.** A step that keeps the scope keeps the invariant. -/
theorem Sound.step {a : AuthStep} (h : Sound u k s) (hk : Keeps u k s a)
    (hstep : step ttl s a = some s') : Sound u k s' := by
  -- what a request carries already is backed
  have hbacked : ∀ {r : ℕ} {p : RequestPhase}, s.phase r = some p → ∀ c ∈ p.carried,
      c.1 = u → k.value ∈ c.2 → s.Cleared u k s.clock := by
    intro r p hp c hc hu hmem
    exact h.carried (.inr (.inr ⟨(r, p), Calls.mem_of_phase hp, c, hc, hu, hmem⟩))
  cases a with
  | tick d =>
    cases hstep
    exact h.tick hk
  | putUser u' user =>
    cases hstep
    exact ⟨h.dated, h.explicitScopes, h.loading, h.carried⟩
  | scopesGrant u' scope =>
    simp only [AuthState.step] at hstep
    split at hstep
    · cases hstep
    split at hstep
    · cases hstep
    next hgrantable =>
    split at hstep
    · cases hstep
      exact h
    · cases hstep
      refine h.setScopes fun x hx => ?_
      rcases List.mem_append.mp hx with hx | hx
      · exact h.explicitScopes x hx
      · rw [List.mem_singleton] at hx
        subst hx
        rintro rfl
        exact hgrantable (value_not_mem_grantable k)
  | scopesRevoke u' scope =>
    simp only [AuthState.step] at hstep
    split at hstep
    · cases hstep
      exact h.setScopes fun x hx => h.explicitScopes x (List.mem_of_mem_erase hx)
    · cases hstep
  | grantClearance id grantee granter scope reason expiresAt now =>
    simp only [AuthState.step] at hstep
    split at hstep
    · cases hstep
    next g hg =>
    split at hstep
    · cases hstep
    · cases hstep
      obtain ⟨hgrantee, hscope, hdate, -⟩ := grantClearance_ok hg
      refine h.grant fun hu hs => ?_
      rw [hdate]
      exact hk (hgrantee.symm.trans hu) (hscope.symm.trans hs)
  | revokeClearance id revoker reason now =>
    simp only [AuthState.step] at hstep
    split at hstep
    · cases hstep
    next g hg =>
    cases hstep
    exact h.revoke hk hg
  | revokeToken id =>
    simp only [AuthState.step] at hstep
    split at hstep
    · cases hstep
      exact h.revokeToken
    · cases hstep
  | evict u' =>
    cases hstep
    exact h.setCache fun e he => .inl (List.mem_filter.mp he).1
  | requestSession r u' =>
    simp only [AuthState.step] at hstep
    split at hstep
    · cases hstep
    · cases hstep
      exact h.put (by simp [RequestPhase.carried]) (by simp [RequestPhase.explicitGrants])
  | requestPat r id =>
    simp only [AuthState.step] at hstep
    split at hstep
    · next p hnone hfind =>
      split at hstep
      · next husable =>
        cases hstep
        refine h.put ?_ (by simp [RequestPhase.explicitGrants])
        intro c hc hu hmem
        cases hc
        exact h.carried (.inr (.inl ⟨p, List.mem_of_find?_eq_some hfind, hu, husable, hmem⟩))
      · cases hstep
        exact h.put (by simp [RequestPhase.carried]) (by simp [RequestPhase.explicitGrants])
    · cases hstep
  | hit r =>
    simp only [AuthState.step] at hstep
    split at hstep
    · next u' frozen now hphase =>
      split at hstep
      · next e he =>
        cases hstep
        refine h.put ?_ (by simp [RequestPhase.explicitGrants])
        intro c hc hu hmem
        cases hc
        cases frozen with
        | some scopes => exact hbacked hphase _ rfl hu hmem
        | none =>
          obtain ⟨hin, huser, hexp⟩ := cached_mem he
          exact h.carried (.inl ⟨e, hin, huser.trans hu, hexp, hmem⟩)
      · cases hstep
    · cases hstep
  | loadUser r =>
    simp only [AuthState.step] at hstep
    split at hstep
    · next u' frozen now hphase =>
      have hrefused : Sound u k (s.put r .refused) :=
        h.put (by simp [RequestPhase.carried]) (by simp [RequestPhase.explicitGrants])
      split at hstep
      · cases hstep
      split at hstep
      · split at hstep
        · cases hstep
          exact h.put (fun c hc => hbacked hphase c hc) (by simp [RequestPhase.explicitGrants])
        · cases hstep
          exact hrefused
      · cases hstep
        exact hrefused
    · cases hstep
  | loadScopes r =>
    simp only [AuthState.step] at hstep
    split at hstep
    · next u' frozen now user hphase =>
      cases hstep
      refine h.put (fun c hc => hbacked hphase c hc) ?_
      intro hmem
      obtain ⟨x, hx, hval⟩ := List.mem_map.mp hmem
      exact h.explicitScopes x (List.mem_filter.mp hx).1 hval
    · cases hstep
  | loadGrants r =>
    simp only [AuthState.step] at hstep
    split at hstep
    · next u' frozen now user explicitGrants hphase =>
      cases hstep
      refine h.put ?_ (by simp [RequestPhase.explicitGrants])
      intro c hc hu hmem
      cases hc
      rcases List.mem_append.mp hmem with hmem | hmem
      · exact hbacked hphase _ rfl hu hmem
      · exact Sound.resolved (h.loading _ (Calls.mem_of_phase hphase))
          (hk _ (Calls.mem_of_phase hphase) rfl) hu hmem
    · cases hstep
  | store r =>
    simp only [AuthState.step] at hstep
    split at hstep
    · next u' frozen context hphase =>
      cases hstep
      have hloaded : u' = u → k.value ∈ context.effectiveScopes → s.Cleared u k s.clock :=
        fun hu hmem => hbacked hphase _ rfl hu (List.mem_append_right _ hmem)
      have hput : Sound u k (s.put r (.principal u' (frozen.getD context.effectiveScopes))) := by
        refine h.put ?_ (by simp [RequestPhase.explicitGrants])
        intro c hc hu hmem
        cases hc
        cases frozen with
        | some scopes => exact hbacked hphase _ rfl hu (List.mem_append_left _ hmem)
        | none => exact hloaded hu hmem
      refine hput.setCache fun e he => ?_
      simp only [cacheStore] at he
      split at he
      · exact .inl he
      · rcases List.mem_cons.mp he with rfl | he
        · exact .inr hloaded
        · exact .inl (List.mem_filter.mp he).1
    · cases hstep
  | enforce r tier =>
    simp only [AuthState.step] at hstep
    split at hstep
    · split at hstep <;> cases hstep <;>
        exact h.put (by simp [RequestPhase.carried]) (by simp [RequestPhase.explicitGrants])
    · cases hstep
  | mint r id scopes expiresAt =>
    simp only [AuthState.step] at hstep
    split at hstep
    · next u' effectiveScopes hphase =>
      split at hstep
      · next hcond =>
        cases hstep
        have hput : Sound u k (s.put r (.minted id)) :=
          h.put (by simp [RequestPhase.carried]) (by simp [RequestPhase.explicitGrants])
        refine hput.setTokens fun p hp _ => ?_
        rcases List.mem_append.mp hp with hp | hp
        · exact .inl hp
        · rw [List.mem_singleton] at hp
          subst hp
          refine .inr fun hu hmem => hbacked hphase _ rfl hu (hcond.2.1 ?_)
          simpa using hmem
      · cases hstep
    · cases hstep

/-- A request passes the check of a tier above normal only with the tier's scope. -/
theorem step_enforce_passed {tier : SensitivityTier} (htier : tierScope tier = some k)
    (hstep : AuthState.step ttl s (.enforce r tier) = some s')
    (hpass : s'.phase r = some (.passed u tier)) :
    ∃ scopes, s.phase r = some (.principal u scopes) ∧ k.value ∈ scopes := by
  simp only [AuthState.step] at hstep
  split at hstep
  · next u' scopes hphase =>
    split at hstep
    · next hok =>
      cases hstep
      obtain ⟨rfl, -⟩ : u' = u ∧ True := by simpa [phase, AuthState.put] using hpass
      exact ⟨scopes, hphase, (enforceTierClearance_ok_iff htier).mp hok⟩
    · cases hstep
      simp [phase, AuthState.put] at hpass
  · cases hstep

end Invariant

/-! ## Runs -/

/-- **Clearance.** While no step ends a user's last live grant of a scope that is still carried,
loads an expired grant or dates a grant ahead, every request of the user that passes the check of
the scope's tier passes it under an active grant. -/
theorem tier_clearance_exact {ttl clock : ℤ} {u : Uuid} {k : ClearanceScope}
    {as : List AuthStep} {s s' : AuthState} {r : ℕ} {tier : SensitivityTier}
    (hrun : run (step ttl) (init clock) as = some s)
    (hkeeps : Along (step ttl) (Keeps u k) (init clock) as)
    (htier : tierScope tier = some k) (hstep : step ttl s (.enforce r tier) = some s')
    (hpass : s'.phase r = some (.passed u tier)) :
    ∃ g ∈ s.grants, g.userId = u ∧ g.scope = k ∧ g.Active s.clock := by
  have hsound : Sound u k s :=
    run_preserves_along (fun h hk hs => Sound.step h hk hs) (sound_init u k clock) hkeeps hrun
  obtain ⟨scopes, hphase, hmem⟩ := step_enforce_passed htier hstep hpass
  obtain ⟨g, hg, hu, hscope, hlive⟩ :=
    hsound.carried (.inr (.inr ⟨_, Calls.mem_of_phase hphase, _, rfl, rfl, hmem⟩))
  exact ⟨g, hg, hu, hscope,
    ClearanceGrantRow.active_iff.mpr ⟨hsound.dated g hg hu hscope, hlive⟩⟩

/-- A user and a grant for an hour. -/
def clearedRun : List AuthStep :=
  [.putUser 1 ⟨.analyst, true⟩,
   .grantClearance 10 1 2 .readRestricted "case review, june" 3600000000 none]

/-- A request of the user loads the scopes into the cache. -/
def loadRun (r : ℕ) : List AuthStep :=
  [.requestSession r 1, .loadUser r, .loadScopes r, .loadGrants r, .store r]

/-- The first grant is revoked once nothing carries it; the second stands behind a token. -/
def reviewRun : List AuthStep :=
  clearedRun ++ loadRun 0 ++ [.enforce 0 .restricted, .tick 30000000,
    .revokeClearance 10 2 "case closed early" none,
    .grantClearance 11 1 2 .readRestricted "case review, july" 7200000000 none] ++
    loadRun 1 ++ [.mint 1 20 ["read:restricted"] none, .tick 60000000, .requestPat 2 20,
    .loadUser 2, .loadScopes 2, .loadGrants 2, .store 2]

theorem tier_clearance_exact_sample :
    ∃ s s', run (step defaultTtlSeconds) (init 0) reviewRun = some s ∧
      step defaultTtlSeconds s (.enforce 2 .restricted) = some s' ∧
      s'.phase 2 = some (.passed 1 .restricted) ∧
      ∃ g ∈ s.grants, g.userId = 1 ∧ g.scope = .readRestricted ∧ g.Active s.clock := by
  have hkeeps : Along (step defaultTtlSeconds) (Keeps 1 .readRestricted) (init 0) reviewRun := by
    decide
  refine ⟨_, _, rfl, rfl, rfl, ?_⟩
  exact tier_clearance_exact rfl hkeeps (show tierScope .restricted = _ from rfl)
    (show step _ _ (.enforce 2 .restricted) = _ from rfl) rfl

/-- A request passes on a cache entry whose grant is revoked, and another on a token whose grant
has expired. -/
theorem stale_scope_passes :
    (∃ s s', run (step defaultTtlSeconds) (init 0)
        (clearedRun ++ loadRun 0 ++ [.revokeClearance 10 2 "case closed early" none,
          .requestSession 1 1, .hit 1]) = some s ∧
      step defaultTtlSeconds s (.enforce 1 .restricted) = some s' ∧
      s'.phase 1 = some (.passed 1 .restricted) ∧
      ¬ ∃ g ∈ s.grants, g.userId = 1 ∧ g.scope = .readRestricted ∧ g.Active s.clock) ∧
    ∃ s s', run (step defaultTtlSeconds) (init 0)
        (clearedRun ++ loadRun 0 ++ [.mint 0 20 ["read:restricted"] none, .tick 3600000000,
          .requestPat 1 20, .loadUser 1, .loadScopes 1, .loadGrants 1, .store 1]) = some s ∧
      step defaultTtlSeconds s (.enforce 1 .restricted) = some s' ∧
      s'.phase 1 = some (.passed 1 .restricted) ∧
      ¬ ∃ g ∈ s.grants, g.userId = 1 ∧ g.scope = .readRestricted ∧ g.Active s.clock :=
  ⟨⟨_, _, rfl, rfl, rfl, by decide⟩, _, _, rfl, rfl, rfl, by decide +kernel⟩

end AuthState

end Eyenet
