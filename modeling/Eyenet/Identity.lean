import Eyenet.Enums
import Eyenet.Machine
import Eyenet.Table

/-!
# Operator identities

The identity table (`sqlmodel_repo/identities.py`) and those who write the state and the role of
its rows: the repository's own operations, the pool that collectors claim from
(`identity_pool/db.py`), the supervisor's recovery of a stale claim
(`services/collector_supervisor.py`), and the provisioning from the identities file
(`services/discovery/identity_provisioning.py`).

* `IdentityStore.step_get` — what an operation does to the row of an identity.
* `IdentityStore.lawful_iff_respected` — exactly when a quarantined identity stays as it is and a
  frozen one does not come back.
-/

namespace Eyenet

open Machine

/-! ## Rows -/

/-- `SourceKind` -/
inductive SourceKind where
  | telegram
  | matrix
  | irc
  | discord
  | forum
  | rss
  | xmpp
  deriving DecidableEq, Repr

/-- The member's value. -/
def SourceKind.value : SourceKind → String
  | telegram => "telegram"
  | matrix => "matrix"
  | irc => "irc"
  | discord => "discord"
  | forum => "forum"
  | rss => "rss"
  | xmpp => "xmpp"

/-- `IdentityState` -/
inductive IdentityState where
  | available
  | inUse
  | cooling
  | frozen
  | burned
  deriving DecidableEq, Repr

/-- `IdentityRole` -/
inductive IdentityRole where
  | monitor
  | scout
  /-- terminal -/
  | quarantine
  deriving DecidableEq, Repr

/-- A row of the source table. -/
structure SourceRow where
  id : Uuid
  kind : SourceKind
  displayName : String
  deriving DecidableEq

/-- The columns of `IdentityTable` that its operations read or write; times are in microseconds. -/
structure IdentityRow where
  id : Uuid
  name : String
  sourceId : Uuid
  cooldownSeconds : ℤ
  lastUsedAt : Option ℤ
  state : IdentityState
  role : IdentityRole
  graduatedAt : Option ℤ
  deriving DecidableEq

/-- What a collector gets from a claim, and what the identities file holds for an identity. -/
structure IdentityFileEntry where
  name : String
  source : SourceKind
  cooldownSeconds : ℤ
  lastUsedAt : Option ℤ
  state : IdentityState
  role : Option IdentityRole
  deriving DecidableEq

/-- What an operation raises. -/
inductive IdentityError where
  /-- `ValueError`: no row with the id -/
  | notFound (id : Uuid)
  /-- `KeyError`: no row with the name -/
  | unknownIdentity (name : String)
  /-- `RuntimeError`: the identity is claimed -/
  | alreadyInUse (name : String)
  /-- `RuntimeError`: the identity is frozen or burned -/
  | retired (name : String) (state : IdentityState)
  /-- `RuntimeError`: the cooldown has not elapsed -/
  | stillCooling (name : String) (cooldownSeconds : ℤ) (lastUsedAt : Option ℤ)
  /-- `RuntimeError`: the row's source is gone -/
  | unknownSource (name : String) (sourceId : Uuid)
  /-- `IntegrityError`: the name or the id is taken -/
  | duplicate (name : String)
  /-- the session file cannot be read or is no session -/
  | badSession (name : String)
  deriving DecidableEq

/-- The two tables. -/
structure IdentityStore where
  sources : Table SourceRow.id
  identities : Table IdentityRow.id

namespace IdentityStore

variable (s : IdentityStore)

/-! ## The repository -/

/-- `get_identity` -/
def getIdentity (id : Uuid) : Option IdentityRow := s.identities.get id

/-- `get_identity_by_name` -/
def getIdentityByName (name : String) : Option IdentityRow :=
  s.identities.rows.find? fun row => row.name = name

/-- An `UPDATE` of one row. -/
def write (row : IdentityRow) : IdentityStore := { s with identities := s.identities.put row }

/-- `create_identity` -/
def createIdentity (id : Uuid) (name : String) (sourceId : Uuid) (role : IdentityRole)
    (state : IdentityState) (cooldownSeconds : ℤ) : IdentityStore × Except IdentityError Unit :=
  match s.getIdentityByName name with
  | some _ => (s, .error (.duplicate name))
  | none =>
    match s.identities.insert ⟨id, name, sourceId, cooldownSeconds, none, state, role, none⟩ with
    | none => (s, .error (.duplicate name))
    | some identities => ({ s with identities := identities }, .ok ())

/-- `set_identity_role` -/
def setIdentityRole (id : Uuid) (role : IdentityRole) :
    IdentityStore × Except IdentityError IdentityRow :=
  match s.getIdentity id with
  | none => (s, .error (.notFound id))
  | some row =>
    let row := { row with role := role }
    (s.write row, .ok row)

/-- `set_identity_state` -/
def setIdentityState (id : Uuid) (state : IdentityState) (lastUsedAt : Option ℤ) :
    IdentityStore × Except IdentityError IdentityRow :=
  match s.getIdentity id with
  | none => (s, .error (.notFound id))
  | some row =>
    let row := { row with state := state, lastUsedAt := lastUsedAt.or row.lastUsedAt }
    (s.write row, .ok row)

/-- `graduate_identity` -/
def graduateIdentity (id : Uuid) (now : ℤ) : IdentityStore × Except IdentityError IdentityRow :=
  match s.getIdentity id with
  | none => (s, .error (.notFound id))
  | some row =>
    let row := { row with role := .monitor, graduatedAt := some now }
    (s.write row, .ok row)

/-- `burn_identity` -/
def burnIdentity (id : Uuid) : IdentityStore × Except IdentityError IdentityRow :=
  match s.getIdentity id with
  | none => (s, .error (.notFound id))
  | some row =>
    let row := { row with state := .burned, role := .quarantine }
    (s.write row, .ok row)

/-- The rows that a freeze of a source, or of the fleet, selects. -/
def freezable (sourceId : Option Uuid) (row : IdentityRow) : Bool :=
  row.state ∉ [.frozen, .burned] && row.role ≠ .quarantine && sourceId.all (· = row.sourceId)

/-- A row after a freeze. -/
def freeze (sourceId : Option Uuid) (row : IdentityRow) : IdentityRow :=
  if freezable sourceId row then { row with state := .frozen } else row

theorem freeze_id (sourceId : Option Uuid) (row : IdentityRow) :
    (freeze sourceId row).id = row.id := by
  rw [freeze]
  split_ifs <;> rfl

/-- `freeze_all_identities`, with the ids that it changed. -/
def freezeAllIdentities (sourceId : Option Uuid) : IdentityStore × List Uuid :=
  ({ s with identities := s.identities.updateAll (freeze sourceId) (freeze_id sourceId) },
    (s.identities.rows.filter (freezable sourceId)).map IdentityRow.id)

/-- An available scout of the source. -/
def availableScout (sourceId : Uuid) (row : IdentityRow) : Bool :=
  row.sourceId = sourceId && row.role = .scout && row.state = .available

/-- `ORDER BY name LIMIT 1` -/
def firstByName : List IdentityRow → Option IdentityRow
  | [] => none
  | row :: rows =>
    match firstByName rows with
    | none => some row
    | some best => if best.name < row.name then some best else some row

/-- `lease_scout` -/
def leaseScout (sourceId : Uuid) : IdentityStore × Option IdentityRow :=
  match firstByName (s.identities.rows.filter (availableScout sourceId)) with
  | none => (s, none)
  | some row =>
    let row := { row with state := .inUse }
    (s.write row, some row)

/-! ## The pool -/

/-- `_cooldown_elapsed` -/
def cooldownElapsed (row : IdentityRow) (now : ℤ) : Bool :=
  match row.lastUsedAt with
  | none => true
  | some used => row.cooldownSeconds * 1000000 ≤ now - used

/-- What `claim` checks before it takes the identity. -/
def checkClaim (row : IdentityRow) (now : ℤ) : Except IdentityError Unit :=
  if row.state = .inUse then .error (.alreadyInUse row.name)
  else if row.state ∈ [.frozen, .burned] then .error (.retired row.name row.state)
  else if row.state = .cooling ∧ cooldownElapsed row now = false then
    .error (.stillCooling row.name row.cooldownSeconds row.lastUsedAt)
  else .ok ()

/-- `_to_entry` -/
def toEntry (row : IdentityRow) : Except IdentityError IdentityFileEntry :=
  match s.sources.get row.sourceId with
  | none => .error (.unknownSource row.name row.sourceId)
  | some source =>
    .ok ⟨row.name, source.kind, row.cooldownSeconds, row.lastUsedAt, row.state, some row.role⟩

/-- `DbIdentityPool.claim` -/
def claim (name : String) (now : ℤ) : IdentityStore × Except IdentityError IdentityFileEntry :=
  match s.getIdentityByName name with
  | none => (s, .error (.unknownIdentity name))
  | some row =>
    match checkClaim row now with
    | .error e => (s, .error e)
    | .ok _ =>
      -- the entry is built after the claim is committed
      match s.setIdentityState row.id .inUse (some now) with
      | (s', .error e) => (s', .error e)
      | (s', .ok updated) => (s', s'.toEntry updated)

/-- `DbIdentityPool.release`: whatever state the identity is in, and whatever the new one. -/
def release (name : String) (newState : IdentityState) (now : ℤ) :
    IdentityStore × Except IdentityError IdentityRow :=
  match s.getIdentityByName name with
  | none => (s, .error (.unknownIdentity name))
  | some row => s.setIdentityState row.id newState (some now)

/-! ## The supervisor and the identities file -/

/-- The stale-claim recovery of `_spawn`. -/
def recoverClaim (id : Uuid) : IdentityStore :=
  match s.getIdentity id with
  | none => s
  | some row =>
    if row.state = .inUse then (s.setIdentityState row.id .available none).1 else s

/-- `upsert_source`; a new source gets the given id. -/
def upsertSource (kind : SourceKind) (displayName : String) (newId : Uuid) :
    Option (IdentityStore × Uuid) :=
  match s.sources.rows.find? fun x => x.kind = kind ∧ x.displayName = displayName with
  | some source => some (s, source.id)
  | none =>
    match s.sources.insert ⟨newId, kind, displayName⟩ with
    | none => none
    | some sources => some ({ s with sources := sources }, newId)

/-- What became of an entry of the file. -/
inductive ProvisionOutcome where
  | created
  | updated
  | unchanged
  deriving DecidableEq

/-- An entry, the ids for what it creates, and, when the sessions are encrypted, whether its
session file is good. -/
structure ProvisionEntry where
  entry : IdentityFileEntry
  newSourceId : Uuid
  newId : Uuid
  session : Option Bool

namespace ProvisionEntry

variable (e : ProvisionEntry)

/-- The source that the entry's row belongs to. -/
def displayName : String := e.entry.source.value ++ ":" ++ e.entry.name

/-- The role that the entry asks for. -/
def role : IdentityRole := e.entry.role.getD .monitor

end ProvisionEntry

/-- The row of the source that has the entry's name. -/
def entryRow (sourceId : Uuid) (e : ProvisionEntry) : Option IdentityRow :=
  (s.identities.rows.filter fun row => row.sourceId = sourceId).find? fun row =>
    row.name = e.entry.name

/-- One round of the loop in `provision_identities`. -/
def provisionEntry (e : ProvisionEntry) : IdentityStore × Except IdentityError ProvisionOutcome :=
  match s.upsertSource e.entry.source e.displayName e.newSourceId with
  | none => (s, .error (.duplicate e.displayName))
  | some (s, sourceId) =>
    match s.entryRow sourceId e with
    | none =>
      match if e.entry.source = .telegram then e.session else none with
      | some false => (s, .error (.badSession e.entry.name))
      | some true =>
        let (s, result) := s.createIdentity e.newId e.entry.name sourceId e.role .available
          e.entry.cooldownSeconds
        (s, result.map fun _ => .created)
      | none =>
        let (s, result) := s.createIdentity e.newId e.entry.name sourceId e.role e.entry.state
          e.entry.cooldownSeconds
        (s, result.map fun _ => .created)
    | some row =>
      if row.role ≠ e.role then
        let (s, result) := s.setIdentityRole row.id e.role
        (s, result.map fun _ => .updated)
      else (s, .ok .unchanged)

/-- `provision_identities`: the entries in order, up to the first that raises. -/
def provisionIdentities : IdentityStore → List ProvisionEntry →
    IdentityStore × Except IdentityError (List (String × ProvisionOutcome))
  | s, [] => (s, .ok [])
  | s, e :: es =>
    match s.provisionEntry e with
    | (s', .error error) => (s', .error error)
    | (s', .ok outcome) =>
      let (s'', result) := provisionIdentities s' es
      (s'', result.map fun outcomes => (e.entry.name, outcome) :: outcomes)

/-! ## Runs -/

/-- One operation on the store. -/
inductive Step where
  | burn (id : Uuid)
  | freezeAll (sourceId : Option Uuid)
  | lease (sourceId : Uuid)
  | graduate (id : Uuid) (now : ℤ)
  | claim (name : String) (now : ℤ)
  | release (name : String) (newState : IdentityState) (now : ℤ)
  | recover (id : Uuid)
  | provision (e : ProvisionEntry)

/-- The store after an operation, which may have raised. -/
def step : Step → Option IdentityStore
  | .burn id => some (s.burnIdentity id).1
  | .freezeAll sourceId => some (s.freezeAllIdentities sourceId).1
  | .lease sourceId => some (s.leaseScout sourceId).1
  | .graduate id now => some (s.graduateIdentity id now).1
  | .claim name now => some (s.claim name now).1
  | .release name newState now => some (s.release name newState now).1
  | .recover id => some (s.recoverClaim id)
  | .provision e => some (s.provisionEntry e).1

variable {s} {t : IdentityStore} {a : Step} {id : Uuid} {row row' : IdentityRow}

/-- `provision_identities` is a run of its rounds, up to the one that raises. -/
theorem provisionIdentities_run (es : List ProvisionEntry) (s : IdentityStore) :
    ∃ done, done <+: es ∧
      run step s (done.map .provision) = some (provisionIdentities s es).1 := by
  induction es generalizing s with
  | nil => exact ⟨[], List.nil_prefix, rfl⟩
  | cons e es ih =>
    rw [provisionIdentities]
    split
    · next s' error he =>
      refine ⟨[e], (List.prefix_cons_inj e).mpr List.nil_prefix, ?_⟩
      simp [run, step, he]
    · next s' outcome he =>
      obtain ⟨done, hdone, hrun⟩ := ih s'
      refine ⟨e :: done, (List.prefix_cons_inj e).mpr hdone, ?_⟩
      rw [List.map_cons, run_cons, step, he]
      exact hrun

/-! ### What an operation does to a row -/

theorem getIdentity_eq_some : s.getIdentity id = some row ↔ row ∈ s.identities ∧ row.id = id :=
  Table.get_eq_some

theorem getIdentityByName_mem {name : String} (h : s.getIdentityByName name = some row) :
    row ∈ s.identities ∧ row.name = name :=
  ⟨List.mem_of_find?_eq_some h, by simpa using List.find?_some h⟩

theorem getIdentity_self (h : row ∈ s.identities) : s.getIdentity row.id = some row :=
  Table.get_self h

theorem firstByName_mem {rows : List IdentityRow} (h : firstByName rows = some row) :
    row ∈ rows := by
  induction rows with
  | nil => cases h
  | cons x rows ih =>
    rw [firstByName] at h
    split at h
    · exact List.mem_cons.mpr (Or.inl (Option.some.inj h).symm)
    · next best hbest =>
      split_ifs at h
      · obtain rfl := Option.some.inj h
        exact List.mem_cons_of_mem x (ih hbest)
      · exact List.mem_cons.mpr (Or.inl (Option.some.inj h).symm)

/-- The row that a round of the provisioning finds for its entry. -/
def provisioned (s : IdentityStore) (e : ProvisionEntry) : Option IdentityRow :=
  (s.upsertSource e.entry.source e.displayName e.newSourceId).bind fun x => x.1.entryRow x.2 e

/-- The one row that an operation writes; a freeze of many has none. -/
def target (s : IdentityStore) : Step → Option IdentityRow
  | .burn id => s.getIdentity id
  | .freezeAll _ => none
  | .lease sourceId => firstByName (s.identities.rows.filter (availableScout sourceId))
  | .graduate id _ => s.getIdentity id
  | .claim name now =>
    (s.getIdentityByName name).filter fun row => (checkClaim row now).isOk
  | .release name _ _ => s.getIdentityByName name
  | .recover id => (s.getIdentity id).filter fun row => row.state = .inUse
  | .provision e => s.provisioned e

/-- What the operation makes of a row that it writes. -/
def Step.update : Step → IdentityRow → IdentityRow
  | .burn _, row => { row with state := .burned, role := .quarantine }
  | .freezeAll sourceId, row => freeze sourceId row
  | .lease _, row => { row with state := .inUse }
  | .graduate _ now, row => { row with role := .monitor, graduatedAt := some now }
  | .claim _ now, row => { row with state := .inUse, lastUsedAt := some now }
  | .release _ newState now, row => { row with state := newState, lastUsedAt := some now }
  | .recover _, row => { row with state := .available }
  | .provision e, row => { row with role := e.role }

/-- Whether the operation writes the row. -/
def Writes (s : IdentityStore) (a : Step) (row : IdentityRow) : Prop :=
  match a with
  | .freezeAll sourceId => freezable sourceId row = true
  | a => s.target a = some row

theorem update_id (a : Step) (row : IdentityRow) : (a.update row).id = row.id := by
  cases a with
  | freezeAll sourceId => exact freeze_id sourceId row
  | _ => rfl

theorem upsertSource_identities {kind : SourceKind} {displayName : String} {newId : Uuid}
    {x : IdentityStore × Uuid} (h : s.upsertSource kind displayName newId = some x) :
    x.1.identities = s.identities := by
  rw [upsertSource] at h
  split at h
  · obtain rfl := Option.some.inj h
    rfl
  split at h
  · cases h
  · obtain rfl := Option.some.inj h
    rfl

theorem provisioned_mem {e : ProvisionEntry} (h : s.provisioned e = some row) :
    row ∈ s.identities := by
  obtain ⟨x, hx, hrow⟩ := Option.bind_eq_some_iff.mp h
  rw [← upsertSource_identities hx]
  exact (List.mem_filter.mp (List.mem_of_find?_eq_some hrow)).1

theorem target_mem (h : s.target a = some row) : row ∈ s.identities := by
  cases a with
  | burn id => exact (getIdentity_eq_some.mp h).1
  | freezeAll sourceId => cases h
  | lease sourceId => exact (List.mem_filter.mp (firstByName_mem h)).1
  | graduate id now => exact (getIdentity_eq_some.mp h).1
  | claim name now => exact (getIdentityByName_mem (Option.eq_some_of_filter_eq_some h)).1
  | release name newState now => exact (getIdentityByName_mem h).1
  | recover id => exact (getIdentity_eq_some.mp (Option.eq_some_of_filter_eq_some h)).1
  | provision e => exact provisioned_mem h

theorem setIdentityState_of_mem (h : row ∈ s.identities) (state : IdentityState)
    (used : Option ℤ) :
    (s.setIdentityState row.id state used).1 =
      s.write { row with state := state, lastUsedAt := used.or row.lastUsedAt } := by
  rw [setIdentityState, getIdentity_self h]

/-- A created row leaves the others alone. -/
theorem mem_createIdentity {newId sourceId : Uuid} {name : String} {role : IdentityRole}
    {state : IdentityState} {cooldownSeconds : ℤ} (hrow : row ∈ s.identities) :
    row ∈ (s.createIdentity newId name sourceId role state cooldownSeconds).1.identities := by
  rw [createIdentity]
  split
  · exact hrow
  split
  · exact hrow
  · next identities hinsert => exact (Table.mem_insert hinsert).mpr (Or.inl hrow)

/-- What becomes of the row of an identity when the row `old` is changed. -/
theorem get_write {old : IdentityRow} {f : IdentityRow → IdentityRow}
    (hrow : s.getIdentity id = some row) (hold : old ∈ s.identities)
    (hf : ∀ r, (f r).id = r.id) :
    (s.write (f old)).getIdentity id = some (if some old = some row then f row else row) := by
  obtain ⟨hmem, rfl⟩ := getIdentity_eq_some.mp hrow
  rw [getIdentity, write, Table.get_put hold (hf old)]
  by_cases heq : old = row
  · rw [heq, if_pos rfl, if_pos rfl]
  · rw [if_neg fun h => heq (Table.eq_of_key hold hmem h), if_neg fun h => heq (Option.some.inj h)]
    exact hrow

/-- The operation writes its row, if it has one. -/
def writeTarget (s : IdentityStore) (a : Step) : IdentityStore :=
  match s.target a with
  | none => s
  | some row => s.write (a.update row)

theorem writeTarget_of_some (h : s.target a = some row) :
    s.writeTarget a = s.write (a.update row) := by
  simp only [writeTarget, h]

theorem writeTarget_of_none (h : s.target a = none) : s.writeTarget a = s := by
  simp only [writeTarget, h]

theorem claim_fst (name : String) (now : ℤ) :
    (s.claim name now).1 = s.writeTarget (.claim name now) := by
  rw [claim]
  split
  · next hname => exact (writeTarget_of_none (by rw [target, hname]; rfl)).symm
  · next row hname =>
    have hset := setIdentityState_of_mem (getIdentityByName_mem hname).1 .inUse (some now)
    split
    · next e hcheck =>
      refine (writeTarget_of_none ?_).symm
      rw [target, hname, Option.filter_some, hcheck]
      rfl
    · next u hcheck =>
      have htarget : s.target (.claim name now) = some row := by
        rw [target, hname, Option.filter_some, hcheck]
        rfl
      rw [writeTarget_of_some htarget]
      split <;> next hresult => exact (congrArg Prod.fst hresult).symm.trans hset

theorem release_fst (name : String) (newState : IdentityState) (now : ℤ) :
    (s.release name newState now).1 = s.writeTarget (.release name newState now) := by
  rw [release]
  split
  · next hname => simp only [writeTarget, target, hname]
  · next row hname =>
    rw [writeTarget, target, hname]
    exact setIdentityState_of_mem (getIdentityByName_mem hname).1 newState (some now)

theorem recoverClaim_eq (id : Uuid) : s.recoverClaim id = s.writeTarget (.recover id) := by
  rw [recoverClaim]
  split
  · next hid => exact (writeTarget_of_none (by rw [target, hid]; rfl)).symm
  · next row hid =>
    split_ifs with huse
    · have htarget : s.target (.recover id) = some row := by simp [target, hid, huse]
      rw [writeTarget_of_some htarget]
      exact setIdentityState_of_mem (getIdentity_eq_some.mp hid).1 .available none
    · exact (writeTarget_of_none (by simp [target, hid, huse])).symm

theorem burnIdentity_fst (id : Uuid) : (s.burnIdentity id).1 = s.writeTarget (.burn id) := by
  rw [burnIdentity]
  split
  · next hid => simp only [writeTarget, target, hid]
  · next row hid => simp only [writeTarget, target, hid, Step.update]

theorem graduateIdentity_fst (id : Uuid) (now : ℤ) :
    (s.graduateIdentity id now).1 = s.writeTarget (.graduate id now) := by
  rw [graduateIdentity]
  split
  · next hid => simp only [writeTarget, target, hid]
  · next row hid => simp only [writeTarget, target, hid, Step.update]

theorem leaseScout_fst (sourceId : Uuid) :
    (s.leaseScout sourceId).1 = s.writeTarget (.lease sourceId) := by
  rw [leaseScout]
  split
  · next hnone => simp only [writeTarget, target, hnone]
  · next row hrow => simp only [writeTarget, target, hrow, Step.update]

/-- A round of the provisioning writes the row that it finds; without one it may add a row. -/
theorem provisionEntry_identities (e : ProvisionEntry) :
    match s.provisioned e with
    | some row => (s.provisionEntry e).1.identities = s.identities.put { row with role := e.role }
    | none => ∀ row ∈ s.identities, row ∈ (s.provisionEntry e).1.identities := by
  rw [provisionEntry, provisioned]
  cases hsource : s.upsertSource e.entry.source e.displayName e.newSourceId with
  | none => exact fun row hrow => hrow
  | some x =>
    obtain ⟨s', sourceId⟩ := x
    have hsame : s'.identities = s.identities := upsertSource_identities hsource
    rw [Option.bind_some]
    dsimp only
    cases hentry : s'.entryRow sourceId e with
    | none =>
      intro row hrow
      rw [← hsame] at hrow
      dsimp only
      split
      · exact hrow
      · exact mem_createIdentity hrow
      · exact mem_createIdentity hrow
    | some row =>
      dsimp only
      have hmem : row ∈ s'.identities :=
        (List.mem_filter.mp (List.mem_of_find?_eq_some hentry)).1
      split_ifs with hrole
      · rw [setIdentityRole, getIdentity_self hmem, ← hsame]
        rfl
      · -- the row has the role already
        have hrow : { row with role := e.role } = row := by
          rw [← not_ne_iff.mp hrole]
        rw [hrow, ← hsame, Table.put_self hmem]

/-- A row after an operation. -/
def after (s : IdentityStore) (a : Step) (row : IdentityRow) : IdentityRow :=
  match a with
  | .freezeAll sourceId => freeze sourceId row
  | a => if s.target a = some row then a.update row else row

theorem get_writeTarget (hrow : s.getIdentity id = some row) :
    (s.writeTarget a).getIdentity id =
      some (if s.target a = some row then a.update row else row) := by
  cases htarget : s.target a with
  | none => rw [writeTarget_of_none htarget, hrow, if_neg (by simp)]
  | some old =>
    rw [writeTarget_of_some htarget, get_write hrow (target_mem htarget) (update_id a)]

/-- A row that is there after the write was there before. -/
theorem exists_of_get_writeTarget (h : (s.writeTarget a).getIdentity id = some row') :
    ∃ row, s.getIdentity id = some row ∧
      row' = if s.target a = some row then a.update row else row := by
  cases hget : s.getIdentity id with
  | some row =>
    rw [get_writeTarget hget] at h
    exact ⟨row, rfl, (Option.some.inj h).symm⟩
  | none =>
    cases htarget : s.target a with
    | none =>
      rw [writeTarget_of_none htarget, hget] at h
      cases h
    | some old =>
      have hold := target_mem htarget
      rw [writeTarget_of_some htarget, getIdentity, write,
        Table.get_put hold (update_id a old)] at h
      split_ifs at h with hid
      · exact absurd hid (Table.get_eq_none.mp hget old hold)
      · rw [getIdentity] at hget
        rw [hget] at h
        cases h

/-- The scout that is leased was available, and only it changes. -/
theorem leaseScout_eq_some {sourceId : Uuid} {scout : IdentityRow}
    (h : s.leaseScout sourceId = (t, some scout)) :
    ∃ old ∈ s.identities, old.state = .available ∧ scout = { old with state := .inUse } ∧
      t = s.write scout := by
  rw [leaseScout] at h
  split at h
  · cases h
  · next old hold =>
    obtain ⟨rfl, hscout⟩ := Prod.mk.inj h
    obtain rfl := Option.some.inj hscout
    obtain ⟨hmem, havailable⟩ := List.mem_filter.mp (firstByName_mem hold)
    simp only [availableScout, Bool.and_eq_true, decide_eq_true_eq] at havailable
    exact ⟨old, hmem, havailable.2, rfl, rfl⟩

/-- **What an operation does to a row.** Every row that is there stays; the operation changes
the row that it writes, and a freeze those that it selects. -/
theorem step_get (hstep : s.step a = some t) (hrow : s.getIdentity id = some row) :
    t.getIdentity id = some (s.after a row) := by
  cases a with
  | burn i =>
    obtain rfl := Option.some.inj hstep
    rw [burnIdentity_fst]
    exact get_writeTarget hrow
  | freezeAll sourceId =>
    obtain rfl := Option.some.inj hstep
    have hget := Table.get_updateAll s.identities (freeze_id sourceId) id
    exact hget.trans (congrArg (Option.map _) hrow)
  | lease sourceId =>
    obtain rfl := Option.some.inj hstep
    rw [leaseScout_fst]
    exact get_writeTarget hrow
  | graduate i now =>
    obtain rfl := Option.some.inj hstep
    rw [graduateIdentity_fst]
    exact get_writeTarget hrow
  | claim name now =>
    obtain rfl := Option.some.inj hstep
    rw [claim_fst]
    exact get_writeTarget hrow
  | release name newState now =>
    obtain rfl := Option.some.inj hstep
    rw [release_fst]
    exact get_writeTarget hrow
  | recover i =>
    obtain rfl := Option.some.inj hstep
    rw [recoverClaim_eq]
    exact get_writeTarget hrow
  | provision e =>
    obtain rfl := Option.some.inj hstep
    have hround := provisionEntry_identities (s := s) e
    obtain ⟨hmem, hid⟩ := getIdentity_eq_some.mp hrow
    have hafter : s.after (.provision e) row =
        if s.provisioned e = some row then { row with role := e.role } else row := rfl
    rw [hafter]
    cases htarget : s.provisioned e with
    | none =>
      rw [htarget] at hround
      rw [if_neg (by simp)]
      exact getIdentity_eq_some.mpr ⟨hround row hmem, hid⟩
    | some old =>
      rw [htarget] at hround
      rw [getIdentity, hround]
      exact get_write (f := fun row => { row with role := e.role }) hrow
        (provisioned_mem htarget) fun _ => rfl

theorem exists_step (s : IdentityStore) (a : Step) : ∃ t, s.step a = some t := by
  cases a <;> exact ⟨_, rfl⟩

/-! ## Terminal states -/

/-- Burned and in quarantine. -/
def Quarantined (row : IdentityRow) : Prop := row.state = .burned ∧ row.role = .quarantine

instance (row : IdentityRow) : Decidable (Quarantined row) :=
  inferInstanceAs (Decidable (_ ∧ _))

/-- If the identity is in quarantine, it still is. -/
def StaysQuarantined (id : Uuid) (s t : IdentityStore) : Prop :=
  ∀ row, s.getIdentity id = some row → Quarantined row →
    ∃ row', t.getIdentity id = some row' ∧ Quarantined row'

/-- If the identity is frozen, it is frozen or burned after this. -/
def StaysOut (id : Uuid) (s t : IdentityStore) : Prop :=
  ∀ row, s.getIdentity id = some row → row.state = .frozen →
    ∃ row', t.getIdentity id = some row' ∧ row'.state ∉ [.available, .cooling, .inUse]

/-- A quarantined identity keeps its state and its role through the rest of the run, and no
operation of the run brings a frozen one back. -/
def Lawful (id : Uuid) (s : IdentityStore) (as : List Step) : Prop :=
  Between step (StaysQuarantined id) s as ∧
    Along step (fun s a => ∀ t, s.step a = some t → StaysOut id s t) s as

/-- A release takes a quarantined identity to no other state and a frozen one to frozen or burned,
and neither a graduation nor an entry of the identities file gives a quarantined one another
role. -/
def Respects (id : Uuid) (s : IdentityStore) (a : Step) : Prop :=
  ∀ row, s.getIdentity id = some row →
    match a with
    | .release name newState _ => s.getIdentityByName name = some row →
        (Quarantined row → newState = .burned) ∧
        (row.state = .frozen → newState ∉ [.available, .cooling, .inUse])
    | .graduate i _ => i = id → ¬ Quarantined row
    | .provision e => s.provisioned e = some row → Quarantined row → e.role = .quarantine
    | _ => True

/-- The law for one operation, on the row. -/
theorem staysQuarantined_iff (hstep : s.step a = some t) :
    StaysQuarantined id s t ↔
      ∀ row, s.getIdentity id = some row → Quarantined row → Quarantined (s.after a row) := by
  refine forall₂_congr fun row hrow => imp_congr_right fun _ => ?_
  rw [step_get hstep hrow]
  simp

theorem staysOut_iff (hstep : s.step a = some t) :
    StaysOut id s t ↔ ∀ row, s.getIdentity id = some row → row.state = .frozen →
      (s.after a row).state ∉ [.available, .cooling, .inUse] := by
  refine forall₂_congr fun row hrow => imp_congr_right fun _ => ?_
  rw [step_get hstep hrow]
  simp

theorem checkClaim_isOk_iff {now : ℤ} : (checkClaim row now).isOk = true ↔
    row.state = .available ∨ row.state = .cooling ∧ cooldownElapsed row now = true := by
  rw [checkClaim]
  cases row.state <;> cases cooldownElapsed row now <;> simp [Except.isOk, Except.toBool]

/-- What the law asks of one row and its successor. -/
def RowLawful (row row' : IdentityRow) : Prop :=
  (Quarantined row → Quarantined row') ∧
    (row.state = .frozen → row'.state ∉ [.available, .cooling, .inUse])

theorem RowLawful.refl (row : IdentityRow) : RowLawful row row :=
  ⟨id, fun hfrozen => by simp [hfrozen]⟩

/-- An operation that selects its row for being neither burned nor frozen keeps the law. -/
theorem RowLawful.of_selected
    (hafter : s.after a row = if s.target a = some row then a.update row else row)
    (h : s.target a = some row → row.state ∉ [.burned, .frozen]) :
    RowLawful row (s.after a row) := by
  rw [hafter]
  split_ifs with htarget
  · have hstate := h htarget
    rw [List.mem_cons, List.mem_singleton, not_or] at hstate
    exact ⟨fun hq => absurd hq.1 hstate.1, fun hfrozen => absurd hfrozen hstate.2⟩
  · exact .refl row

/-- An operation on a given row keeps the law exactly when its update of that row does. -/
theorem rowLawful_iff
    (hafter : s.after a row = if s.target a = some row then a.update row else row) :
    RowLawful row (s.after a row) ↔ (s.target a = some row → RowLawful row (a.update row)) := by
  rw [hafter]
  split_ifs with htarget
  · exact ⟨fun h _ => h, fun h => h htarget⟩
  · exact iff_of_true (.refl row) fun h => absurd h htarget

/-- One operation keeps the law exactly when it respects the row. -/
theorem respects_iff (hstep : s.step a = some t) :
    StaysQuarantined id s t ∧ StaysOut id s t ↔ Respects id s a := by
  rw [staysQuarantined_iff hstep, staysOut_iff hstep, ← forall₂_and]
  refine forall₂_congr fun row hrow => ?_
  obtain ⟨hmem, hid⟩ := getIdentity_eq_some.mp hrow
  change RowLawful row (s.after a row) ↔ _
  cases a with
  | burn i =>
    refine iff_of_true ((rowLawful_iff rfl).mpr fun _ => ?_) trivial
    exact ⟨fun _ => ⟨rfl, rfl⟩, fun _ => by simp [Step.update]⟩
  | freezeAll sourceId =>
    refine iff_of_true ?_ trivial
    simp only [after, freeze]
    split_ifs with hfreezable
    · refine ⟨fun hq => ?_, fun _ => by simp⟩
      simp [freezable, hq.1] at hfreezable
    · exact .refl row
  | lease sourceId =>
    refine iff_of_true (.of_selected rfl fun htarget => ?_) trivial
    have havailable := (List.mem_filter.mp (firstByName_mem htarget)).2
    simp only [availableScout, Bool.and_eq_true, decide_eq_true_eq] at havailable
    simp [havailable.2]
  | claim name now =>
    refine iff_of_true (.of_selected rfl fun htarget => ?_) trivial
    have hclaim := checkClaim_isOk_iff.mp (Option.filter_eq_some_iff.mp htarget).2
    rcases hclaim with hstate | ⟨hstate, -⟩ <;> simp [hstate]
  | recover i =>
    refine iff_of_true (.of_selected rfl fun htarget => ?_) trivial
    have huse := of_decide_eq_true (Option.filter_eq_some_iff.mp htarget).2
    simp [huse]
  | graduate i now =>
    rw [rowLawful_iff rfl]
    have htarget : s.target (.graduate i now) = some row ↔ i = id := by
      refine ⟨fun h => (getIdentity_eq_some.mp h).2.symm.trans hid, ?_⟩
      rintro rfl
      exact hrow
    rw [htarget]
    refine imp_congr_right fun _ => ⟨fun h hq => ?_, fun h => ⟨fun hq => absurd hq h, ?_⟩⟩
    · -- a quarantined row has become a monitor
      have hrole : IdentityRole.monitor = .quarantine := (h.1 hq).2
      cases hrole
    · intro hfrozen
      simp [Step.update, hfrozen]
  | release name newState now =>
    rw [rowLawful_iff rfl]
    refine imp_congr_right fun _ => ⟨fun h => ⟨fun hq => (h.1 hq).1, h.2⟩, fun h => ?_⟩
    exact ⟨fun hq => ⟨h.1 hq, hq.2⟩, h.2⟩
  | provision e =>
    rw [rowLawful_iff rfl]
    refine imp_congr_right fun _ => ⟨fun h hq => (h.1 hq).2, fun h => ⟨fun hq => ⟨hq.1, h hq⟩, ?_⟩⟩
    intro hfrozen
    simp [Step.update, hfrozen]

/-- **Terminal identities.** Over every sequence of operations, a quarantined identity keeps its
state and role and a frozen one is not brought back exactly when every operation respects the
row of the identity. -/
theorem lawful_iff_respected (id : Uuid) (s : IdentityStore) (as : List Step) :
    Lawful id s as ↔ Along step (Respects id) s as := by
  obtain ⟨t, hrun⟩ := exists_run exists_step s as
  have hbetween : Between step (StaysQuarantined id) s as ↔
      Along step (fun s a => ∀ t, s.step a = some t → StaysQuarantined id s t) s as := by
    refine between_iff_along (I := fun _ => True) (fun s row hrow hq => ⟨row, hrow, hq⟩)
      (fun h h' row hrow hq => ?_)
      (fun _ hstep => ⟨trivial, fun h t' ht' => ?_, fun h => h _ hstep⟩)
      trivial hrun
    · obtain ⟨row', hrow', hq'⟩ := h row hrow hq
      exact h' row' hrow' hq'
    · obtain rfl := Option.some.inj (hstep.symm.trans ht')
      exact h
  rw [Lawful, hbetween, ← along_and]
  refine along_congr fun s a => ?_
  obtain ⟨t, ht⟩ := exists_step s a
  rw [← respects_iff ht, ht]
  simp

/-! ### A quarantined scout back in rotation -/

/-- One scout of one source. -/
def oneScout : IdentityStore where
  sources := ⟨[⟨1, .telegram, "telegram:a"⟩], by decide⟩
  identities := ⟨[⟨2, "a", 1, 0, none, .inUse, .scout, none⟩], by decide⟩

/-- The claimed scout is burned and its collector releases it on the way out; a frozen one comes
back the same way; and a burned one graduates. -/
theorem release_after_burn :
    ¬ Lawful 2 oneScout [.burn 2, .release "a" .available 5] ∧
      ¬ Lawful 2 oneScout [.freezeAll none, .release "a" .available 5] ∧
      ¬ Lawful 2 oneScout [.burn 2, .graduate 2 5] := by
  refine ⟨fun h => ?_, fun h => ?_, fun h => ?_⟩
  · obtain ⟨row, hrow, hq⟩ := h.1 [.burn 2] [.release "a" .available 5] (List.prefix_refl _) _ _
      rfl rfl _ rfl ⟨rfl, rfl⟩
    obtain rfl := Option.some.inj hrow
    exact absurd hq (by decide)
  · have hback := (along_cons.mp ((along_cons.mp h.2).2 _ rfl)).1
    obtain ⟨row, hrow, hstate⟩ := hback _ rfl _ rfl rfl
    obtain rfl := Option.some.inj hrow
    exact absurd hstate (by decide)
  · obtain ⟨row, hrow, hq⟩ := h.1 [.burn 2] [.graduate 2 5] (List.prefix_refl _) _ _
      rfl rfl _ rfl ⟨rfl, rfl⟩
    obtain rfl := Option.some.inj hrow
    exact absurd hq (by decide)

end IdentityStore

end Eyenet
