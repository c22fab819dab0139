import Eyenet.Machine
import Eyenet.Reclassify
import Eyenet.Table
import Mathlib.Data.Rat.Defs

/-!
# Cases

A case groups evidence for an investigation (`sqlmodel_repo/cases.py`). Its members are evidence
rows of other tables, its collaborators are users; both are removed softly. The case row keeps the
greatest effective tier of its members, which is computed again after a member is added or removed.
The tiers themselves change by the reclassify calls and by the classifier, which know nothing of
cases.

* `CaseStore.CaseWrite` — what the operations on the case row alone can do.
* `addCaseMember_cases`, `removeCaseMember_cases` — what the operations on members can do.
* `CaseStore.step` — one call.
-/

namespace Eyenet

/-! ## Rows -/

/-- `CaseStatus` -/
inductive CaseStatus where
  | «open»
  | closed
  | archived
  deriving DecidableEq, Repr

/-- The member's value. -/
def CaseStatus.value : CaseStatus → String
  | «open» => "open"
  | closed => "closed"
  | archived => "archived"

/-- `CaseSubjectKind` -/
inductive CaseSubjectKind where
  | observation
  | attachment
  | message
  | actor
  | persona
  | linkage
  deriving DecidableEq, Repr

/-- The member's value. -/
def CaseSubjectKind.value : CaseSubjectKind → String
  | observation => "observation"
  | attachment => "attachment"
  | message => "message"
  | actor => "actor"
  | persona => "persona"
  | linkage => "linkage"

/-- `CaseRoleOnCase` -/
inductive CaseRoleOnCase where
  | owner
  | analyst
  | reviewer
  deriving DecidableEq, Repr

/-- `RedundancyPolicy` -/
inductive RedundancyPolicy where
  | preferSingle
  | preferDual
  | requiredDual
  deriving DecidableEq, Repr

/-- `AutoJoinPolicy` -/
inductive AutoJoinPolicy where
  | disabled
  | scoreThreshold
  | scoreThresholdWithRoleGate
  deriving DecidableEq, Repr

/-- The columns `…_at`, `…_by_user_id` and the reason of a closing, an archiving, a removal or a
revocation, under the table's `CHECK` (`_triplet_check`): all are null or none is. -/
structure Triplet where
  moment : Option ℤ
  byUserId : Option Uuid
  reason : Option String
  check : moment.isSome = byUserId.isSome ∧ moment.isSome = reason.isSome
  deriving DecidableEq

namespace Triplet

/-- All columns are null. -/
def null : Triplet := ⟨none, none, none, rfl, rfl⟩

/-- All columns are set. -/
def set (moment : ℤ) (byUserId : Uuid) (reason : String) : Triplet :=
  ⟨some moment, some byUserId, some reason, rfl, rfl⟩

/-- No column is null. -/
def IsSet (t : Triplet) : Prop :=
  t.moment.isSome = true ∧ t.byUserId.isSome = true ∧ t.reason.isSome = true

theorem isSet_set (moment : ℤ) (byUserId : Uuid) (reason : String) :
    (set moment byUserId reason).IsSet :=
  ⟨rfl, rfl, rfl⟩

/-- The columns are set together, by the `CHECK`. -/
theorem isSet_or_eq_null (t : Triplet) : t.IsSet ∨ t = null := by
  obtain ⟨moment, byUserId, reason, hby, hreason⟩ := t
  cases moment with
  | none =>
    obtain rfl : byUserId = none := by simpa using hby.symm
    obtain rfl : reason = none := by simpa using hreason.symm
    exact Or.inr rfl
  | some m => exact Or.inl ⟨rfl, hby.symm, hreason.symm⟩

theorem not_isSet_null : ¬ null.IsSet := fun h => Bool.noConfusion h.1

end Triplet

/-- A row of `case_v2`. -/
structure CaseRow where
  id : Uuid
  title : String
  description : Option String
  status : CaseStatus
  crewKey : Option String
  effectiveTier : SensitivityTier
  createdByUserId : Uuid
  createdAt : ℤ
  /-- `closed_at`, `closed_by_user_id`, `close_reason` -/
  closed : Triplet
  /-- `archived_at`, `archived_by_user_id`, `archive_reason` -/
  archived : Triplet
  parentCaseId : Option Uuid
  seedRootGroupIds : List Uuid
  redundancyPolicy : RedundancyPolicy
  autoJoinPolicy : AutoJoinPolicy
  /-- a float that is stored and never computed with -/
  autoJoinScoreThreshold : Option ℚ
  deriving DecidableEq

/-- A row of `case_member`. -/
structure CaseMemberRow where
  id : Uuid
  caseId : Uuid
  subjectKind : CaseSubjectKind
  subjectId : Uuid
  addedByUserId : Uuid
  addedAt : ℤ
  addReason : String
  /-- `removed_at`, `removed_by_user_id`, `removal_reason` -/
  removed : Triplet
  deriving DecidableEq

/-- A row of `case_collaborator`. -/
structure CaseCollaboratorRow where
  id : Uuid
  caseId : Uuid
  userId : Uuid
  roleOnCase : CaseRoleOnCase
  grantedByUserId : Uuid
  grantedAt : ℤ
  /-- `revoked_at`, `revoked_by_user_id`, `revocation_reason` -/
  revoked : Triplet
  deriving DecidableEq

/-- The tier columns of an observation or an attachment. -/
structure TieredRow where
  id : Uuid
  tiers : TierRow
  deriving DecidableEq

/-- `removed_at IS NULL`, on this case. -/
def CaseMemberRow.ActiveOn (m : CaseMemberRow) (caseId : Uuid) : Prop :=
  m.caseId = caseId ∧ m.removed.moment = none

instance (m : CaseMemberRow) (caseId : Uuid) : Decidable (m.ActiveOn caseId) :=
  inferInstanceAs (Decidable (_ ∧ _))

/-- The member refers to this row. -/
def CaseMemberRow.IsSubject (m : CaseMemberRow) (kind : CaseSubjectKind) (subjectId : Uuid) :
    Prop :=
  m.subjectKind = kind ∧ m.subjectId = subjectId

instance (m : CaseMemberRow) (kind : CaseSubjectKind) (subjectId : Uuid) :
    Decidable (m.IsSubject kind subjectId) :=
  inferInstanceAs (Decidable (_ ∧ _))

/-- `revoked_at IS NULL`, on this case. -/
def CaseCollaboratorRow.ActiveOn (r : CaseCollaboratorRow) (caseId : Uuid) : Prop :=
  r.caseId = caseId ∧ r.revoked.moment = none

instance (r : CaseCollaboratorRow) (caseId : Uuid) : Decidable (r.ActiveOn caseId) :=
  inferInstanceAs (Decidable (_ ∧ _))

/-! ## Errors and replies -/

/-- What a call raises. -/
inductive CaseError where
  | caseError (message : String)
  /-- the database refuses a key that is taken -/
  | integrityError
  /-- the contract refuses the row that was just committed -/
  | validationError
  deriving DecidableEq, Repr

/-- `_require_case` without a row -/
def caseNotFound (caseId : Uuid) : CaseError :=
  .caseError ("case " ++ uuidText caseId ++ " not found")

/-- `_MIN_TITLE_LEN` -/
def minTitleLen : ℕ := 3

/-- The greatest length of a reason in the contracts; the tables do not enforce it. -/
def maxReasonLen : ℕ := 1024

/-- The reason column is short enough for its contract. -/
def Triplet.readable (t : Triplet) : Bool := t.reason.all fun r => r.length ≤ maxReasonLen

/-- `_case_row` -/
def caseRow (table : CaseRow) : Except CaseError CaseRow :=
  if minTitleLen ≤ table.title.length ∧ table.title.length ≤ 256 ∧
      (table.description.all fun d => d.length ≤ 8192) ∧ table.closed.readable ∧
      table.archived.readable then .ok table
  else .error .validationError

/-- The row meets the bounds of its contract. -/
def CaseMemberRow.readable (m : CaseMemberRow) : Bool :=
  minReasonLen ≤ m.addReason.length && m.addReason.length ≤ maxReasonLen && m.removed.readable

/-- `_member_row` -/
def memberRow (table : CaseMemberRow) : Except CaseError CaseMemberRow :=
  if table.readable then .ok table else .error .validationError

/-- `_collab_row` -/
def collabRow (table : CaseCollaboratorRow) : Except CaseError CaseCollaboratorRow :=
  if table.revoked.readable then .ok table else .error .validationError

/-! ## The store and its operations -/

/-- The tables that the calls read and write. -/
structure CaseStore where
  cases : Table CaseRow.id
  members : Table CaseMemberRow.id
  collaborators : Table CaseCollaboratorRow.id
  observations : Table TieredRow.id
  attachments : Table TieredRow.id

namespace CaseStore

/-- The store before the first call. -/
def init : CaseStore := ⟨.empty, .empty, .empty, .empty, .empty⟩

/-- `INSERT` of a case, and the reply. -/
def insertCase (s : CaseStore) (table : CaseRow) : CaseStore × Except CaseError CaseRow :=
  match s.cases.insert table with
  | none => (s, .error .integrityError)
  | some cases => ({ s with cases := cases }, caseRow table)

/-- `UPDATE` of a case, and the reply: the row is validated after the commit. -/
def commitCase (s : CaseStore) (table : CaseRow) : CaseStore × Except CaseError CaseRow :=
  ({ s with cases := s.cases.put table }, caseRow table)

/-- `create_case` -/
def createCase (s : CaseStore) (newId : Uuid) (title : String) (description : Option String)
    (openedByUserId : Uuid) (now : ℤ) (crewKey : Option String) :
    CaseStore × Except CaseError CaseRow :=
  if title.length < minTitleLen then
    (s, .error (.caseError "title must be at least 3 characters"))
  else s.insertCase
    { id := newId, title := title, description := description, status := .open,
      crewKey := crewKey, effectiveTier := .normal, createdByUserId := openedByUserId,
      createdAt := now, closed := .null, archived := .null, parentCaseId := none,
      seedRootGroupIds := [], redundancyPolicy := .preferSingle, autoJoinPolicy := .disabled,
      autoJoinScoreThreshold := none }

/-- `update_case` -/
def updateCase (s : CaseStore) (caseId : Uuid) (title description : Option String) :
    CaseStore × Except CaseError CaseRow :=
  match s.cases.get caseId with
  | none => (s, .error (caseNotFound caseId))
  | some table =>
    if table.status = .archived then
      (s, .error (.caseError "archived cases cannot be updated"))
    else
      -- an argument that repeats what is stored is no change
      let newTitle := title.filter fun t => t ≠ table.title
      let newDescription := description.filter fun d => some d ≠ table.description
      if newTitle.any fun t => t.length < minTitleLen then
        (s, .error (.caseError "title must be at least 3 characters"))
      else if newTitle.isNone && newDescription.isNone then (s, caseRow table)
      else s.commitCase { table with
        title := newTitle.getD table.title
        description := newDescription.or table.description }

/-- `close_case` -/
def closeCase (s : CaseStore) (caseId closerUserId : Uuid) (reason : String) (now : ℤ) :
    CaseStore × Except CaseError CaseRow :=
  if reason.length < minReasonLen then
    (s, .error (.caseError "close reason must be at least 16 characters"))
  else match s.cases.get caseId with
    | none => (s, .error (caseNotFound caseId))
    | some table =>
      if table.status ≠ .open then
        (s, .error (.caseError ("cannot close case in status " ++ table.status.value)))
      else s.commitCase
        { table with status := .closed, closed := .set now closerUserId reason }

/-- `reopen_case` -/
def reopenCase (s : CaseStore) (caseId : Uuid) : CaseStore × Except CaseError CaseRow :=
  match s.cases.get caseId with
  | none => (s, .error (caseNotFound caseId))
  | some table =>
    if table.status ≠ .closed then
      (s, .error (.caseError
        ("only CLOSED cases can be reopened (got " ++ table.status.value ++ ")")))
    else s.commitCase { table with status := .open, closed := .null }

/-- `reopen_archived_case` -/
def reopenArchivedCase (s : CaseStore) (newId caseId reopenerUserId : Uuid) (reason : String)
    (now : ℤ) : CaseStore × Except CaseError CaseRow :=
  if reason.length < minReasonLen then
    (s, .error (.caseError "reopen reason must be at least 16 characters"))
  else match s.cases.get caseId with
    | none => (s, .error (caseNotFound caseId))
    | some archived =>
      if archived.status ≠ .archived then
        (s, .error (.caseError
          ("only ARCHIVED cases reopen into a successor (got " ++ archived.status.value ++ ")")))
      else s.insertCase
        { id := newId, title := archived.title, description := archived.description,
          status := .open, crewKey := none, effectiveTier := .normal,
          createdByUserId := reopenerUserId, createdAt := now, closed := .null, archived := .null,
          parentCaseId := some archived.id, seedRootGroupIds := archived.seedRootGroupIds,
          redundancyPolicy := archived.redundancyPolicy, autoJoinPolicy := archived.autoJoinPolicy,
          autoJoinScoreThreshold := archived.autoJoinScoreThreshold }

/-- `archive_case` -/
def archiveCase (s : CaseStore) (caseId archiverUserId : Uuid) (reason : String) (now : ℤ) :
    CaseStore × Except CaseError CaseRow :=
  if reason.length < minReasonLen then
    (s, .error (.caseError "archive reason must be at least 16 characters"))
  else match s.cases.get caseId with
    | none => (s, .error (caseNotFound caseId))
    | some table =>
      if table.status ≠ .closed then
        (s, .error (.caseError
          ("only CLOSED cases can be archived (got " ++ table.status.value ++ ")")))
      else s.commitCase
        { table with status := .archived, archived := .set now archiverUserId reason }

/-- `update_case_discovery_policy` -/
def updateCaseDiscoveryPolicy (s : CaseStore) (caseId : Uuid)
    (seedRootGroupIds : Option (List Uuid)) (redundancyPolicy : Option RedundancyPolicy)
    (autoJoinPolicy : Option AutoJoinPolicy) (autoJoinScoreThreshold : Option ℚ)
    (clearScoreThreshold : Bool) : CaseStore × Except CaseError CaseRow :=
  match s.cases.get caseId with
  | none => (s, .error (caseNotFound caseId))
  | some table =>
    if table.status = .archived then
      (s, .error (.caseError "archived cases cannot be updated"))
    else s.commitCase { table with
      seedRootGroupIds := seedRootGroupIds.getD table.seedRootGroupIds
      redundancyPolicy := redundancyPolicy.getD table.redundancyPolicy
      autoJoinPolicy := autoJoinPolicy.getD table.autoJoinPolicy
      autoJoinScoreThreshold :=
        if clearScoreThreshold then none
        else autoJoinScoreThreshold.or table.autoJoinScoreThreshold }

/-- The effective tier of the row that a member refers to; `none` when the row is missing or has
no tier. -/
def subjectTier (s : CaseStore) (kind : CaseSubjectKind) (subjectId : Uuid) :
    Option SensitivityTier :=
  match kind with
  | .observation => (s.observations.get subjectId).map fun o => o.tiers.effectiveTier
  | .attachment => (s.attachments.get subjectId).map fun a => a.tiers.effectiveTier
  | _ => none

/-- The effective tier of a member. -/
def memberTier (s : CaseStore) (m : CaseMemberRow) : Option SensitivityTier :=
  s.subjectTier m.subjectKind m.subjectId

/-- `RANK_TIER` -/
def rankTier : ℕ → SensitivityTier
  | 0 => .normal
  | 1 => .restricted
  | _ => .classified

/-- One round of the loop of `_recompute_effective_tier`. -/
def maxRank (s : CaseStore) (rank : ℕ) (m : CaseMemberRow) : ℕ :=
  match s.memberTier m with
  | none => rank
  | some eff => max rank eff.rank

/-- `_recompute_effective_tier` -/
def recomputeEffectiveTier (s : CaseStore) (caseId : Uuid) : SensitivityTier :=
  rankTier ((s.members.rows.filter fun m => m.ActiveOn caseId).foldl s.maxRank 0)

/-- `_maybe_emit_tier_change` -/
def maybeEmitTierChange (s : CaseStore) (caseId : Uuid) : CaseStore :=
  match s.cases.get caseId with
  | none => s
  | some table =>
    let newTier := s.recomputeEffectiveTier caseId
    if newTier = table.effectiveTier then s
    else { s with cases := s.cases.put { table with effectiveTier := newTier } }

/-- `add_case_member` up to the `INSERT`. -/
def newCaseMember (s : CaseStore) (newId caseId : Uuid) (subjectKind : CaseSubjectKind)
    (subjectId addedByUserId : Uuid) (reason : String) (now : ℤ) :
    Except CaseError CaseMemberRow :=
  if reason.length < minReasonLen then
    .error (.caseError "add_reason must be at least 16 characters")
  else match s.cases.get caseId with
    | none => .error (caseNotFound caseId)
    | some case =>
      if case.status = .archived then
        .error (.caseError "cannot add members to an archived case")
      else if s.members.rows.any fun m => m.ActiveOn caseId ∧
          m.IsSubject subjectKind subjectId then
        .error (.caseError
          (subjectKind.value ++ ":" ++ uuidText subjectId ++ " is already an active member"))
      else .ok
        { id := newId, caseId := caseId, subjectKind := subjectKind, subjectId := subjectId,
          addedByUserId := addedByUserId, addedAt := now, addReason := reason, removed := .null }

/-- `add_case_member` -/
def addCaseMember (s : CaseStore) (newId caseId : Uuid) (subjectKind : CaseSubjectKind)
    (subjectId addedByUserId : Uuid) (reason : String) (now : ℤ) :
    CaseStore × Except CaseError CaseMemberRow :=
  match s.newCaseMember newId caseId subjectKind subjectId addedByUserId reason now with
  | .error e => (s, .error e)
  | .ok table =>
    match s.members.insert table with
    | none => (s, .error .integrityError)
    | some members =>
      let committed := { s with members := members }
      -- the row is stored by now, and a reply that is refused costs the recomputation
      match memberRow table with
      | .error e => (committed, .error e)
      | .ok row => (committed.maybeEmitTierChange caseId, .ok row)

/-- `remove_case_member` up to the `UPDATE`. -/
def removedCaseMember (s : CaseStore) (memberId removerUserId : Uuid) (reason : String) (now : ℤ) :
    Except CaseError CaseMemberRow :=
  if reason.length < minReasonLen then
    .error (.caseError "removal reason must be at least 16 characters")
  else match s.members.get memberId with
    | none => .error (.caseError ("member " ++ uuidText memberId ++ " not found"))
    | some table =>
      -- the case of the member is not loaded, archived or not
      if table.removed.moment ≠ none then
        .error (.caseError ("member " ++ uuidText memberId ++ " already removed"))
      else .ok { table with removed := .set now removerUserId reason }

/-- `remove_case_member` -/
def removeCaseMember (s : CaseStore) (memberId removerUserId : Uuid) (reason : String) (now : ℤ) :
    CaseStore × Except CaseError CaseMemberRow :=
  match s.removedCaseMember memberId removerUserId reason now with
  | .error e => (s, .error e)
  | .ok table =>
    let committed := { s with members := s.members.put table }
    match memberRow table with
    | .error e => (committed, .error e)
    | .ok row => (committed.maybeEmitTierChange table.caseId, .ok row)

/-- `add_case_collaborator` -/
def addCaseCollaborator (s : CaseStore) (newId caseId userId : Uuid) (role : CaseRoleOnCase)
    (grantedByUserId : Uuid) (now : ℤ) : CaseStore × Except CaseError CaseCollaboratorRow :=
  match s.cases.get caseId with
  | none => (s, .error (caseNotFound caseId))
  | some case =>
    if case.status = .archived then
      (s, .error (.caseError "cannot add collaborators to an archived case"))
    else if s.collaborators.rows.any fun r => r.ActiveOn caseId ∧ r.userId = userId then
      (s, .error (.caseError ("user " ++ uuidText userId ++ " is already an active collaborator")))
    else
      let table : CaseCollaboratorRow :=
        { id := newId, caseId := caseId, userId := userId, roleOnCase := role,
          grantedByUserId := grantedByUserId, grantedAt := now, revoked := .null }
      match s.collaborators.insert table with
      | none => (s, .error .integrityError)
      | some collaborators => ({ s with collaborators := collaborators }, collabRow table)

/-- `revoke_case_collaborator` up to the `UPDATE`. -/
def revokedCaseCollaborator (s : CaseStore) (collaboratorId revokerUserId : Uuid) (reason : String)
    (now : ℤ) : Except CaseError CaseCollaboratorRow :=
  if reason.length < minReasonLen then
    .error (.caseError "revocation reason must be at least 16 characters")
  else match s.collaborators.get collaboratorId with
    | none => .error (.caseError ("collaborator " ++ uuidText collaboratorId ++ " not found"))
    | some table =>
      -- nor is the case of the collaborator
      if table.revoked.moment ≠ none then
        .error (.caseError ("collaborator " ++ uuidText collaboratorId ++ " already revoked"))
      else .ok { table with revoked := .set now revokerUserId reason }

/-- `revoke_case_collaborator` -/
def revokeCaseCollaborator (s : CaseStore) (collaboratorId revokerUserId : Uuid) (reason : String)
    (now : ℤ) : CaseStore × Except CaseError CaseCollaboratorRow :=
  match s.revokedCaseCollaborator collaboratorId revokerUserId reason now with
  | .error e => (s, .error e)
  | .ok table => ({ s with collaborators := s.collaborators.put table }, collabRow table)

/-- `reclassify_observation` or `reclassify_attachment` on the table of the kind: the table after
the call. -/
def reclassifyIn (kind : SubjectKind) (table : Table TieredRow.id) (id : Uuid)
    (newTier : SensitivityTier) (reason : String) : Table TieredRow.id :=
  match table.get id with
  | none => table
  | some row =>
    match reclassifyFor kind (uuidText id) row.tiers newTier reason with
    | .ok .promote =>
      match row.tiers.setOverride newTier with
      | none => table
      | some tiers => table.put { row with tiers := tiers }
    | _ => table

/-- `set_attachment_classification` on the table of attachments. -/
def setClassificationIn (table : Table TieredRow.id) (id : Uuid) (tier : SensitivityTier) :
    Table TieredRow.id :=
  match table.get id with
  | none => table
  | some row =>
    match row.tiers.setClassifierTier tier with
    | none => table
    | some tiers => table.put { row with tiers := tiers }

end CaseStore

/-- One call. -/
inductive CaseStep where
  | createCase (newId : Uuid) (title : String) (description : Option String)
      (openedByUserId : Uuid) (now : ℤ) (crewKey : Option String)
  | updateCase (caseId : Uuid) (title description : Option String)
  | closeCase (caseId closerUserId : Uuid) (reason : String) (now : ℤ)
  | reopenCase (caseId : Uuid)
  | reopenArchivedCase (newId caseId reopenerUserId : Uuid) (reason : String) (now : ℤ)
  | archiveCase (caseId archiverUserId : Uuid) (reason : String) (now : ℤ)
  | updateCaseDiscoveryPolicy (caseId : Uuid) (seedRootGroupIds : Option (List Uuid))
      (redundancyPolicy : Option RedundancyPolicy) (autoJoinPolicy : Option AutoJoinPolicy)
      (autoJoinScoreThreshold : Option ℚ) (clearScoreThreshold : Bool)
  | addCaseMember (newId caseId : Uuid) (subjectKind : CaseSubjectKind)
      (subjectId addedByUserId : Uuid) (reason : String) (now : ℤ)
  | removeCaseMember (memberId removerUserId : Uuid) (reason : String) (now : ℤ)
  | addCaseCollaborator (newId caseId userId : Uuid) (role : CaseRoleOnCase)
      (grantedByUserId : Uuid) (now : ℤ)
  | revokeCaseCollaborator (collaboratorId revokerUserId : Uuid) (reason : String) (now : ℤ)
  /-- `_maybe_emit_tier_change` on its own -/
  | recomputeTier (caseId : Uuid)
  /-- `put_observation` -/
  | putObservation (row : TieredRow)
  /-- the row of an attachment is inserted with its message -/
  | putAttachment (row : TieredRow)
  | reclassifyObservation (observationId : Uuid) (newTier : SensitivityTier) (reason : String)
  | reclassifyAttachment (attachmentId : Uuid) (newTier : SensitivityTier) (reason : String)
  | setAttachmentClassification (attachmentId : Uuid) (tier : SensitivityTier)

namespace CaseStore

/-- One call; a call that raises counts as a step, with what it has committed. -/
def step (s : CaseStore) : CaseStep → Option CaseStore
  | .createCase newId title description openedByUserId now crewKey =>
    some (s.createCase newId title description openedByUserId now crewKey).1
  | .updateCase caseId title description => some (s.updateCase caseId title description).1
  | .closeCase caseId closerUserId reason now =>
    some (s.closeCase caseId closerUserId reason now).1
  | .reopenCase caseId => some (s.reopenCase caseId).1
  | .reopenArchivedCase newId caseId reopenerUserId reason now =>
    some (s.reopenArchivedCase newId caseId reopenerUserId reason now).1
  | .archiveCase caseId archiverUserId reason now =>
    some (s.archiveCase caseId archiverUserId reason now).1
  | .updateCaseDiscoveryPolicy caseId roots redundancy autoJoin threshold clear =>
    some (s.updateCaseDiscoveryPolicy caseId roots redundancy autoJoin threshold clear).1
  | .addCaseMember newId caseId subjectKind subjectId addedByUserId reason now =>
    some (s.addCaseMember newId caseId subjectKind subjectId addedByUserId reason now).1
  | .removeCaseMember memberId removerUserId reason now =>
    some (s.removeCaseMember memberId removerUserId reason now).1
  | .addCaseCollaborator newId caseId userId role grantedByUserId now =>
    some (s.addCaseCollaborator newId caseId userId role grantedByUserId now).1
  | .revokeCaseCollaborator collaboratorId revokerUserId reason now =>
    some (s.revokeCaseCollaborator collaboratorId revokerUserId reason now).1
  | .recomputeTier caseId => some (s.maybeEmitTierChange caseId)
  | .putObservation row =>
    some { s with observations := (s.observations.insert row).getD s.observations }
  | .putAttachment row =>
    some { s with attachments := (s.attachments.insert row).getD s.attachments }
  | .reclassifyObservation id newTier reason =>
    some { s with observations := reclassifyIn .observation s.observations id newTier reason }
  | .reclassifyAttachment id newTier reason =>
    some { s with attachments := reclassifyIn .attachment s.attachments id newTier reason }
  | .setAttachmentClassification id tier =>
    some { s with attachments := setClassificationIn s.attachments id tier }

end CaseStore

/-! ## What the operations do -/

/-- The lifecycle columns go with the status. -/
structure CaseRow.Lifecycle (c : CaseRow) : Prop where
  closed : c.closed.IsSet ↔ c.status = .closed ∨ c.status = .archived
  archived : c.archived.IsSet ↔ c.status = .archived

namespace CaseStore

variable {s : CaseStore}

/-- What an operation on the case row alone can do. -/
inductive CaseWrite (s : CaseStore) : CaseStore → Prop
  /-- refused, or nothing to write -/
  | stay : CaseWrite s s
  /-- a new case, open and without members -/
  | insert {c : CaseRow} {cases : Table CaseRow.id} (hinsert : s.cases.insert c = some cases)
      (htier : c.effectiveTier = .normal) (hlife : c.Lifecycle) :
      CaseWrite s { s with cases := cases }
  /-- a case that is not archived is written -/
  | put {c c' : CaseRow} (hc : c ∈ s.cases) (hid : c'.id = c.id)
      (htier : c'.effectiveTier = c.effectiveTier) (hstatus : c.status ≠ .archived)
      (hlife : c.Lifecycle → c'.Lifecycle) : CaseWrite s { s with cases := s.cases.put c' }

theorem insertCase_write {c : CaseRow} (htier : c.effectiveTier = .normal) (hlife : c.Lifecycle) :
    CaseWrite s (s.insertCase c).1 := by
  rw [insertCase]
  cases hinsert : s.cases.insert c with
  | none => exact .stay
  | some cases => exact .insert hinsert htier hlife

/-- A case is created with null lifecycle columns. -/
theorem lifecycle_open {c : CaseRow} (hstatus : c.status = .open) (hclosed : c.closed = .null)
    (harchived : c.archived = .null) : c.Lifecycle := by
  refine ⟨?_, ?_⟩
  · simp [hstatus, hclosed, Triplet.not_isSet_null]
  · simp [hstatus, harchived, Triplet.not_isSet_null]

theorem createCase_write (newId : Uuid) (title : String) (description : Option String)
    (openedByUserId : Uuid) (now : ℤ) (crewKey : Option String) :
    CaseWrite s (s.createCase newId title description openedByUserId now crewKey).1 := by
  rw [createCase]
  split_ifs
  · exact .stay
  · exact insertCase_write rfl (lifecycle_open rfl rfl rfl)

theorem updateCase_write (caseId : Uuid) (title description : Option String) :
    CaseWrite s (s.updateCase caseId title description).1 := by
  rw [updateCase]
  cases hget : s.cases.get caseId with
  | none => exact .stay
  | some c =>
    dsimp only
    split_ifs with hstatus
    · exact .stay
    · exact .stay
    · exact .stay
    · exact .put (Table.get_eq_some.mp hget).1 rfl rfl hstatus fun h => ⟨h.closed, h.archived⟩

theorem closeCase_write (caseId closerUserId : Uuid) (reason : String) (now : ℤ) :
    CaseWrite s (s.closeCase caseId closerUserId reason now).1 := by
  rw [closeCase]
  split_ifs
  · exact .stay
  cases hget : s.cases.get caseId with
  | none => exact .stay
  | some c =>
    dsimp only
    split_ifs with hstatus
    · exact .stay
    obtain hopen : c.status = .open := not_not.mp hstatus
    refine .put (Table.get_eq_some.mp hget).1 rfl rfl (by simp [hopen]) fun h => ⟨?_, ?_⟩
    · simp [Triplet.isSet_set]
    · simpa [hopen] using h.archived

theorem reopenCase_write (caseId : Uuid) : CaseWrite s (s.reopenCase caseId).1 := by
  rw [reopenCase]
  cases hget : s.cases.get caseId with
  | none => exact .stay
  | some c =>
    dsimp only
    split_ifs with hstatus
    · exact .stay
    obtain hclosed : c.status = .closed := not_not.mp hstatus
    refine .put (Table.get_eq_some.mp hget).1 rfl rfl (by simp [hclosed]) fun h => ⟨?_, ?_⟩
    · simp [Triplet.not_isSet_null]
    · simpa [hclosed] using h.archived

theorem reopenArchivedCase_write (newId caseId reopenerUserId : Uuid) (reason : String) (now : ℤ) :
    CaseWrite s (s.reopenArchivedCase newId caseId reopenerUserId reason now).1 := by
  rw [reopenArchivedCase]
  split_ifs
  · exact .stay
  cases s.cases.get caseId with
  | none => exact .stay
  | some c =>
    dsimp only
    split_ifs
    · exact .stay
    · exact insertCase_write rfl (lifecycle_open rfl rfl rfl)

theorem archiveCase_write (caseId archiverUserId : Uuid) (reason : String) (now : ℤ) :
    CaseWrite s (s.archiveCase caseId archiverUserId reason now).1 := by
  rw [archiveCase]
  split_ifs
  · exact .stay
  cases hget : s.cases.get caseId with
  | none => exact .stay
  | some c =>
    dsimp only
    split_ifs with hstatus
    · exact .stay
    obtain hclosed : c.status = .closed := not_not.mp hstatus
    refine .put (Table.get_eq_some.mp hget).1 rfl rfl (by simp [hclosed]) fun h => ⟨?_, ?_⟩
    · simpa [hclosed] using h.closed
    · simp [Triplet.isSet_set]

theorem updateCaseDiscoveryPolicy_write (caseId : Uuid) (roots : Option (List Uuid))
    (redundancy : Option RedundancyPolicy) (autoJoin : Option AutoJoinPolicy)
    (threshold : Option ℚ) (clear : Bool) :
    CaseWrite s
      (s.updateCaseDiscoveryPolicy caseId roots redundancy autoJoin threshold clear).1 := by
  rw [updateCaseDiscoveryPolicy]
  cases hget : s.cases.get caseId with
  | none => exact .stay
  | some c =>
    dsimp only
    by_cases hstatus : c.status = .archived
    · rw [if_pos hstatus]
      exact .stay
    · rw [if_neg hstatus]
      exact .put (Table.get_eq_some.mp hget).1 rfl rfl hstatus fun h => ⟨h.closed, h.archived⟩

/-- Every sequence of calls is a run. -/
theorem run_isSome (s : CaseStore) (as : List CaseStep) :
    ∃ s', Machine.run step s as = some s' :=
  Machine.exists_run (fun _ a => by cases a <;> exact ⟨_, rfl⟩) s as

/-- The operations that read and write the case row alone. -/
def onCaseRow : CaseStep → Bool
  | .createCase .. | .updateCase .. | .closeCase .. | .reopenCase .. | .reopenArchivedCase ..
  | .archiveCase .. | .updateCaseDiscoveryPolicy .. => true
  | _ => false

theorem step_caseWrite {s' : CaseStore} {a : CaseStep} (ha : onCaseRow a = true)
    (h : s.step a = some s') : CaseWrite s s' := by
  cases a with
  | createCase => exact Option.some.inj h ▸ createCase_write ..
  | updateCase => exact Option.some.inj h ▸ updateCase_write ..
  | closeCase => exact Option.some.inj h ▸ closeCase_write ..
  | reopenCase => exact Option.some.inj h ▸ reopenCase_write ..
  | reopenArchivedCase => exact Option.some.inj h ▸ reopenArchivedCase_write ..
  | archiveCase => exact Option.some.inj h ▸ archiveCase_write ..
  | updateCaseDiscoveryPolicy => exact Option.some.inj h ▸ updateCaseDiscoveryPolicy_write ..
  | _ => exact Bool.noConfusion ha

/-- The row that `add_case_member` inserts. -/
theorem newCaseMember_ok {newId caseId subjectId addedByUserId : Uuid}
    {subjectKind : CaseSubjectKind} {reason : String} {now : ℤ} {table : CaseMemberRow}
    (h : s.newCaseMember newId caseId subjectKind subjectId addedByUserId reason now = .ok table) :
    (∃ c ∈ s.cases, c.id = caseId ∧ c.status ≠ .archived) ∧ table.id = newId ∧
      table.ActiveOn caseId ∧ table.IsSubject subjectKind subjectId := by
  rw [newCaseMember] at h
  split at h
  · cases h
  cases hget : s.cases.get caseId with
  | none => simp [hget] at h
  | some c =>
    simp only [hget] at h
    split_ifs at h with hstatus
    obtain rfl := Except.ok.inj h
    obtain ⟨hc, hid⟩ := Table.get_eq_some.mp hget
    exact ⟨⟨c, hc, hid, hstatus⟩, rfl, ⟨rfl, rfl⟩, rfl, rfl⟩

/-- The row that `remove_case_member` writes. -/
theorem removedCaseMember_ok {memberId removerUserId : Uuid} {reason : String} {now : ℤ}
    {table : CaseMemberRow}
    (h : s.removedCaseMember memberId removerUserId reason now = .ok table) :
    ∃ m ∈ s.members, m.id = memberId ∧ m.ActiveOn table.caseId ∧
      table = { m with removed := .set now removerUserId reason } := by
  rw [removedCaseMember] at h
  split_ifs at h
  cases hget : s.members.get memberId with
  | none => simp [hget] at h
  | some m =>
    simp only [hget] at h
    split_ifs at h with hremoved
    cases h
    obtain ⟨hm, hid⟩ := Table.get_eq_some.mp hget
    exact ⟨m, hm, hid, ⟨rfl, not_not.mp hremoved⟩, rfl⟩

/-- The row that `revoke_case_collaborator` writes. -/
theorem revokedCaseCollaborator_ok {collaboratorId revokerUserId : Uuid} {reason : String}
    {now : ℤ} {table : CaseCollaboratorRow}
    (h : s.revokedCaseCollaborator collaboratorId revokerUserId reason now = .ok table) :
    ∃ r ∈ s.collaborators, r.id = collaboratorId ∧ r.ActiveOn table.caseId ∧
      table = { r with revoked := .set now revokerUserId reason } := by
  rw [revokedCaseCollaborator] at h
  split_ifs at h
  cases hget : s.collaborators.get collaboratorId with
  | none => simp [hget] at h
  | some r =>
    simp only [hget] at h
    split_ifs at h with hrevoked
    cases h
    obtain ⟨hr, hid⟩ := Table.get_eq_some.mp hget
    exact ⟨r, hr, hid, ⟨rfl, not_not.mp hrevoked⟩, rfl⟩

/-- A member is inserted, and then the tier is recomputed unless the row fails its contract. -/
theorem addCaseMember_cases (s : CaseStore) (newId caseId : Uuid) (subjectKind : CaseSubjectKind)
    (subjectId addedByUserId : Uuid) (reason : String) (now : ℤ) :
    ((∀ table, s.newCaseMember newId caseId subjectKind subjectId addedByUserId reason now =
          .ok table → s.members.get newId ≠ none) ∧
      (s.addCaseMember newId caseId subjectKind subjectId addedByUserId reason now).1 = s) ∨
    ∃ table members,
      s.newCaseMember newId caseId subjectKind subjectId addedByUserId reason now = .ok table ∧
      s.members.insert table = some members ∧
      (s.addCaseMember newId caseId subjectKind subjectId addedByUserId reason now).1 =
        if table.readable then maybeEmitTierChange { s with members := members } caseId
        else { s with members := members } := by
  rw [addCaseMember]
  cases hnew : s.newCaseMember newId caseId subjectKind subjectId addedByUserId reason now with
  | error e =>
    refine Or.inl ⟨fun table htable => ?_, rfl⟩
    cases htable
  | ok table =>
    obtain ⟨-, rfl, -⟩ := newCaseMember_ok hnew
    dsimp only
    cases hinsert : s.members.insert table with
    | none => exact Or.inl ⟨fun _ _ => Table.get_ne_none_of_insert_eq_none hinsert, rfl⟩
    | some members =>
      refine Or.inr ⟨table, members, rfl, hinsert, ?_⟩
      dsimp only
      rw [memberRow]
      by_cases hread : table.readable = true
      · rw [if_pos hread, if_pos hread]
      · rw [if_neg hread, if_neg hread]

/-- A member is marked removed, and then the tier is recomputed unless the row fails its
contract. -/
theorem removeCaseMember_cases (s : CaseStore) (memberId removerUserId : Uuid) (reason : String)
    (now : ℤ) :
    ((∀ table, s.removedCaseMember memberId removerUserId reason now ≠ .ok table) ∧
      (s.removeCaseMember memberId removerUserId reason now).1 = s) ∨
    ∃ table, s.removedCaseMember memberId removerUserId reason now = .ok table ∧
      (s.removeCaseMember memberId removerUserId reason now).1 =
        if table.readable then
          maybeEmitTierChange { s with members := s.members.put table } table.caseId
        else { s with members := s.members.put table } := by
  rw [removeCaseMember]
  cases hremoved : s.removedCaseMember memberId removerUserId reason now with
  | error e =>
    refine Or.inl ⟨fun table htable => ?_, rfl⟩
    cases htable
  | ok table =>
    refine Or.inr ⟨table, rfl, ?_⟩
    dsimp only
    rw [memberRow]
    by_cases hread : table.readable = true
    · rw [if_pos hread, if_pos hread]
    · rw [if_neg hread, if_neg hread]

/-- A reclassify call that promotes writes the new tier. -/
theorem reclassifyIn_cases (kind : SubjectKind) (table : Table TieredRow.id) (id : Uuid)
    (newTier : SensitivityTier) (reason : String) :
    ((∀ row ∈ table, row.id = id →
        reclassifyFor kind (uuidText id) row.tiers newTier reason ≠ .ok .promote) ∧
      reclassifyIn kind table id newTier reason = table) ∨
      ∃ row ∈ table, row.id = id ∧
        reclassifyFor kind (uuidText id) row.tiers newTier reason = .ok .promote ∧
        ∃ row', row'.id = id ∧ row'.tiers.effectiveTier = newTier ∧
          reclassifyIn kind table id newTier reason = table.put row' := by
  rw [reclassifyIn]
  cases hget : table.get id with
  | none => exact Or.inl ⟨fun row hrow hid => absurd hid (Table.get_eq_none.mp hget row hrow), rfl⟩
  | some row =>
    obtain ⟨hrow, rfl⟩ := Table.get_eq_some.mp hget
    dsimp only
    by_cases hpromote : reclassifyFor kind (uuidText row.id) row.tiers newTier reason = .ok .promote
    · -- a promotion is above the classifier's tier, so the `CHECK` takes it
      have hle : row.tiers.classifierTier ≤ newTier := by
        rw [reclassifyFor_eq] at hpromote
        exact row.tiers.classifierTier_le.trans (reclassify_ok hpromote).1
      obtain ⟨tiers, htiers⟩ : ∃ tiers, row.tiers.setOverride newTier = some tiers := by
        rw [TierRow.setOverride, dif_pos hle]
        exact ⟨_, rfl⟩
      refine Or.inr ⟨row, hrow, rfl, hpromote, { row with tiers := tiers }, rfl, ?_, ?_⟩
      · exact (TierRow.setOverride_eq_some htiers).2.2
      · rw [hpromote]
        dsimp only
        rw [htiers]
    · refine Or.inl ⟨?_, ?_⟩
      · intro x hx hid
        rwa [Table.eq_of_key hx hrow hid]
      · split
        · exact absurd ‹_› hpromote
        · rfl

/-- A classification that the `CHECK` accepts is written. -/
theorem setClassificationIn_cases (table : Table TieredRow.id) (id : Uuid)
    (tier : SensitivityTier) :
    ((∀ row ∈ table, row.id = id → row.tiers.setClassifierTier tier = none) ∧
      setClassificationIn table id tier = table) ∨
      ∃ row ∈ table, row.id = id ∧ ∃ row', row'.id = id ∧
        row.tiers.setClassifierTier tier = some row'.tiers ∧
        setClassificationIn table id tier = table.put row' := by
  rw [setClassificationIn]
  cases hget : table.get id with
  | none => exact Or.inl ⟨fun row hrow hid => absurd hid (Table.get_eq_none.mp hget row hrow), rfl⟩
  | some row =>
    obtain ⟨hrow, rfl⟩ := Table.get_eq_some.mp hget
    dsimp only
    cases htiers : row.tiers.setClassifierTier tier with
    | none =>
      refine Or.inl ⟨fun x hx hid => ?_, rfl⟩
      rwa [Table.eq_of_key hx hrow hid]
    | some tiers => exact Or.inr ⟨row, hrow, rfl, { row with tiers := tiers }, rfl, htiers, rfl⟩

/-- A collaborator is added to a case that is not archived. -/
theorem addCaseCollaborator_cases (s : CaseStore) (newId caseId userId : Uuid)
    (role : CaseRoleOnCase) (grantedByUserId : Uuid) (now : ℤ) :
    (s.addCaseCollaborator newId caseId userId role grantedByUserId now).1 = s ∨
      ∃ table collaborators, s.collaborators.insert table = some collaborators ∧
        (∃ c ∈ s.cases, c.id = table.caseId ∧ c.status ≠ .archived) ∧
        (s.addCaseCollaborator newId caseId userId role grantedByUserId now).1 =
          { s with collaborators := collaborators } := by
  rw [addCaseCollaborator]
  cases hget : s.cases.get caseId with
  | none => exact Or.inl rfl
  | some c =>
    dsimp only
    split_ifs with hstatus
    · exact Or.inl rfl
    · exact Or.inl rfl
    obtain ⟨hc, hid⟩ := Table.get_eq_some.mp hget
    split
    · exact Or.inl rfl
    · rename_i collaborators hinsert
      exact Or.inr ⟨_, collaborators, hinsert, ⟨c, hc, hid, hstatus⟩, rfl⟩

/-- The calls that write collaborators. -/
def onCollaborators : CaseStep → Bool
  | .addCaseCollaborator .. | .revokeCaseCollaborator .. => true
  | _ => false

/-- A call that writes collaborators writes nothing else. -/
theorem step_collaborators {s' : CaseStore} {a : CaseStep} (ha : onCollaborators a = true)
    (h : s.step a = some s') : ∃ collaborators, s' = { s with collaborators := collaborators } := by
  cases a with
  | addCaseCollaborator newId caseId userId role grantedByUserId now =>
    obtain rfl := Option.some.inj h
    obtain heq | ⟨table, collaborators, -, -, heq⟩ :=
      s.addCaseCollaborator_cases newId caseId userId role grantedByUserId now
    · exact ⟨s.collaborators, heq⟩
    · exact ⟨collaborators, heq⟩
  | revokeCaseCollaborator collaboratorId revokerUserId reason now =>
    obtain rfl := Option.some.inj h
    rw [revokeCaseCollaborator]
    cases s.revokedCaseCollaborator collaboratorId revokerUserId reason now with
    | error e => exact ⟨s.collaborators, rfl⟩
    | ok table => exact ⟨s.collaborators.put table, rfl⟩
  | _ => exact Bool.noConfusion ha

/-- The tier change writes the recomputed tier into the case. -/
theorem maybeEmitTierChange_cases (s : CaseStore) (caseId : Uuid) :
    (s.cases.get caseId = none ∧ s.maybeEmitTierChange caseId = s) ∨
      ∃ c ∈ s.cases, ∃ c', c.id = caseId ∧
        c' = { c with effectiveTier := s.recomputeEffectiveTier caseId } ∧
        s.maybeEmitTierChange caseId = { s with cases := s.cases.put c' } := by
  rw [maybeEmitTierChange]
  cases hget : s.cases.get caseId with
  | none => exact Or.inl ⟨rfl, rfl⟩
  | some c =>
    obtain ⟨hc, hid⟩ := Table.get_eq_some.mp hget
    refine Or.inr ⟨c, hc, _, hid, rfl, ?_⟩
    dsimp only
    split_ifs with htier
    · rw [htier, Table.put_self hc]
    · rfl

theorem members_maybeEmitTierChange (s : CaseStore) (caseId : Uuid) :
    (s.maybeEmitTierChange caseId).members = s.members := by
  obtain ⟨-, heq⟩ | ⟨c, -, c', -, -, heq⟩ := s.maybeEmitTierChange_cases caseId
  · rw [heq]
  · rw [heq]

end CaseStore

end Eyenet
