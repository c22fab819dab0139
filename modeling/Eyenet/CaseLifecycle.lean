import Eyenet.CaseTier

/-!
# The lifecycle of a case

The lifecycle columns of a case go with its status in every run. An archived case is guarded
where a member or a collaborator is added, but not where one is removed: those calls get the id
of the member or of the collaborator and never load the case.

* `CaseStore.Frozen` — archived cases, their active members and their active collaborators stay.
* `CaseStore.Respects` — a call that removes, revokes or recomputes leaves archived cases alone.
* `CaseStore.archived_frozen_iff` — exactly when archived cases are frozen in a run.
-/

namespace Eyenet

open Machine

namespace CaseStore

variable {s s' s'' : CaseStore} {c c' : CaseRow} {a : CaseStep}

/-- The active members of a case. -/
def activeMembers (s : CaseStore) (caseId : Uuid) : Set CaseMemberRow :=
  {m | m ∈ s.members ∧ m.ActiveOn caseId}

/-- The active collaborators of a case. -/
def activeCollaborators (s : CaseStore) (caseId : Uuid) : Set CaseCollaboratorRow :=
  {r | r ∈ s.collaborators ∧ r.ActiveOn caseId}

/-! ## Lifecycle columns -/

/-- The lifecycle columns of every case go with its status. -/
def LifecycleExact (s : CaseStore) : Prop := ∀ c ∈ s.cases, c.Lifecycle

theorem LifecycleExact.caseWrite (h : s.LifecycleExact) (hwrite : s.CaseWrite s') :
    s'.LifecycleExact := by
  cases hwrite with
  | stay => exact h
  | insert hinsert htier hlife =>
    intro x hx
    obtain hx | rfl := (Table.mem_insert hinsert).mp hx
    · exact h x hx
    · exact hlife
  | put hc hid htier hstatus hlife =>
    intro x hx
    obtain rfl | ⟨hx, -⟩ := (Table.mem_put hc hid).mp hx
    · exact hlife (h _ hc)
    · exact h x hx

theorem LifecycleExact.maybeEmitTierChange (h : s.LifecycleExact) (caseId : Uuid) :
    (s.maybeEmitTierChange caseId).LifecycleExact := by
  obtain ⟨-, heq⟩ | ⟨c, hc, c', -, hc', heq⟩ := s.maybeEmitTierChange_cases caseId
  · rwa [heq]
  · rw [heq]
    intro x hx
    obtain rfl | ⟨hx, -⟩ := (Table.mem_put hc (by rw [hc'])).mp hx
    · rw [hc']
      exact ⟨(h c hc).closed, (h c hc).archived⟩
    · exact h x hx

theorem LifecycleExact.step (h : s.LifecycleExact) (hstep : s.step a = some s') :
    s'.LifecycleExact := by
  cases a with
  | addCaseMember newId caseId subjectKind subjectId addedByUserId reason now =>
    obtain rfl := Option.some.inj hstep
    obtain ⟨-, heq⟩ | ⟨table, members, -, -, heq⟩ :=
      s.addCaseMember_cases newId caseId subjectKind subjectId addedByUserId reason now <;>
      rw [heq]
    · exact h
    · have hcommitted : LifecycleExact { s with members := members } := h
      split_ifs
      · exact hcommitted.maybeEmitTierChange caseId
      · exact hcommitted
  | removeCaseMember memberId removerUserId reason now =>
    obtain rfl := Option.some.inj hstep
    obtain ⟨-, heq⟩ | ⟨table, -, heq⟩ :=
      s.removeCaseMember_cases memberId removerUserId reason now <;> rw [heq]
    · exact h
    · have hcommitted : LifecycleExact { s with members := s.members.put table } := h
      split_ifs
      · exact hcommitted.maybeEmitTierChange table.caseId
      · exact hcommitted
  | addCaseCollaborator | revokeCaseCollaborator =>
    obtain ⟨collaborators, rfl⟩ := step_collaborators rfl hstep
    exact h
  | recomputeTier caseId => exact Option.some.inj hstep ▸ h.maybeEmitTierChange caseId
  | putObservation | putAttachment | reclassifyObservation | reclassifyAttachment
  | setAttachmentClassification =>
    obtain rfl := Option.some.inj hstep
    exact h
  | _ => exact h.caseWrite (step_caseWrite rfl hstep)

/-! ## Archived cases -/

/-- Archived cases, their active members and their active collaborators are the same later. -/
def Frozen (s s' : CaseStore) : Prop :=
  ∀ c ∈ s.cases, c.status = .archived →
    c ∈ s'.cases ∧ s'.activeMembers c.id = s.activeMembers c.id ∧
      s'.activeCollaborators c.id = s.activeCollaborators c.id

theorem Frozen.refl (s : CaseStore) : s.Frozen s := fun _ hc _ => ⟨hc, rfl, rfl⟩

theorem Frozen.trans (h : s.Frozen s') (h' : s'.Frozen s'') : s.Frozen s'' := by
  intro c hc harchived
  obtain ⟨hc', hmembers, hcollaborators⟩ := h c hc harchived
  obtain ⟨hc'', hmembers', hcollaborators'⟩ := h' c hc' harchived
  exact ⟨hc'', hmembers'.trans hmembers, hcollaborators'.trans hcollaborators⟩

theorem frozen_caseWrite (hwrite : s.CaseWrite s') : s.Frozen s' := by
  cases hwrite with
  | stay => exact .refl s
  | insert hinsert htier hlife =>
    exact fun c hc _ => ⟨(Table.mem_insert hinsert).mpr (Or.inl hc), rfl, rfl⟩
  | put hc hid htier hstatus hlife =>
    refine fun x hx harchived => ⟨(Table.mem_put hc hid).mpr (Or.inr ⟨hx, ?_⟩), rfl, rfl⟩
    rintro rfl
    exact hstatus harchived

/-- The recomputation leaves archived cases alone exactly when their tier is exact. -/
theorem frozen_maybeEmitTierChange_iff {caseId : Uuid} :
    s.Frozen (s.maybeEmitTierChange caseId) ↔
      ∀ c ∈ s.cases, c.id = caseId → c.status = .archived → s.TierExactAt c := by
  obtain ⟨hnone, heq⟩ | ⟨c, hc, c', rfl, hc', heq⟩ := s.maybeEmitTierChange_cases caseId <;>
    rw [heq]
  · exact iff_of_true (.refl s) fun c hc hid => absurd hid (Table.get_eq_none.mp hnone c hc)
  have hid : c'.id = c.id := by rw [hc']
  -- the row stays as it is when the greatest tier is the one that it has
  have hgreatest := s.recomputeEffectiveTier_isGreatest c.id
  refine ⟨fun hfrozen x hx hxc harchived => ?_, fun hexact x hx harchived => ⟨?_, rfl, rfl⟩⟩
  · obtain rfl := Table.eq_of_key hx hc hxc
    obtain hsame | ⟨-, hne⟩ := (Table.mem_put hx hid).mp (hfrozen x hx harchived).1
    · have htier : x.effectiveTier = s.recomputeEffectiveTier x.id := by
        conv_lhs => rw [hsame, hc']
      rw [TierExactAt, htier]
      exact hgreatest
    · exact absurd rfl hne
  · apply (Table.mem_put hc hid).mpr
    by_cases hxc : x = c
    · have htier : s.recomputeEffectiveTier c.id = c.effectiveTier :=
        hgreatest.unique (hexact c hc rfl (hxc ▸ harchived))
      rw [hc', htier]
      exact Or.inl hxc
    · exact Or.inr ⟨hx, hxc⟩

/-- No archived case has this id. -/
def NotArchived (s : CaseStore) (caseId : Uuid) : Prop :=
  ∀ c ∈ s.cases, c.id = caseId → c.status ≠ .archived

theorem frozen_maybeEmitTierChange {caseId : Uuid} (h : s.NotArchived caseId) :
    s.Frozen (s.maybeEmitTierChange caseId) :=
  frozen_maybeEmitTierChange_iff.mpr fun c hc hid harchived => absurd harchived (h c hc hid)

/-- Members of other cases come and go. -/
theorem frozen_members {members : Table CaseMemberRow.id} {caseId : Uuid}
    (h : s.NotArchived caseId)
    (hothers : ∀ m : CaseMemberRow, m.caseId ≠ caseId → (m ∈ members ↔ m ∈ s.members)) :
    s.Frozen { s with members := members } := by
  refine fun c hc harchived => ⟨hc, ?_, rfl⟩
  ext m
  refine and_congr_left fun hactive => hothers m fun hm => ?_
  exact h c hc (hactive.1.symm.trans hm) harchived

/-- Collaborators of other cases come and go. -/
theorem frozen_collaborators {collaborators : Table CaseCollaboratorRow.id} {caseId : Uuid}
    (h : s.NotArchived caseId)
    (hothers : ∀ r : CaseCollaboratorRow, r.caseId ≠ caseId →
      (r ∈ collaborators ↔ r ∈ s.collaborators)) :
    s.Frozen { s with collaborators := collaborators } := by
  refine fun c hc harchived => ⟨hc, rfl, ?_⟩
  ext r
  refine and_congr_left fun hactive => hothers r fun hr => ?_
  exact h c hc (hactive.1.symm.trans hr) harchived

theorem notArchived_of_exists {caseId : Uuid}
    (h : ∃ c ∈ s.cases, c.id = caseId ∧ c.status ≠ .archived) : s.NotArchived caseId := by
  obtain ⟨c, hc, hid, hstatus⟩ := h
  intro x hx hxid
  rwa [Table.eq_of_key hx hc (hxid.trans hid.symm)]

theorem frozen_addCaseMember (newId caseId : Uuid) (subjectKind : CaseSubjectKind)
    (subjectId addedByUserId : Uuid) (reason : String) (now : ℤ) :
    s.Frozen (s.addCaseMember newId caseId subjectKind subjectId addedByUserId reason now).1 := by
  obtain ⟨-, heq⟩ | ⟨table, members, hnew, hinsert, heq⟩ :=
    s.addCaseMember_cases newId caseId subjectKind subjectId addedByUserId reason now <;> rw [heq]
  · exact .refl s
  obtain ⟨hopen, -, hactive, -⟩ := newCaseMember_ok hnew
  have hcommitted : s.Frozen { s with members := members } := by
    refine frozen_members (notArchived_of_exists hopen) fun m hm => ?_
    rw [Table.mem_insert hinsert]
    refine or_iff_left fun h => hm ?_
    rw [h, hactive.1]
  split_ifs
  · exact hcommitted.trans (frozen_maybeEmitTierChange (notArchived_of_exists hopen))
  · exact hcommitted

/-- A removal leaves archived cases alone exactly when its case is not archived. -/
theorem frozen_removeCaseMember_iff {memberId removerUserId : Uuid} {reason : String} {now : ℤ} :
    s.Frozen (s.removeCaseMember memberId removerUserId reason now).1 ↔
      ∀ table, s.removedCaseMember memberId removerUserId reason now = .ok table →
        s.NotArchived table.caseId := by
  obtain ⟨hrefused, heq⟩ | ⟨table, hremoved, heq⟩ :=
    s.removeCaseMember_cases memberId removerUserId reason now <;> rw [heq]
  · exact iff_of_true (.refl s) fun table htable => absurd htable (hrefused table)
  obtain ⟨m, hm, -, hactive, htable⟩ := removedCaseMember_ok hremoved
  have hid : table.id = m.id := by rw [htable]
  have hgone : table.removed.moment ≠ none := by simp [htable, Triplet.set]
  have hcommitted (h : s.NotArchived table.caseId) :
      s.Frozen { s with members := s.members.put table } := by
    refine frozen_members h fun x hx => Table.mem_put_of_ne hm hid ?_ ?_
    · rintro rfl
      exact hx rfl
    · rintro rfl
      exact hx hactive.1
  -- the member is no longer active, so its case must not be archived
  have hback (h : ∀ c ∈ s.cases, c.status = .archived →
      activeMembers { s with members := s.members.put table } c.id = s.activeMembers c.id) :
      ∀ t, s.removedCaseMember memberId removerUserId reason now = .ok t →
        s.NotArchived t.caseId := by
    intro t ht c hc hcase harchived
    obtain rfl := Except.ok.inj (hremoved.symm.trans ht)
    have hmem : m ∈ s.activeMembers c.id := ⟨hm, hcase ▸ hactive⟩
    rw [← h c hc harchived] at hmem
    obtain rfl | ⟨-, hne⟩ := (Table.mem_put hm hid).mp hmem.1
    · exact hgone hmem.2.2
    · exact hne rfl
  split_ifs
  · refine ⟨fun hfrozen => hback fun c hc harchived => ?_, fun h => ?_⟩
    · rw [← (hfrozen c hc harchived).2.1, activeMembers, activeMembers, members_maybeEmitTierChange]
    · exact (hcommitted (h table hremoved)).trans (frozen_maybeEmitTierChange (h table hremoved))
  · refine ⟨fun hfrozen => hback fun c hc harchived => (hfrozen c hc harchived).2.1, fun h => ?_⟩
    exact hcommitted (h table hremoved)

/-- A revocation leaves archived cases alone exactly when its case is not archived. -/
theorem frozen_revokeCaseCollaborator_iff {collaboratorId revokerUserId : Uuid} {reason : String}
    {now : ℤ} :
    s.Frozen (s.revokeCaseCollaborator collaboratorId revokerUserId reason now).1 ↔
      ∀ table, s.revokedCaseCollaborator collaboratorId revokerUserId reason now = .ok table →
        s.NotArchived table.caseId := by
  rw [revokeCaseCollaborator]
  cases hrevoked : s.revokedCaseCollaborator collaboratorId revokerUserId reason now with
  | error e =>
    refine iff_of_true (.refl s) fun table htable => ?_
    cases htable
  | ok table =>
    obtain ⟨r, hr, -, hactive, htable⟩ := revokedCaseCollaborator_ok hrevoked
    have hid : table.id = r.id := by rw [htable]
    have hgone : table.revoked.moment ≠ none := by simp [htable, Triplet.set]
    refine ⟨fun hfrozen t ht c hc hcase harchived => ?_, fun h => ?_⟩
    · obtain rfl := Except.ok.inj ht
      have hmem : r ∈ s.activeCollaborators c.id := ⟨hr, hcase ▸ hactive⟩
      rw [← (hfrozen c hc harchived).2.2] at hmem
      obtain rfl | ⟨-, hne⟩ := (Table.mem_put hr hid).mp hmem.1
      · exact hgone hmem.2.2
      · exact hne rfl
    · refine frozen_collaborators (h table rfl) fun x hx => Table.mem_put_of_ne hr hid ?_ ?_
      · rintro rfl
        exact hx rfl
      · rintro rfl
        exact hx hactive.1

/-! ## Runs -/

/-- The call leaves archived cases alone: it does not remove a member of one, nor revoke a
collaborator, and it recomputes their tier only where that is exact. -/
def Respects (s : CaseStore) : CaseStep → Prop
  | .removeCaseMember memberId removerUserId reason now =>
    ∀ table, s.removedCaseMember memberId removerUserId reason now = .ok table →
      s.NotArchived table.caseId
  | .revokeCaseCollaborator collaboratorId revokerUserId reason now =>
    ∀ table, s.revokedCaseCollaborator collaboratorId revokerUserId reason now = .ok table →
      s.NotArchived table.caseId
  | .recomputeTier caseId =>
    ∀ c ∈ s.cases, c.id = caseId → c.status = .archived → s.TierExactAt c
  | _ => True

theorem frozen_step_iff (hstep : s.step a = some s') : s.Frozen s' ↔ s.Respects a := by
  cases a with
  | addCaseMember newId caseId subjectKind subjectId addedByUserId reason now =>
    obtain rfl := Option.some.inj hstep
    refine iff_of_true ?_ trivial
    exact frozen_addCaseMember newId caseId subjectKind subjectId addedByUserId reason now
  | removeCaseMember => exact Option.some.inj hstep ▸ frozen_removeCaseMember_iff
  | addCaseCollaborator newId caseId userId role grantedByUserId now =>
    obtain rfl := Option.some.inj hstep
    refine iff_of_true ?_ trivial
    obtain heq | ⟨table, collaborators, hinsert, hopen, heq⟩ :=
      s.addCaseCollaborator_cases newId caseId userId role grantedByUserId now <;> rw [heq]
    · exact .refl s
    · refine frozen_collaborators (notArchived_of_exists hopen) fun r hr => ?_
      rw [Table.mem_insert hinsert]
      exact or_iff_left fun h => hr (h ▸ rfl)
  | revokeCaseCollaborator => exact Option.some.inj hstep ▸ frozen_revokeCaseCollaborator_iff
  | recomputeTier => exact Option.some.inj hstep ▸ frozen_maybeEmitTierChange_iff
  | putObservation | putAttachment | reclassifyObservation | reclassifyAttachment
  | setAttachmentClassification =>
    obtain rfl := Option.some.inj hstep
    exact iff_of_true (fun c hc _ => ⟨hc, rfl, rfl⟩) trivial
  | _ => exact iff_of_true (frozen_caseWrite (step_caseWrite rfl hstep)) trivial

/-- **The lifecycle of a case.** In every run the lifecycle columns go with the status; and
archived cases with their active members and collaborators stay as they are exactly when each
call respects them. -/
theorem archived_frozen_iff (as : List CaseStep) :
    (Throughout step LifecycleExact init as ∧ Between step Frozen init as) ↔
      Along step Respects init as := by
  obtain ⟨s, hs⟩ := run_isSome init as
  -- the lifecycle columns ask nothing of the calls
  have hlife : Throughout step LifecycleExact init as := by
    intro bs _ t ht
    exact run_preserves (fun h hstep => LifecycleExact.step h hstep)
      (fun c hc => absurd hc (Table.not_mem_empty c)) ht
  rw [and_iff_right hlife]
  exact between_iff_along (I := fun _ => True) Frozen.refl Frozen.trans
    (fun _ hstep => ⟨trivial, frozen_step_iff hstep⟩) trivial hs

/-- A case with one member and one collaborator, archived. -/
def sampleArchived : List CaseStep :=
  sampleMember .observation ++ [.addCaseCollaborator 3 1 8 .analyst 9 2,
    .closeCase 1 9 sampleReason 3, .archiveCase 1 9 sampleReason 4]

/-- The member and the collaborator of an archived case are removed. -/
theorem archived_case_changes :
    (∃ s s', run step init sampleArchived = some s ∧
        s.step (.removeCaseMember 2 9 sampleReason 5) = some s' ∧ ¬ s.Frozen s') ∧
      ∃ s s', run step init sampleArchived = some s ∧
        s.step (.revokeCaseCollaborator 3 9 sampleReason 5) = some s' ∧ ¬ s.Frozen s' := by
  refine ⟨?_, ?_⟩
  · have hrun : ∃ s, run step init sampleArchived = some s ∧ ∃ c ∈ s.cases, c.status = .archived ∧
        ∃ m ∈ s.members, m.ActiveOn c.id ∧
          ∀ x ∈ (s.removeCaseMember 2 9 sampleReason 5).1.members, x ≠ m := by
      decide
    obtain ⟨s, hs, c, hc, harchived, m, hm, hactive, hgone⟩ := hrun
    refine ⟨s, _, hs, rfl, fun hfrozen => ?_⟩
    have hmem : m ∈ s.activeMembers c.id := ⟨hm, hactive⟩
    rw [← (hfrozen c hc harchived).2.1] at hmem
    exact hgone m hmem.1 rfl
  · have hrun : ∃ s, run step init sampleArchived = some s ∧ ∃ c ∈ s.cases, c.status = .archived ∧
        ∃ r ∈ s.collaborators, r.ActiveOn c.id ∧
          ∀ x ∈ (s.revokeCaseCollaborator 3 9 sampleReason 5).1.collaborators, x ≠ r := by
      decide
    obtain ⟨s, hs, c, hc, harchived, r, hr, hactive, hgone⟩ := hrun
    refine ⟨s, _, hs, rfl, fun hfrozen => ?_⟩
    have hmem : r ∈ s.activeCollaborators c.id := ⟨hr, hactive⟩
    rw [← (hfrozen c hc harchived).2.2] at hmem
    exact hgone r hmem.1 rfl

end CaseStore

end Eyenet
