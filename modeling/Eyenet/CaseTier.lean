import Eyenet.Case
import Mathlib.Order.Bounds.Basic

/-!
# The effective tier of a case

A case keeps the greatest effective tier of its active members. The recomputation after a member
is added or removed restores it. The calls that change a tier do not look at cases, and a row
that its contract refuses is committed without the recomputation.

* `CaseStore.TierExact` — every case keeps the greatest tier of its active members.
* `CaseStore.Propagated` — a call that changes tiers or members leaves the greatest tiers alone.
* `CaseStore.tierExact_iff_propagated` — exactly when every state of a run is exact.
-/

namespace Eyenet

open Machine

namespace CaseStore

variable {s s' : CaseStore} {c : CaseRow} {a : CaseStep}

/-! ## The recomputation -/

theorem rankTier_rank (t : SensitivityTier) : rankTier t.rank = t := by cases t <;> rfl

theorem le_iff_rank_le {t u : SensitivityTier} : t ≤ u ↔ t.rank ≤ u.rank := Iff.rfl

theorem normal_le (t : SensitivityTier) : .normal ≤ t := Nat.zero_le _

/-- The loop computes the greatest rank. -/
theorem foldl_maxRank (ms : List CaseMemberRow) (rank : ℕ) :
    rank ≤ ms.foldl s.maxRank rank ∧
      (∀ m ∈ ms, ∀ t, s.memberTier m = some t → t.rank ≤ ms.foldl s.maxRank rank) ∧
      (ms.foldl s.maxRank rank = rank ∨
        ∃ m ∈ ms, ∃ t, s.memberTier m = some t ∧ ms.foldl s.maxRank rank = t.rank) := by
  -- the maximum is attained by its start or by a member
  induction ms generalizing rank with
  | nil => simp
  | cons m ms ih =>
    obtain ⟨hle, hall, hattained⟩ := ih (s.maxRank rank m)
    rw [List.foldl_cons]
    cases hm : s.memberTier m with
    | none =>
      have hround : s.maxRank rank m = rank := by simp [maxRank, hm]
      rw [hround] at hle hall hattained ⊢
      refine ⟨hle, ?_, ?_⟩
      · intro x hx t ht
        obtain rfl | hx := List.mem_cons.mp hx
        · rw [hm] at ht
          cases ht
        · exact hall x hx t ht
      · obtain h | ⟨x, hx, t, ht, h⟩ := hattained
        · exact Or.inl h
        · exact Or.inr ⟨x, List.mem_cons_of_mem m hx, t, ht, h⟩
    | some u =>
      have hround : s.maxRank rank m = max rank u.rank := by simp [maxRank, hm]
      rw [hround] at hle hall hattained ⊢
      refine ⟨(le_max_left _ _).trans hle, ?_, ?_⟩
      · intro x hx t ht
        obtain rfl | hx := List.mem_cons.mp hx
        · obtain rfl : u = t := Option.some.inj (hm.symm.trans ht)
          exact (le_max_right _ _).trans hle
        · exact hall x hx t ht
      · obtain h | ⟨x, hx, t, ht, h⟩ := hattained
        · obtain hmax | hmax := max_choice rank u.rank
          · exact Or.inl (h.trans hmax)
          · exact Or.inr ⟨m, List.mem_cons_self, u, hm, h.trans hmax⟩
        · exact Or.inr ⟨x, List.mem_cons_of_mem m hx, t, ht, h⟩

/-- The tiers of the active members of a case. -/
def memberTiers (s : CaseStore) (caseId : Uuid) : Set SensitivityTier :=
  {t | ∃ m ∈ s.members, m.ActiveOn caseId ∧ s.memberTier m = some t}

/-- The recomputed tier is the greatest one, or the lowest tier when there is none. -/
theorem recomputeEffectiveTier_isGreatest (s : CaseStore) (caseId : Uuid) :
    IsGreatest (insert .normal (s.memberTiers caseId)) (s.recomputeEffectiveTier caseId) := by
  obtain ⟨-, hall, hattained⟩ :=
    foldl_maxRank (s := s) (s.members.rows.filter fun m => m.ActiveOn caseId) 0
  refine ⟨?_, ?_⟩
  · rw [recomputeEffectiveTier]
    obtain h | ⟨m, hm, t, ht, h⟩ := hattained
    · rw [h]
      exact Set.mem_insert _ _
    · rw [h, rankTier_rank]
      obtain ⟨hmem, hactive⟩ := List.mem_filter.mp hm
      exact Set.mem_insert_of_mem _ ⟨m, hmem, of_decide_eq_true hactive, ht⟩
  · rintro t (rfl | ⟨m, hm, hactive, ht⟩)
    · exact normal_le _
    · have hrank := hall m (List.mem_filter.mpr ⟨hm, decide_eq_true hactive⟩) t ht
      rw [recomputeEffectiveTier]
      obtain h | ⟨x, -, u, -, h⟩ := hattained
      · rw [h] at hrank ⊢
        exact le_iff_rank_le.mpr hrank
      · rw [h] at hrank ⊢
        rw [rankTier_rank]
        exact le_iff_rank_le.mpr hrank

/-! ## The invariant -/

/-- The case keeps the greatest effective tier of its active members, or the lowest tier when
there is none. -/
def TierExactAt (s : CaseStore) (c : CaseRow) : Prop :=
  IsGreatest (insert .normal (s.memberTiers c.id)) c.effectiveTier

/-- Every case keeps the greatest effective tier of its active members. -/
def TierExact (s : CaseStore) : Prop := ∀ c ∈ s.cases, s.TierExactAt c

/-- Members belong to cases. -/
def Placed (s : CaseStore) : Prop := ∀ m ∈ s.members, ∃ c ∈ s.cases, c.id = m.caseId

theorem Placed.put {c' : CaseRow} (h : s.Placed) (hc : c ∈ s.cases) (hid : c'.id = c.id) :
    Placed { s with cases := s.cases.put c' } := by
  intro m hm
  obtain ⟨x, hx, hxm⟩ := h m hm
  by_cases hxc : x = c
  · exact ⟨c', (Table.mem_put hc hid).mpr (Or.inl rfl), by rw [hid, ← hxc, hxm]⟩
  · exact ⟨x, (Table.mem_put hc hid).mpr (Or.inr ⟨hx, hxc⟩), hxm⟩

theorem Placed.maybeEmitTierChange (h : s.Placed) (caseId : Uuid) :
    (s.maybeEmitTierChange caseId).Placed := by
  obtain ⟨-, heq⟩ | ⟨c, hc, c', -, rfl, heq⟩ := s.maybeEmitTierChange_cases caseId
  · rwa [heq]
  · rw [heq]
    exact h.put hc rfl

/-- The recomputation restores the tier of its case and leaves the others. -/
theorem tierExact_maybeEmitTierChange {caseId : Uuid}
    (h : ∀ c ∈ s.cases, c.id ≠ caseId → s.TierExactAt c) :
    (s.maybeEmitTierChange caseId).TierExact := by
  obtain ⟨hnone, heq⟩ | ⟨c, hc, c', rfl, hc', heq⟩ := s.maybeEmitTierChange_cases caseId
  · rw [heq]
    exact fun c hc => h c hc (Table.get_eq_none.mp hnone c hc)
  · have hid : c'.id = c.id := by rw [hc']
    rw [heq]
    intro x hx
    obtain rfl | ⟨hx, hne⟩ := (Table.mem_put hc hid).mp hx
    · rw [hc']
      exact s.recomputeEffectiveTier_isGreatest c.id
    · exact h x hx fun hxc => hne (Table.eq_of_key hx hc hxc)

/-! ## Operations on the case row -/

theorem Placed.caseWrite (h : s.Placed) (hwrite : s.CaseWrite s') : s'.Placed := by
  cases hwrite with
  | stay => exact h
  | insert hinsert htier hlife =>
    intro m hm
    obtain ⟨c, hc, hid⟩ := h m hm
    exact ⟨c, (Table.mem_insert hinsert).mpr (Or.inl hc), hid⟩
  | put hc hid htier hstatus hlife => exact h.put hc hid

theorem TierExact.caseWrite (h : s.TierExact) (hplaced : s.Placed) (hwrite : s.CaseWrite s') :
    s'.TierExact := by
  cases hwrite with
  | stay => exact h
  | @insert c cases hinsert htier hlife =>
    intro x hx
    obtain hx | rfl := (Table.mem_insert hinsert).mp hx
    · exact h x hx
    · -- a member of the new case would belong to a case that had its id before
      have hnone : s.memberTiers x.id = ∅ := by
        refine Set.eq_empty_iff_forall_notMem.mpr ?_
        rintro t ⟨m, hm, ⟨hmx, -⟩, -⟩
        obtain ⟨y, hy, hym⟩ := hplaced m hm
        exact Table.get_eq_none.mp (Table.insert_eq_some hinsert).1 y hy (hym.trans hmx)
      rw [TierExactAt, htier]
      change IsGreatest (Insert.insert _ (s.memberTiers x.id)) _
      rw [hnone]
      simp
  | @put c c' hc hid htier hstatus hlife =>
    intro x hx
    obtain rfl | ⟨hx, -⟩ := (Table.mem_put hc hid).mp hx
    · have hexact := h c hc
      rw [TierExactAt, ← hid, ← htier] at hexact
      exact hexact
    · exact h x hx

/-! ## Changes of tiers and members -/

/-- Whether the same bound is still the greatest element of another set. -/
theorem isGreatest_iff {α : Type*} [Preorder α] {S S' : Set α} {x : α} (h : IsGreatest S x) :
    IsGreatest S' x ↔ x ∈ S' ∧ ∀ t ∈ S', t ∉ S → t ≤ x := by
  refine ⟨?_, ?_⟩
  · exact fun h' => ⟨h'.1, fun t ht _ => h'.2 ht⟩
  · rintro ⟨hx, hnew⟩
    refine ⟨hx, fun t ht => ?_⟩
    by_cases hold : t ∈ S
    · exact h.2 hold
    · exact hnew t ht hold

/-- The tier of the case is the lowest one, or an active member of this kind has it. -/
def HeldBy (s : CaseStore) (c : CaseRow) (P : CaseMemberRow → Prop) : Prop :=
  c.effectiveTier = .normal ∨
    ∃ m ∈ s.members, P m ∧ m.ActiveOn c.id ∧ s.memberTier m = some c.effectiveTier

/-- The row of a subject can take the effective tier `t`: in every case where it is an active
member, that is at most the tier of the case, and unless it is that tier, another active member
has it. -/
def SubjectSettles (s : CaseStore) (kind : CaseSubjectKind) (subjectId : Uuid)
    (t : SensitivityTier) : Prop :=
  ∀ c ∈ s.cases, (∃ m ∈ s.members, m.ActiveOn c.id ∧ m.IsSubject kind subjectId) →
    t ≤ c.effectiveTier ∧
      (t = c.effectiveTier ∨ s.HeldBy c fun m => ¬ m.IsSubject kind subjectId)

/-- The row of one subject takes a tier: the cases stay exact when it settles. -/
theorem tierExact_subject_iff {kind : CaseSubjectKind} {subjectId : Uuid} {t : SensitivityTier}
    (h : s.TierExact) (hcases : s'.cases = s.cases) (hmembers : s'.members = s.members)
    (htier : ∀ m, s'.memberTier m =
      if m.IsSubject kind subjectId then some t else s.memberTier m) :
    s'.TierExact ↔ s.SubjectSettles kind subjectId t := by
  -- the members of the subject have the new tier, the others what they had
  have hmem : ∀ id u, u ∈ s'.memberTiers id ↔
      (∃ m ∈ s.members, m.ActiveOn id ∧ m.IsSubject kind subjectId) ∧ u = t ∨
        ∃ m ∈ s.members, ¬ m.IsSubject kind subjectId ∧ m.ActiveOn id ∧
          s.memberTier m = some u := by
    intro id u
    refine ⟨?_, ?_⟩
    · rintro ⟨m, hm, hactive, hu⟩
      rw [htier] at hu
      split_ifs at hu with hsubject
      · exact Or.inl ⟨⟨m, hmembers ▸ hm, hactive, hsubject⟩, (Option.some.inj hu).symm⟩
      · exact Or.inr ⟨m, hmembers ▸ hm, hsubject, hactive, hu⟩
    · rintro (⟨⟨m, hm, hactive, hsubject⟩, rfl⟩ | ⟨m, hm, hsubject, hactive, hu⟩)
      · exact ⟨m, hmembers.symm ▸ hm, hactive, by rw [htier, if_pos hsubject]⟩
      · exact ⟨m, hmembers.symm ▸ hm, hactive, by rw [htier, if_neg hsubject, hu]⟩
  rw [TierExact, hcases]
  refine forall₂_congr fun c hc => ?_
  rw [TierExactAt, isGreatest_iff (h c hc)]
  refine ⟨?_, ?_⟩
  · rintro ⟨hattained, hnew⟩ hsubject
    refine ⟨?_, ?_⟩
    · by_cases hold : t ∈ insert .normal (s.memberTiers c.id)
      · exact (h c hc).2 hold
      · exact hnew t (Or.inr ((hmem c.id t).mpr (Or.inl ⟨hsubject, rfl⟩))) hold
    · obtain hnormal | hattained := hattained
      · exact Or.inr (Or.inl hnormal)
      obtain ⟨-, heq⟩ | hother := (hmem c.id _).mp hattained
      · exact Or.inl heq.symm
      · exact Or.inr (Or.inr hother)
  · intro hsettles
    refine ⟨?_, ?_⟩
    · obtain hnormal | ⟨m, hm, hactive, hu⟩ := (h c hc).1
      · exact Or.inl hnormal
      · by_cases hsubject : m.IsSubject kind subjectId
        · obtain ⟨-, heq | hnormal | hother⟩ := hsettles ⟨m, hm, hactive, hsubject⟩
          · exact Or.inr ((hmem c.id _).mpr (Or.inl ⟨⟨m, hm, hactive, hsubject⟩, heq.symm⟩))
          · exact Or.inl hnormal
          · exact Or.inr ((hmem c.id _).mpr (Or.inr hother))
        · exact Or.inr ((hmem c.id _).mpr (Or.inr ⟨m, hm, hsubject, hactive, hu⟩))
    · rintro u (rfl | hu) hold
      · exact absurd (Or.inl rfl) hold
      · obtain ⟨hsubject, rfl⟩ | ⟨m, hm, -, hactive, hu⟩ := (hmem c.id u).mp hu
        · exact (hsettles hsubject).1
        · exact absurd (Or.inr ⟨m, hm, hactive, hu⟩) hold

/-- A member joins without the recomputation: its case stays exact when the member's tier is at
most the tier of the case. -/
theorem tierExactAt_insertMember_iff {m : CaseMemberRow} {members : Table CaseMemberRow.id}
    {caseId : Uuid} (h : s.TierExactAt c) (hinsert : s.members.insert m = some members)
    (hactive : m.ActiveOn caseId) :
    TierExactAt { s with members := members } c ↔
      (c.id = caseId → ∀ t, s.memberTier m = some t → t ≤ c.effectiveTier) := by
  rw [TierExactAt, isGreatest_iff h]
  refine ⟨?_, ?_⟩
  · rintro ⟨-, hnew⟩ rfl t ht
    by_cases hold : t ∈ insert .normal (s.memberTiers c.id)
    · exact h.2 hold
    · exact hnew t (Or.inr ⟨m, (Table.mem_insert hinsert).mpr (Or.inr rfl), hactive, ht⟩) hold
  · intro hle
    refine ⟨?_, ?_⟩
    · obtain hnormal | ⟨x, hx, hxc, ht⟩ := h.1
      · exact Or.inl hnormal
      · exact Or.inr ⟨x, (Table.mem_insert hinsert).mpr (Or.inl hx), hxc, ht⟩
    · rintro t (rfl | ⟨x, hx, hxc, ht⟩) hold
      · exact absurd (Or.inl rfl) hold
      · obtain hx | rfl := (Table.mem_insert hinsert).mp hx
        · exact absurd (Or.inr ⟨x, hx, hxc, ht⟩) hold
        · exact hle (hxc.1.symm.trans hactive.1) t ht

/-- A member leaves without the recomputation: its case stays exact when another active member
has the tier of the case. -/
theorem tierExactAt_removeMember_iff {m m' : CaseMemberRow} {caseId : Uuid}
    (h : s.TierExactAt c) (hm : m ∈ s.members) (hactive : m.ActiveOn caseId) (hid : m'.id = m.id)
    (hremoved : m'.removed.moment ≠ none) :
    TierExactAt { s with members := s.members.put m' } c ↔
      (c.id = caseId → s.HeldBy c fun x => x.id ≠ m.id) := by
  rw [TierExactAt, isGreatest_iff h]
  refine ⟨?_, ?_⟩
  · rintro ⟨hattained, -⟩ -
    obtain hnormal | ⟨x, hx, hxc, ht⟩ := hattained
    · exact Or.inl hnormal
    · obtain rfl | ⟨hx, hne⟩ := (Table.mem_put hm hid).mp hx
      · exact absurd hxc.2 hremoved
      · exact Or.inr ⟨x, hx, fun hxm => hne (Table.eq_of_key hx hm hxm), hxc, ht⟩
  · intro hheld
    refine ⟨?_, ?_⟩
    · obtain hnormal | ⟨x, hx, hxc, ht⟩ := h.1
      · exact Or.inl hnormal
      -- the one with the tier of the case may be the one that leaves
      by_cases hxm : x = m
      · obtain hnormal | ⟨y, hy, hym, hyc, hty⟩ := hheld (hxc.1.symm.trans (hxm ▸ hactive.1))
        · exact Or.inl hnormal
        · have hne : y ≠ m := fun hy => hym (hy ▸ rfl)
          exact Or.inr ⟨y, (Table.mem_put hm hid).mpr (Or.inr ⟨hy, hne⟩), hyc, hty⟩
      · exact Or.inr ⟨x, (Table.mem_put hm hid).mpr (Or.inr ⟨hx, hxm⟩), hxc, ht⟩
    · rintro t (rfl | ⟨x, hx, hxc, ht⟩) hold
      · exact absurd (Or.inl rfl) hold
      · obtain rfl | ⟨hx, -⟩ := (Table.mem_put hm hid).mp hx
        · exact absurd hxc.2 hremoved
        · exact absurd (Or.inr ⟨x, hx, hxc, ht⟩) hold

/-! ## Runs -/

/-- The call leaves the greatest tiers alone, or recomputes them. A reclassification, a settled
classification and a row that arrives after it was made a member settle with the cases; a member
whose stored reasons are too long for the contract, so that the call raises before it recomputes,
is not above its case when it joins, and is not the only one with the tier of its case when it
leaves. -/
def Propagated (s : CaseStore) : CaseStep → Prop
  | .putObservation row =>
    s.observations.get row.id = none →
      s.SubjectSettles .observation row.id row.tiers.effectiveTier
  | .putAttachment row =>
    s.attachments.get row.id = none →
      s.SubjectSettles .attachment row.id row.tiers.effectiveTier
  | .reclassifyObservation id newTier reason =>
    (∃ row ∈ s.observations, row.id = id ∧
      reclassifyObservation (uuidText id) row.tiers newTier reason = .ok .promote) →
      s.SubjectSettles .observation id newTier
  | .reclassifyAttachment id newTier reason =>
    (∃ row ∈ s.attachments, row.id = id ∧
      reclassifyAttachment (uuidText id) row.tiers newTier reason = .ok .promote) →
      s.SubjectSettles .attachment id newTier
  | .setAttachmentClassification id tier =>
    ∀ row ∈ s.attachments, row.id = id → ∀ tiers, row.tiers.setClassifierTier tier = some tiers →
      s.SubjectSettles .attachment id tiers.effectiveTier
  | .addCaseMember newId caseId subjectKind subjectId addedByUserId reason now =>
    ∀ table, s.newCaseMember newId caseId subjectKind subjectId addedByUserId reason now =
        .ok table →
      s.members.get newId = none → table.readable = false →
        ∀ c ∈ s.cases, c.id = caseId →
          ∀ t, s.subjectTier subjectKind subjectId = some t → t ≤ c.effectiveTier
  | .removeCaseMember memberId removerUserId reason now =>
    ∀ table, s.removedCaseMember memberId removerUserId reason now = .ok table →
      table.readable = false →
        ∀ c ∈ s.cases, c.id = table.caseId → s.HeldBy c fun m => m.id ≠ memberId
  | _ => True

theorem memberTier_observations {table : Table TieredRow.id} {id : Uuid} {row : TieredRow}
    (hget : ∀ k, table.get k = if id = k then some row else s.observations.get k)
    (m : CaseMemberRow) :
    memberTier { s with observations := table } m =
      if m.IsSubject .observation id then some row.tiers.effectiveTier else s.memberTier m := by
  rw [memberTier, memberTier]
  by_cases hkind : m.subjectKind = .observation
  · simp only [subjectTier, hkind, hget, CaseMemberRow.IsSubject, true_and, eq_comm (a := id)]
    split_ifs <;> rfl
  · rw [if_neg fun h => hkind h.1]
    cases h : m.subjectKind <;> first | rfl | exact absurd h hkind

theorem memberTier_attachments {table : Table TieredRow.id} {id : Uuid} {row : TieredRow}
    (hget : ∀ k, table.get k = if id = k then some row else s.attachments.get k)
    (m : CaseMemberRow) :
    memberTier { s with attachments := table } m =
      if m.IsSubject .attachment id then some row.tiers.effectiveTier else s.memberTier m := by
  rw [memberTier, memberTier]
  by_cases hkind : m.subjectKind = .attachment
  · simp only [subjectTier, hkind, hget, CaseMemberRow.IsSubject, true_and, eq_comm (a := id)]
    split_ifs <;> rfl
  · rw [if_neg fun h => hkind h.1]
    cases h : m.subjectKind <;> first | rfl | exact absurd h hkind

/-- A row of observations is written or inserted. -/
theorem tierExact_observations_iff {table : Table TieredRow.id} {id : Uuid} {row : TieredRow}
    (h : s.TierExact)
    (hget : ∀ k, table.get k = if id = k then some row else s.observations.get k) :
    TierExact { s with observations := table } ↔
      s.SubjectSettles .observation id row.tiers.effectiveTier :=
  tierExact_subject_iff h rfl rfl (memberTier_observations hget)

/-- A row of attachments is written or inserted. -/
theorem tierExact_attachments_iff {table : Table TieredRow.id} {id : Uuid} {row : TieredRow}
    (h : s.TierExact)
    (hget : ∀ k, table.get k = if id = k then some row else s.attachments.get k) :
    TierExact { s with attachments := table } ↔
      s.SubjectSettles .attachment id row.tiers.effectiveTier :=
  tierExact_subject_iff h rfl rfl (memberTier_attachments hget)

section Evidence

variable {kind : CaseSubjectKind} {old : Table TieredRow.id}
variable {store : Table TieredRow.id → CaseStore}

/-- A row of evidence is inserted into its table, unless its id is taken. -/
theorem tierExact_insertRow_iff (h : s.TierExact) (hold : store old = s)
    (hwrite : ∀ {table : Table TieredRow.id} {id : Uuid} {row : TieredRow},
      (∀ k, table.get k = if id = k then some row else old.get k) →
        ((store table).TierExact ↔ s.SubjectSettles kind id row.tiers.effectiveTier))
    (row : TieredRow) :
    (store ((old.insert row).getD old)).TierExact ↔
      (old.get row.id = none → s.SubjectSettles kind row.id row.tiers.effectiveTier) := by
  cases hinsert : old.insert row with
  | none =>
    rw [Option.getD_none, hold]
    exact iff_of_true h fun hfree =>
      absurd hfree (Table.get_ne_none_of_insert_eq_none hinsert)
  | some table =>
    refine (hwrite (Table.get_insert hinsert)).trans ?_
    exact ⟨fun hs _ => hs, fun hs => hs (Table.insert_eq_some hinsert).1⟩

/-- A row of evidence is reclassified. -/
theorem tierExact_reclassifyIn_iff (h : s.TierExact) (hold : store old = s)
    (hwrite : ∀ {table : Table TieredRow.id} {id : Uuid} {row : TieredRow},
      (∀ k, table.get k = if id = k then some row else old.get k) →
        ((store table).TierExact ↔ s.SubjectSettles kind id row.tiers.effectiveTier))
    (subject : SubjectKind) (id : Uuid) (newTier : SensitivityTier) (reason : String) :
    (store (reclassifyIn subject old id newTier reason)).TierExact ↔
      ((∃ row ∈ old, row.id = id ∧
        reclassifyFor subject (uuidText id) row.tiers newTier reason = .ok .promote) →
          s.SubjectSettles kind id newTier) := by
  obtain ⟨hrefused, heq⟩ | ⟨row, hrow, hid, hpromote, row', hid', rfl, heq⟩ :=
    reclassifyIn_cases subject old id newTier reason <;> rw [heq]
  · rw [hold]
    refine iff_of_true h ?_
    rintro ⟨row, hrow, hid, hpromote⟩
    exact absurd hpromote (hrefused row hrow hid)
  · have hget := Table.get_put hrow (hid'.trans hid.symm)
    rw [hid] at hget
    refine (hwrite hget).trans ?_
    exact ⟨fun hs _ => hs, fun hs => hs ⟨row, hrow, hid, hpromote⟩⟩

end Evidence

theorem tierExact_addCaseMember_iff {newId caseId subjectId addedByUserId : Uuid}
    {subjectKind : CaseSubjectKind} {reason : String} {now : ℤ} (h : s.TierExact) :
    (s.addCaseMember newId caseId subjectKind subjectId addedByUserId reason now).1.TierExact ↔
      s.Propagated
        (.addCaseMember newId caseId subjectKind subjectId addedByUserId reason now) := by
  simp only [Propagated]
  obtain ⟨hrefused, heq⟩ | ⟨m, members, hnew, hinsert, heq⟩ :=
    s.addCaseMember_cases newId caseId subjectKind subjectId addedByUserId reason now <;> rw [heq]
  · exact iff_of_true h fun table htable hfree => absurd hfree (hrefused table htable)
  obtain ⟨-, hid, hactive, hkind, hsubject⟩ := newCaseMember_ok hnew
  have hcommitted {c : CaseRow} (hc : c ∈ s.cases) :=
    tierExactAt_insertMember_iff (h c hc) hinsert hactive
  -- the recomputation restores whatever the insertion did, where the call gets so far
  split_ifs with hread
  · refine iff_of_true ?_ fun table htable _ hunread => ?_
    · apply tierExact_maybeEmitTierChange
      exact fun c hc hne => (hcommitted hc).mpr fun hid => absurd hid hne
    · obtain rfl := Except.ok.inj (hnew.symm.trans htable)
      rw [hread] at hunread
      cases hunread
  · have hiff : TierExact { s with members := members } ↔ ∀ c ∈ s.cases, c.id = caseId →
        ∀ t, s.subjectTier subjectKind subjectId = some t → t ≤ c.effectiveTier := by
      rw [← hkind, ← hsubject]
      exact forall₂_congr fun c hc => hcommitted hc
    refine hiff.trans ⟨fun hle _ _ _ _ => hle, fun hall => ?_⟩
    exact hall m hnew (hid ▸ (Table.insert_eq_some hinsert).1) (Bool.not_eq_true _ ▸ hread)

theorem tierExact_removeCaseMember_iff {memberId removerUserId : Uuid} {reason : String} {now : ℤ}
    (h : s.TierExact) :
    (s.removeCaseMember memberId removerUserId reason now).1.TierExact ↔
      s.Propagated (.removeCaseMember memberId removerUserId reason now) := by
  simp only [Propagated]
  obtain ⟨hrefused, heq⟩ | ⟨table, hremoved, heq⟩ :=
    s.removeCaseMember_cases memberId removerUserId reason now <;> rw [heq]
  · exact iff_of_true h fun table htable => absurd htable (hrefused table)
  obtain ⟨m, hm, rfl, hactive, htable⟩ := removedCaseMember_ok hremoved
  have hgone : table.removed.moment ≠ none := by simp [htable, Triplet.set]
  have hcommitted {c : CaseRow} (hc : c ∈ s.cases) :=
    tierExactAt_removeMember_iff (h c hc) hm hactive (by rw [htable]) hgone
  split_ifs with hread
  · refine iff_of_true ?_ fun t ht hunread => ?_
    · apply tierExact_maybeEmitTierChange
      exact fun c hc hne => (hcommitted hc).mpr fun hid => absurd hid hne
    · obtain rfl := Except.ok.inj (hremoved.symm.trans ht)
      rw [hread] at hunread
      cases hunread
  · have hiff : TierExact { s with members := s.members.put table } ↔
        ∀ c ∈ s.cases, c.id = table.caseId → s.HeldBy c fun x => x.id ≠ m.id :=
      forall₂_congr fun c hc => hcommitted hc
    refine hiff.trans ⟨fun hheld t ht _ => ?_, fun hall => ?_⟩
    · obtain rfl := Except.ok.inj (hremoved.symm.trans ht)
      exact hheld
    · exact hall table hremoved (Bool.not_eq_true _ ▸ hread)

/-- One call keeps the cases exact exactly when it propagates. -/
theorem tierExact_step_iff (hplaced : s.Placed) (h : s.TierExact) (hstep : s.step a = some s') :
    s'.TierExact ↔ s.Propagated a := by
  cases a with
  | addCaseMember => exact Option.some.inj hstep ▸ tierExact_addCaseMember_iff h
  | removeCaseMember => exact Option.some.inj hstep ▸ tierExact_removeCaseMember_iff h
  | addCaseCollaborator | revokeCaseCollaborator =>
    obtain ⟨collaborators, rfl⟩ := step_collaborators rfl hstep
    exact iff_of_true h trivial
  | recomputeTier caseId =>
    obtain rfl := Option.some.inj hstep
    exact iff_of_true (tierExact_maybeEmitTierChange fun c hc _ => h c hc) trivial
  | putObservation row =>
    obtain rfl := Option.some.inj hstep
    exact tierExact_insertRow_iff h rfl (tierExact_observations_iff h) row
  | putAttachment row =>
    obtain rfl := Option.some.inj hstep
    exact tierExact_insertRow_iff h rfl (tierExact_attachments_iff h) row
  | reclassifyObservation id newTier reason =>
    obtain rfl := Option.some.inj hstep
    exact tierExact_reclassifyIn_iff h rfl (tierExact_observations_iff h) .observation id newTier
      reason
  | reclassifyAttachment id newTier reason =>
    obtain rfl := Option.some.inj hstep
    exact tierExact_reclassifyIn_iff h rfl (tierExact_attachments_iff h) .attachment id newTier
      reason
  | setAttachmentClassification id tier =>
    obtain rfl := Option.some.inj hstep
    obtain ⟨hrefused, heq⟩ | ⟨row, hrow, hid, row', hid', htiers, heq⟩ :=
      setClassificationIn_cases s.attachments id tier <;> rw [heq]
    · refine iff_of_true h fun row hrow hid tiers htiers => ?_
      rw [hrefused row hrow hid] at htiers
      cases htiers
    · have hget := Table.get_put hrow (hid'.trans hid.symm)
      rw [hid] at hget
      refine (tierExact_attachments_iff h hget).trans ⟨fun hs x hx hxid t ht => ?_, fun hs => ?_⟩
      · obtain rfl : x = row := Table.eq_of_key hx hrow (hxid.trans hid.symm)
        obtain rfl : row'.tiers = t := Option.some.inj (htiers.symm.trans ht)
        exact hs
      · exact hs row hrow hid row'.tiers htiers
  | _ => exact iff_of_true (h.caseWrite hplaced (step_caseWrite rfl hstep)) trivial

theorem Placed.addCaseMember (h : s.Placed) (newId caseId : Uuid) (subjectKind : CaseSubjectKind)
    (subjectId addedByUserId : Uuid) (reason : String) (now : ℤ) :
    (s.addCaseMember newId caseId subjectKind subjectId addedByUserId reason now).1.Placed := by
  obtain ⟨-, heq⟩ | ⟨table, members, hnew, hinsert, heq⟩ :=
    s.addCaseMember_cases newId caseId subjectKind subjectId addedByUserId reason now <;> rw [heq]
  · exact h
  obtain ⟨⟨c, hc, hid, -⟩, -, hactive, -⟩ := newCaseMember_ok hnew
  have hcommitted : Placed { s with members := members } := by
    intro m hm
    obtain hm | rfl := (Table.mem_insert hinsert).mp hm
    · exact h m hm
    · exact ⟨c, hc, hid.trans hactive.1.symm⟩
  split_ifs
  · exact hcommitted.maybeEmitTierChange caseId
  · exact hcommitted

theorem Placed.removeCaseMember (h : s.Placed) (memberId removerUserId : Uuid) (reason : String)
    (now : ℤ) : (s.removeCaseMember memberId removerUserId reason now).1.Placed := by
  obtain ⟨-, heq⟩ | ⟨table, hremoved, heq⟩ :=
    s.removeCaseMember_cases memberId removerUserId reason now <;> rw [heq]
  · exact h
  obtain ⟨m, hm, -, hactive, htable⟩ := removedCaseMember_ok hremoved
  have hcommitted : Placed { s with members := s.members.put table } := by
    intro x hx
    obtain rfl | ⟨hx, -⟩ := (Table.mem_put hm (by rw [htable])).mp hx
    · obtain ⟨c, hc, hid⟩ := h m hm
      exact ⟨c, hc, hid.trans hactive.1⟩
    · exact h x hx
  split_ifs
  · exact hcommitted.maybeEmitTierChange table.caseId
  · exact hcommitted

theorem Placed.step (h : s.Placed) (hstep : s.step a = some s') : s'.Placed := by
  cases a with
  | addCaseMember newId caseId subjectKind subjectId addedByUserId reason now =>
    obtain rfl := Option.some.inj hstep
    exact h.addCaseMember newId caseId subjectKind subjectId addedByUserId reason now
  | removeCaseMember memberId removerUserId reason now =>
    obtain rfl := Option.some.inj hstep
    exact h.removeCaseMember memberId removerUserId reason now
  | addCaseCollaborator | revokeCaseCollaborator =>
    obtain ⟨collaborators, rfl⟩ := step_collaborators rfl hstep
    exact h
  | recomputeTier caseId => exact Option.some.inj hstep ▸ h.maybeEmitTierChange caseId
  | putObservation | putAttachment | reclassifyObservation | reclassifyAttachment
  | setAttachmentClassification =>
    obtain rfl := Option.some.inj hstep
    exact h
  | _ => exact h.caseWrite (step_caseWrite rfl hstep)

/-- A reason that is long enough. -/
def sampleReason : String := "part of the investigation"

/-- A case with one member. -/
def sampleMember (kind : CaseSubjectKind) : List CaseStep :=
  [.createCase 1 "fraud ring" none 9 0 none, .addCaseMember 2 1 kind 7 9 sampleReason 1]

/-- A case keeps a tier that is not the greatest of its members. -/
theorem not_tierExact (hc : c ∈ s.cases) {t : SensitivityTier}
    (htier : ∃ m ∈ s.members, m.ActiveOn c.id ∧ s.memberTier m = some t)
    (hne : c.effectiveTier < t ∨
      c.effectiveTier ≠ .normal ∧ ∀ m ∈ s.members, s.memberTier m ≠ some c.effectiveTier) :
    ¬ s.TierExact := by
  intro hexact
  obtain hlt | ⟨hnormal, hnone⟩ := hne
  · exact absurd ((hexact c hc).2 (Or.inr htier)) (not_le.mpr hlt)
  · obtain h | ⟨m, hm, -, hmt⟩ := (hexact c hc).1
    · exact hnormal h
    · exact hnone m hm hmt

end CaseStore

end Eyenet
