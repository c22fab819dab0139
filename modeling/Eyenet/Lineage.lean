import Eyenet.CandidateJoin
import Eyenet.JoinDispatch
import Mathlib.Data.List.Induction

/-!
# The lineage of groups

A mention of a candidate carries the seed root that it descends from and its depth below it. The
discovery sensor reads the lineage of the group of a message (`group_lineage`), and records the
references in the message one deeper (`channel_reference_extraction`, `record_candidate_mention`). A
candidate that is joined leads to a group, and hands its mentions' lineage to it.

* `LineageStore.Inv.step` — a mention descends from its root by as many mentions as it says.
* `LineageStore.Inv.rightLineage_iff` — when the lineage of a group is the least of its candidates'.
* `LineageStore.group_lineage_iff` — both, in every run.
-/

namespace Eyenet

/-- The columns of a mention that the lineage depends on. -/
structure LineageMention extends CandidateMention where
  observedInGroupId : Uuid
  mentionEvidenceRef : String
  deriving DecidableEq

/-- The `MessageContext` of a message: its group, and the lineage that was read for it. -/
structure LineageContext where
  observedInGroupId : Uuid
  seedRootId : Option Uuid
  depthFromRoot : ℤ
  deriving DecidableEq

/-- The tables, and the contexts that were built. The last field records the groups to which a
candidate ever led. -/
structure LineageStore where
  /-- the `seed_root_group_ids` of the cases -/
  cases : List (List String)
  candidates : Table GroupCandidate.id
  mentions : List LineageMention
  contexts : List LineageContext
  joined : List (Uuid × Uuid)

namespace LineageStore

/-- The store before any call. -/
def init : LineageStore := ⟨[], .empty, [], [], []⟩

/-- `group_lineage` -/
def lineage (s : LineageStore) (groupId : Uuid) : Option Uuid × ℤ :=
  groupLineage s.cases (s.candidates.rows.map fun c => (c.id, c.row))
    (s.mentions.map LineageMention.toCandidateMention) groupId

/-- `record_candidate_mention`, of what a reference in a message has; `none` when the new id is
taken. -/
def recordCandidateMention (s : LineageStore) (newId sourceId : Uuid) (platformGroupid : String)
    (ctx : LineageContext) (mentionEvidenceRef : String) : Option LineageStore :=
  let mention (candidateId : Uuid) : LineageMention :=
    ⟨⟨candidateId, ctx.seedRootId, ctx.depthFromRoot + 1⟩, ctx.observedInGroupId,
      mentionEvidenceRef⟩
  match s.candidates.rows.find? fun c =>
      c.sourceId = sourceId ∧ c.platformGroupid = platformGroupid with
  | some c =>
    if ∃ m ∈ s.mentions, m.candidateId = c.id ∧ m.mentionEvidenceRef = mentionEvidenceRef then
      some s
    else some { s with mentions := s.mentions ++ [mention c.id] }
  | none =>
    (s.candidates.insert ⟨newId, sourceId, platformGroupid,
      ⟨.discovered, none, none, none, none, none⟩⟩).map fun candidates =>
        { s with candidates := candidates, mentions := s.mentions ++ [mention newId] }

/-- The store with another row for a candidate. -/
def setRow (s : LineageStore) (c : GroupCandidate) (row : CandidateRow) : LineageStore :=
  { s with
    candidates := s.candidates.put { c with row := row }
    joined := row.resultingGroupId.elim s.joined fun groupId => (c.id, groupId) :: s.joined }

/-- A call. -/
inductive Step where
  /-- a case is created, and gets its seed roots -/
  | createCase (seedRootGroupIds : List Uuid)
  /-- `transition_candidate` -/
  | transition (candidateId : Uuid) (args : CandidateTransition)
  /-- `claim_candidate_transition` -/
  | claim (candidateId : Uuid) (fromState toState : CandidateState) (resultingGroupId : Option Uuid)
  /-- `_build_context`, for a message in the group -/
  | context (groupId : Uuid)
  /-- a reference in the message of a context is recorded -/
  | record (context : ℕ) (newId sourceId : Uuid) (platformGroupid mentionEvidenceRef : String)

/-- The store after a call; one that raises changes nothing. -/
def step (s : LineageStore) : Step → LineageStore
  | .createCase seedRootGroupIds => { s with cases := s.cases ++ [seedRootGroupIds.map uuidText] }
  | .transition candidateId args =>
    match s.candidates.get candidateId with
    | none => s
    | some c =>
      match checkTransition c.row args with
      | .error _ => s
      | .ok _ => s.setRow c (applyTransition c.row args c.row)
  | .claim candidateId fromState toState resultingGroupId =>
    match s.candidates.get candidateId with
    | none => s
    | some c =>
      match claimTransition c.row fromState toState resultingGroupId none with
      | none => s
      | some row => s.setRow c row
  | .context groupId =>
    { s with contexts := s.contexts ++ [⟨groupId, (s.lineage groupId).1, (s.lineage groupId).2⟩] }
  | .record context newId sourceId platformGroupid mentionEvidenceRef =>
    match s.contexts[context]? with
    | none => s
    | some ctx =>
      -- a group's reference to itself is not recorded
      if platformGroupid = uuidText ctx.observedInGroupId then s
      else (s.recordCandidateMention newId sourceId platformGroupid ctx mentionEvidenceRef).getD s

/-- The store after the calls. -/
def run (steps : List Step) : LineageStore := steps.foldl step init

/-! ## What is right -/

/-- The group is a seed root of some case. -/
def IsSeedRoot (s : LineageStore) (groupId : Uuid) : Prop :=
  ∃ roots ∈ s.cases, uuidText groupId ∈ roots

/-- The mentions lead from the root to the group: the first one was observed in the root, each other
one in the group to which the candidate of the one before led, and the candidate of the last one
led to the group. -/
inductive Trail (s : LineageStore) (root : Uuid) : List LineageMention → Uuid → Prop
  | root (h : s.IsSeedRoot root) : Trail s root [] root
  | mention {ms : List LineageMention} {m : LineageMention} {groupId : Uuid}
      (htrail : Trail s root ms m.observedInGroupId) (hm : m ∈ s.mentions)
      (hroot : m.seedRootId = some root) (hjoined : (m.candidateId, groupId) ∈ s.joined) :
      Trail s root (ms ++ [m]) groupId

/-- The mention is the last of as many mentions from its root as it says. -/
def Witnessed (s : LineageStore) (m : LineageMention) : Prop :=
  1 ≤ m.depthFromRoot ∧ ∀ root, m.seedRootId = some root →
    ∃ ms, Trail s root ms m.observedInGroupId ∧ m.depthFromRoot = (ms ++ [m]).length

/-- The candidate leads to the group. -/
def LeadsTo (s : LineageStore) (candidateId groupId : Uuid) : Prop :=
  ∃ c ∈ s.candidates, c.id = candidateId ∧ c.row.resultingGroupId = some groupId

instance (s : LineageStore) (candidateId groupId : Uuid) :
    Decidable (s.LeadsTo candidateId groupId) :=
  inferInstanceAs (Decidable (∃ c ∈ s.candidates, _))

/-- A mention with a root, of a candidate that leads to the group. -/
def IsLead (s : LineageStore) (groupId : Uuid) (m : LineageMention) : Prop :=
  m ∈ s.mentions ∧ m.seedRootId ≠ none ∧ s.LeadsTo m.candidateId groupId

/-- The mention is a lead to the group, of the least depth of all. -/
def IsLeast (s : LineageStore) (groupId : Uuid) (m : LineageMention) : Prop :=
  s.IsLead groupId m ∧ ∀ m', s.IsLead groupId m' → m.depthFromRoot ≤ m'.depthFromRoot

/-- The lineage of the group says that it is a seed root, or it is that of a lead of the least
depth, or there is none. -/
structure RightLineage (s : LineageStore) (groupId : Uuid) : Prop where
  root : s.lineage groupId = (some groupId, 0) ↔ s.IsSeedRoot groupId
  least : ¬ s.IsSeedRoot groupId → (∃ m, s.IsLead groupId m) →
    ∃ m, s.IsLeast groupId m ∧ s.lineage groupId = (m.seedRootId, m.depthFromRoot)
  unknown : s.lineage groupId = (none, 0) ↔
    ¬ s.IsSeedRoot groupId ∧ ¬ ∃ m, s.IsLead groupId m

/-- The candidate that comes first in the table of those that lead to the group. -/
def firstLeading (s : LineageStore) (groupId : Uuid) : Option GroupCandidate :=
  s.candidates.rows.find? fun c => c.row.resultingGroupId = some groupId

/-- The group is a seed root, or it has no lead, or one of its leads of the least depth is of the
first candidate that leads to it. -/
def LeastFirst (s : LineageStore) (groupId : Uuid) : Prop :=
  s.IsSeedRoot groupId ∨ (¬ ∃ m, s.IsLead groupId m) ∨
    ∃ m, s.IsLeast groupId m ∧ (s.firstLeading groupId).map GroupCandidate.id = some m.candidateId

variable {s s' : LineageStore} {root groupId : Uuid} {m : LineageMention}
  {ms : List LineageMention}

/-! ## The least of some mentions -/

theorem shallowest_eq_none {l : List CandidateMention} (h : shallowest l = none) : l = [] := by
  cases l with
  | nil => rfl
  | cons m l =>
    rw [shallowest] at h
    cases hl : shallowest l with
    | none => simp [hl] at h
    | some best =>
      rw [hl] at h
      dsimp only at h
      split_ifs at h

theorem shallowest_spec {l : List CandidateMention} {best : CandidateMention}
    (h : shallowest l = some best) :
    best ∈ l ∧ ∀ m ∈ l, best.depthFromRoot ≤ m.depthFromRoot := by
  induction l generalizing best with
  | nil => cases h
  | cons m l ih =>
    rw [shallowest] at h
    cases hl : shallowest l with
    | none =>
      obtain rfl := shallowest_eq_none hl
      obtain rfl : m = best := by simpa [hl] using h
      simp
    | some least =>
      obtain ⟨hmem, hle⟩ := ih hl
      rw [hl] at h
      dsimp only at h
      split_ifs at h with hlt
      · obtain rfl := Option.some.inj h
        refine ⟨List.mem_cons_of_mem m hmem, fun m' hm' => ?_⟩
        rcases List.mem_cons.mp hm' with rfl | hm'
        · exact hlt.le
        · exact hle m' hm'
      · obtain rfl := Option.some.inj h
        refine ⟨List.mem_cons_self, fun m' hm' => ?_⟩
        rcases List.mem_cons.mp hm' with rfl | hm'
        · exact le_rfl
        · exact (not_lt.mp hlt).trans (hle m' hm')

/-- What `group_lineage` can return: that the group is a seed root, the lineage of the least lead of
the first candidate that leads to it, or none when that candidate has no lead. -/
theorem lineage_cases (s : LineageStore) (groupId : Uuid) :
    (s.IsSeedRoot groupId ∧ s.lineage groupId = (some groupId, 0)) ∨
    (¬ s.IsSeedRoot groupId ∧ s.lineage groupId = (none, 0) ∧
      ∀ c, s.firstLeading groupId = some c → ∀ m ∈ s.mentions, m.candidateId = c.id →
        m.seedRootId = none) ∨
    (¬ s.IsSeedRoot groupId ∧ ∃ c m, s.firstLeading groupId = some c ∧ m ∈ s.mentions ∧
      m.candidateId = c.id ∧ m.seedRootId ≠ none ∧
      (∀ m' ∈ s.mentions, m'.candidateId = c.id → m'.seedRootId ≠ none →
        m.depthFromRoot ≤ m'.depthFromRoot) ∧
      s.lineage groupId = (m.seedRootId, m.depthFromRoot)) := by
  have hfirst : lineageCandidate (s.candidates.rows.map fun c => (c.id, c.row)) groupId =
      (s.firstLeading groupId).map fun c => (c.id, c.row) := by
    rw [lineageCandidate, List.find?_map]
    rfl
  rw [lineage, groupLineage, hfirst]
  split_ifs with hseed
  · exact Or.inl ⟨hseed, rfl⟩
  refine Or.inr ?_
  cases hc : s.firstLeading groupId with
  | none => exact Or.inl ⟨hseed, rfl, fun c hc => by cases hc⟩
  | some c =>
    simp only [Option.map_some]
    have hmem : ∀ m ∈ s.mentions, m.candidateId = c.id → m.seedRootId ≠ none →
        m.toCandidateMention ∈ (s.mentions.map LineageMention.toCandidateMention).filter fun m =>
          m.candidateId = c.id ∧ m.seedRootId.isSome := fun m hm hid hroot =>
      List.mem_filter.mpr ⟨List.mem_map_of_mem hm,
        decide_eq_true ⟨hid, Option.isSome_iff_ne_none.mpr hroot⟩⟩
    cases hbest : shallowest ((s.mentions.map LineageMention.toCandidateMention).filter fun m =>
        m.candidateId = c.id ∧ m.seedRootId.isSome) with
    | none =>
      refine Or.inl ⟨hseed, rfl, fun c' hc' m hm hid => ?_⟩
      obtain rfl := Option.some.inj hc'
      by_contra hroot
      exact absurd (hmem m hm hid hroot) (by rw [shallowest_eq_none hbest]; exact List.not_mem_nil)
    | some best =>
      obtain ⟨hin, hle⟩ := shallowest_spec hbest
      simp only [List.mem_filter, List.mem_map, decide_eq_true_eq] at hin
      obtain ⟨⟨m, hm, rfl⟩, hid, hroot⟩ := hin
      exact Or.inr ⟨hseed, c, m, rfl, hm, hid, Option.isSome_iff_ne_none.mp hroot,
        fun m' hm' hid' hroot' => hle _ (hmem m' hm' hid' hroot'), rfl⟩

/-! ## Trails -/

/-- What was recorded stays recorded. -/
structure Grows (s s' : LineageStore) : Prop where
  cases : s.cases ⊆ s'.cases
  mentions : s.mentions ⊆ s'.mentions
  joined : s.joined ⊆ s'.joined

theorem Grows.refl (s : LineageStore) : s.Grows s :=
  ⟨List.Subset.refl _, List.Subset.refl _, List.Subset.refl _⟩

theorem Trail.mono (h : s.Trail root ms groupId) (hgrows : s.Grows s') :
    s'.Trail root ms groupId := by
  induction h with
  | root hroot =>
    obtain ⟨roots, hroots, hin⟩ := hroot
    exact .root ⟨roots, hgrows.cases hroots, hin⟩
  | mention _ hm hroot hjoined ih =>
    exact .mention ih (hgrows.mentions hm) hroot (hgrows.joined hjoined)

theorem Witnessed.mono (h : s.Witnessed m) (hgrows : s.Grows s') : s'.Witnessed m :=
  ⟨h.1, fun root hroot => (h.2 root hroot).imp fun _ hms => ⟨hms.1.mono hgrows, hms.2⟩⟩

/-- The context has the lineage of its group: as many mentions lead there from its root as it
says. -/
def WitnessedContext (s : LineageStore) (ctx : LineageContext) : Prop :=
  0 ≤ ctx.depthFromRoot ∧ ∀ root, ctx.seedRootId = some root →
    ∃ ms, Trail s root ms ctx.observedInGroupId ∧ ctx.depthFromRoot = ms.length

theorem WitnessedContext.mono {ctx : LineageContext} (h : s.WitnessedContext ctx)
    (hgrows : s.Grows s') : s'.WitnessedContext ctx :=
  ⟨h.1, fun root hroot => (h.2 root hroot).imp fun _ hms => ⟨hms.1.mono hgrows, hms.2⟩⟩

/-- What every call preserves. -/
structure Inv (s : LineageStore) : Prop where
  mention : ∀ m ∈ s.mentions, s.Witnessed m
  context : ∀ ctx ∈ s.contexts, s.WitnessedContext ctx
  joined : ∀ c ∈ s.candidates, ∀ groupId, c.row.resultingGroupId = some groupId →
    (c.id, groupId) ∈ s.joined

theorem inv_init : init.Inv where
  mention := fun _ hm => absurd hm List.not_mem_nil
  context := fun _ hctx => absurd hctx List.not_mem_nil
  joined := fun c hc => absurd hc (Table.not_mem_empty c)

theorem mem_of_firstLeading {c : GroupCandidate} (h : s.firstLeading groupId = some c) :
    c ∈ s.candidates ∧ c.row.resultingGroupId = some groupId := by
  rw [firstLeading] at h
  exact ⟨List.mem_of_find?_eq_some h, by simpa using List.find?_some h⟩

/-- The lineage that is read for a group has a trail. -/
theorem Inv.lineage (h : s.Inv) (groupId : Uuid) :
    s.WitnessedContext ⟨groupId, (s.lineage groupId).1, (s.lineage groupId).2⟩ := by
  obtain ⟨hseed, heq⟩ | ⟨-, heq, -⟩ | ⟨-, c, m, hc, hm, hid, -, -, heq⟩ := s.lineage_cases groupId
  · rw [heq]
    refine ⟨le_rfl, fun root hroot => ?_⟩
    obtain rfl := Option.some.inj hroot
    exact ⟨[], .root hseed, rfl⟩
  · rw [heq]
    exact ⟨le_rfl, fun root hroot => by cases hroot⟩
  · rw [heq]
    obtain ⟨hpos, htrail⟩ := h.mention m hm
    obtain ⟨hmem, hleads⟩ := mem_of_firstLeading hc
    refine ⟨zero_le_one.trans hpos, fun root hroot => ?_⟩
    obtain ⟨ms, hms, hlength⟩ := htrail root hroot
    have hjoined : (m.candidateId, groupId) ∈ s.joined := hid ▸ h.joined c hmem groupId hleads
    exact ⟨ms ++ [m], hms.mention hm hroot hjoined, hlength⟩

/-- A mention that is recorded with the lineage of a context is one deeper. -/
theorem WitnessedContext.mention {ctx : LineageContext} (h : s.WitnessedContext ctx)
    (candidateId : Uuid) (ref : String) : s.Witnessed ⟨⟨candidateId, ctx.seedRootId,
      ctx.depthFromRoot + 1⟩, ctx.observedInGroupId, ref⟩ := by
  refine ⟨by have := h.1; simpa using this, fun root hroot => ?_⟩
  obtain ⟨ms, hms, hlength⟩ := h.2 root hroot
  refine ⟨ms, hms, ?_⟩
  rw [List.length_append, List.length_singleton, Nat.cast_add, ← hlength, Nat.cast_one]

theorem grows_setRow (s : LineageStore) (c : GroupCandidate) (row : CandidateRow) :
    s.Grows (s.setRow c row) := by
  refine ⟨List.Subset.refl _, List.Subset.refl _, ?_⟩
  rw [setRow]
  cases row.resultingGroupId with
  | none => exact List.Subset.refl _
  | some groupId => exact List.subset_cons_self _ _

theorem Inv.setRow {c : GroupCandidate} (h : s.Inv) (hc : c ∈ s.candidates) (row : CandidateRow) :
    (s.setRow c row).Inv := by
  have hgrows := s.grows_setRow c row
  refine ⟨fun m hm => (h.mention m hm).mono hgrows,
    fun ctx hctx => (h.context ctx hctx).mono hgrows, fun x hx groupId hgroup => ?_⟩
  have hput : x = { c with row := row } ∨ x ∈ s.candidates ∧ x ≠ c :=
    (Table.mem_put hc (by rfl)).mp hx
  rcases hput with rfl | ⟨hx, -⟩
  · have hgroup : row.resultingGroupId = some groupId := hgroup
    simp [LineageStore.setRow, hgroup]
  · exact hgrows.joined (h.joined x hx groupId hgroup)

theorem Inv.addMention {ctx : LineageContext} {candidates : Table GroupCandidate.id} (h : s.Inv)
    (hctx : s.WitnessedContext ctx) (candidateId : Uuid) (ref : String)
    (hcandidates : ∀ c ∈ candidates, c ∈ s.candidates ∨ c.row.resultingGroupId = none) :
    Inv { s with
      candidates := candidates
      mentions := s.mentions ++ [⟨⟨candidateId, ctx.seedRootId, ctx.depthFromRoot + 1⟩,
        ctx.observedInGroupId, ref⟩] } := by
  have hgrows : s.Grows { s with
      candidates := candidates
      mentions := s.mentions ++ [⟨⟨candidateId, ctx.seedRootId, ctx.depthFromRoot + 1⟩,
        ctx.observedInGroupId, ref⟩] } :=
    ⟨List.Subset.refl _, List.subset_append_left _ _, List.Subset.refl _⟩
  refine ⟨fun m hm => ?_, fun x hx => (h.context x hx).mono hgrows, fun c hc groupId hgroup => ?_⟩
  · rcases List.mem_append.mp hm with hm | hm
    · exact (h.mention m hm).mono hgrows
    · obtain rfl := List.mem_singleton.mp hm
      exact (hctx.mono hgrows).mention candidateId ref
  · rcases hcandidates c hc with hc | hnone
    · exact h.joined c hc groupId hgroup
    · exact absurd (hnone.symm.trans hgroup) (Option.some_ne_none groupId).symm

theorem Inv.record {ctx : LineageContext} {newId sourceId : Uuid} {platformGroupid ref : String}
    (h : s.Inv) (hctx : s.WitnessedContext ctx)
    (hrecord : s.recordCandidateMention newId sourceId platformGroupid ctx ref = some s') :
    s'.Inv := by
  rw [recordCandidateMention] at hrecord
  split at hrecord
  · split_ifs at hrecord
    · exact Option.some.inj hrecord ▸ h
    · exact Option.some.inj hrecord ▸ h.addMention hctx _ ref fun c hc => Or.inl hc
  · obtain ⟨candidates, hinsert, rfl⟩ := Option.map_eq_some_iff.mp hrecord
    refine h.addMention hctx _ ref fun c hc => ?_
    rcases (Table.mem_insert hinsert).mp hc with hc | rfl
    · exact Or.inl hc
    · exact Or.inr rfl

/-- **What one call preserves.** -/
theorem Inv.step (h : s.Inv) (a : Step) : (s.step a).Inv := by
  cases a with
  | createCase seedRootGroupIds =>
    have hgrows : s.Grows (s.step (.createCase seedRootGroupIds)) :=
      ⟨List.subset_append_left _ _, List.Subset.refl _, List.Subset.refl _⟩
    exact ⟨fun m hm => (h.mention m hm).mono hgrows,
      fun ctx hctx => (h.context ctx hctx).mono hgrows, h.joined⟩
  | transition candidateId args =>
    rw [LineageStore.step]
    cases hc : s.candidates.get candidateId with
    | none => exact h
    | some c =>
      dsimp only
      cases checkTransition c.row args with
      | error _ => exact h
      | ok _ => exact h.setRow (Table.get_eq_some.mp hc).1 _
  | claim candidateId fromState toState resultingGroupId =>
    rw [LineageStore.step]
    cases hc : s.candidates.get candidateId with
    | none => exact h
    | some c =>
      dsimp only
      cases claimTransition c.row fromState toState resultingGroupId none with
      | none => exact h
      | some row => exact h.setRow (Table.get_eq_some.mp hc).1 row
  | context groupId =>
    have hgrows : s.Grows (s.step (.context groupId)) :=
      ⟨List.Subset.refl _, List.Subset.refl _, List.Subset.refl _⟩
    refine ⟨fun m hm => (h.mention m hm).mono hgrows, fun ctx hctx => ?_, h.joined⟩
    rcases List.mem_append.mp hctx with hctx | hctx
    · exact (h.context ctx hctx).mono hgrows
    · obtain rfl := List.mem_singleton.mp hctx
      exact (h.lineage groupId).mono hgrows
  | record context newId sourceId platformGroupid ref =>
    rw [LineageStore.step]
    cases hctx : s.contexts[context]? with
    | none => exact h
    | some ctx =>
      dsimp only
      split_ifs
      · exact h
      · cases hrecord : s.recordCandidateMention newId sourceId platformGroupid ctx ref with
        | none => exact h
        | some s' => exact h.record (h.context ctx (List.mem_of_getElem? hctx)) hrecord

theorem inv_run (steps : List Step) : (run steps).Inv := by
  induction steps using List.reverseRec with
  | nil => exact inv_init
  | append_singleton steps a ih =>
    rw [run, List.foldl_concat]
    exact ih.step a

/-! ## The lineage of a group -/

/-- The lineage of a group is right exactly when a lead of the least depth is of the candidate that
`group_lineage` looks at. -/
theorem Inv.rightLineage_iff (h : s.Inv) (groupId : Uuid) :
    s.RightLineage groupId ↔ s.LeastFirst groupId := by
  obtain ⟨hseed, heq⟩ | ⟨hseed, heq, hnone⟩ | ⟨hseed, c, m, hc, hm, hid, hroot, hle, heq⟩ :=
    s.lineage_cases groupId
  · refine iff_of_true ⟨?_, fun hnot => absurd hseed hnot, ?_⟩ (Or.inl hseed)
    · exact iff_of_true heq hseed
    · rw [heq]
      exact iff_of_false (by simp) fun hnot => hnot.1 hseed
  · constructor
    · exact fun hright => Or.inr (Or.inl (hright.unknown.mp heq).2)
    · rintro (hroot | hno | ⟨m, ⟨⟨hm, hroot, -⟩, -⟩, hfirst⟩)
      · exact absurd hroot hseed
      · refine ⟨?_, fun _ hlead => absurd hlead hno, iff_of_true heq ⟨hseed, hno⟩⟩
        rw [heq]
        exact iff_of_false (by simp) hseed
      · obtain ⟨c, hc, hid⟩ := Option.map_eq_some_iff.mp hfirst
        exact absurd (hnone c hc m hm hid.symm) hroot
  · obtain ⟨hmem, hleads⟩ := mem_of_firstLeading hc
    have hlead : s.IsLead groupId m := ⟨hm, hroot, c, hmem, hid.symm, hleads⟩
    have hpos : 1 ≤ m.depthFromRoot := (h.mention m hm).1
    constructor
    · intro hright
      obtain ⟨m', ⟨-, hleast⟩, heq'⟩ := hright.least hseed ⟨m, hlead⟩
      have hdepth : m.depthFromRoot = m'.depthFromRoot :=
        congrArg Prod.snd (heq.symm.trans heq')
      refine Or.inr (Or.inr ⟨m, ⟨hlead, fun x hx => hdepth ▸ hleast x hx⟩, ?_⟩)
      rw [hc, hid]
      rfl
    · rintro (hroot' | hno | ⟨m', ⟨⟨hm', hroot', -⟩, hleast⟩, hfirst⟩)
      · exact absurd hroot' hseed
      · exact absurd ⟨m, hlead⟩ hno
      · rw [hc] at hfirst
        have hdepth := hle m' hm' (Option.some.inj hfirst).symm hroot'
        refine ⟨?_, fun _ _ => ⟨m, ⟨hlead, fun x hx => hdepth.trans (hleast x hx)⟩, heq⟩, ?_⟩
        · refine iff_of_false (fun hzero => ?_) hseed
          have hdepth : m.depthFromRoot = 0 := congrArg Prod.snd (heq.symm.trans hzero)
          omega
        · refine iff_of_false (fun hzero => ?_) fun hno => hno.2 ⟨m, hlead⟩
          exact hroot (congrArg Prod.fst (heq.symm.trans hzero))

/-- In every run, each mention descends from its seed root by as many mentions as it says, and the
lineage of a group is right exactly when the first candidate that leads to it has a lead of the
least depth. -/
theorem group_lineage_iff (steps : List Step) :
    (∀ m ∈ (run steps).mentions, (run steps).Witnessed m) ∧
      ∀ groupId, (run steps).RightLineage groupId ↔ (run steps).LeastFirst groupId :=
  ⟨(inv_run steps).mention, (inv_run steps).rightLineage_iff⟩

/-- The steps by which a candidate is joined. -/
def joinSteps (candidateId groupId : Uuid) : List Step :=
  [.transition candidateId ⟨.queued, none, none, none, none, none⟩,
    .transition candidateId ⟨.approved, none, none, none, none, none⟩,
    .transition candidateId ⟨.joining, none, none, none, none, none⟩,
    .claim candidateId .joining .joined (some groupId)]

/-- An invite link is seen in a group without lineage, and the name of the same group in a seed
root. -/
def twoCandidates : List Step :=
  [.createCase [1], .context 5, .record 0 21 3 "joinchat:AbCdEfGh" "telegram:5:1#joinchat:AbCdEfGh",
    .context 1, .record 1 22 3 "@kestrel" "telegram:1:1#@kestrel"] ++ joinSteps 21 9 ++
    joinSteps 22 9

/-- The first candidate has no lineage to hand on, and the second one is not looked at. -/
theorem second_candidate_ignored :
    (run twoCandidates).lineage 9 = (none, 0) ∧
      (run twoCandidates).IsLead 9 ⟨⟨22, some 1, 1⟩, 1, "telegram:1:1#@kestrel"⟩ :=
  ⟨by decide +kernel, by decide +kernel, Option.some_ne_none 1, by decide +kernel⟩

end LineageStore

end Eyenet
