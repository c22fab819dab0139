import Eyenet.Graph
import Eyenet.Machine

/-!
# Linkages in the graph

An edge between two actors carries the id of a linkage and its state. The graph service writes the
state that the event brings, whether or not `transition_linkage` took it: on an event that comes
again the state is there already, but an event that comes too late is refused there and shown here.

* `GraphService.LinkageLaw` — the edges show the stored states, and actors are merged only on
  account of confirmed linkages.
* `GraphService.showDecision_law_iff` — what one decision does to it.
* `GraphService.linkageLaw_iff_applies` — exactly when the law holds after every event.
-/

namespace Eyenet

open Machine

namespace GraphService

/-! ## The law -/

/-- The edge is of a linkage of its two actors, and shows the state of the linkage. -/
def Shows (linkages : LinkageTable) (e : GraphEdge) : Prop :=
  ∃ row ∈ linkages.rows, e.attrs "linkage_id" = some (.uuid row.id) ∧
    e.attrs "state" = some (.text row.state.value) ∧
    row.actorAId = e.srcId ∧ row.actorBId = e.dstId

instance (linkages : LinkageTable) (e : GraphEdge) : Decidable (Shows linkages e) := by
  unfold Shows
  infer_instance

/-- Every edge between actors shows its linkage. -/
def LinksShown (s : GraphService) : Prop :=
  ∀ e ∈ s.graph.edges, e.edgeType = .linkedTo → Shows s.linkages e

/-- The linkage on account of which two actors were merged is confirmed. Every merge that went
through was published, with its linkage. -/
def MergesConfirmed (s : GraphService) : Prop :=
  ∀ env ∈ s.published, ∀ id ∈ env.viaLinkageId,
    ∃ row ∈ s.linkages.rows, row.id = id ∧ row.state = .confirmed

/-- What the edges and the personas owe to the linkages. -/
def LinkageLaw (s : GraphService) : Prop := s.LinksShown ∧ s.MergesConfirmed

/-- The linkage is one of the two actors, and is in the state already or may still move to it. -/
def Admits (linkages : LinkageTable) (target : LinkageState) (env : LinkageDecisionEnvelope) :
    Prop :=
  ∃ row ∈ linkages.rows, row.id = env.linkageId ∧ row.actorAId = env.actorAId ∧
    row.actorBId = env.actorBId ∧ (row.state = target ∨ target ∈ row.state.legalTransitions)

/-- The event is about a linkage that is as the event says, or may still become so. -/
def Applies (s : GraphService) : GraphEvent → Prop
  | .proposed env _ => ∃ row ∈ s.linkages.rows, row.id = env.linkageId ∧
      row.actorAId = env.actorAId ∧ row.actorBId = env.actorBId ∧ row.state = .proposed
  | .suspected env _ => Admits s.linkages .suspected env
  | .confirmed env _ _ => Admits s.linkages .confirmed env
  | .rejected env _ => Admits s.linkages .rejected env
  | _ => True

/-! ## Steps -/

variable {s s' : GraphService}

/-- The edges of members are not those of linkages. -/
theorem linksShown_syncPersona {personas : PersonaStore} {published : List PersonaUpdatedEnvelope}
    (personaId : Uuid) (members : List Uuid) (now : ℤ) :
    LinksShown ⟨s.linkages, personas, s.graph.syncPersona personaId members now, published⟩ ↔
      s.LinksShown := by
  refine forall_congr' fun e => ?_
  by_cases hlinked : e.edgeType = .linkedTo
  · have hne : e.edgeType ≠ .belongsToPersona := by
      rw [hlinked]
      exact nofun
    simp only [Graph.mem_syncPersona hne]
  · exact iff_of_true (fun _ h => absurd h hlinked) fun _ h => absurd h hlinked

/-- What is published without a linkage changes nothing for the linkages. -/
theorem mergesConfirmed_append {personas : PersonaStore} {graph : Graph}
    {env : PersonaUpdatedEnvelope} (hvia : env.viaLinkageId = none) :
    MergesConfirmed ⟨s.linkages, personas, graph, s.published ++ [env]⟩ ↔ s.MergesConfirmed := by
  refine ⟨fun h env' henv' => h env' (List.mem_append_left _ henv'), fun h env' henv' => ?_⟩
  obtain henv' | henv' := List.mem_append.mp henv'
  · exact h env' henv'
  · obtain rfl := List.mem_singleton.mp henv'
    rw [hvia]
    exact nofun

/-- An edge that is written with the id and the state of a linkage of its actors shows it, and an
edge that shows a linkage was written so. -/
theorem shows_upserted {linkages : LinkageTable} {existing : Option Attrs} {attrs : Attrs}
    {x y id : Uuid} {state : LinkageState} {now : ℤ} (hid : attrs "linkage_id" = some (.uuid id))
    (hstate : attrs "state" = some (.text state.value)) :
    Shows linkages ⟨.linkedTo, x, y, Graph.upsertedAttrs existing attrs, now⟩ ↔
      ∃ row ∈ linkages.rows, row.id = id ∧ row.actorAId = x ∧ row.actorBId = y ∧
        row.state = state := by
  simp only [Shows, Graph.upsertedAttrs_of_some hid, Graph.upsertedAttrs_of_some hstate]
  refine exists_congr fun row => and_congr_right fun _ => ⟨fun h => ?_, fun h => ?_⟩
  · obtain ⟨hrowid, hrowstate, hx, hy⟩ := h
    refine ⟨(AttrValue.uuid.inj (Option.some.inj hrowid)).symm, hx, hy, ?_⟩
    exact LinkageState.value_injective (AttrValue.text.inj (Option.some.inj hrowstate)).symm
  · obtain ⟨rfl, hx, hy, rfl⟩ := h
    exact ⟨rfl, rfl, hx, hy⟩

/-- After the upsert of an edge, all edges show their linkages when this one does and the others
do. -/
theorem forall_mem_upsertEdge {g : Graph} {linkages : LinkageTable} {x y id : Uuid} {attrs : Attrs}
    {state : LinkageState} {now : ℤ} (hid : attrs "linkage_id" = some (.uuid id))
    (hstate : attrs "state" = some (.text state.value)) :
    (∀ e ∈ (g.upsertEdge .linkedTo x y attrs now).edges, e.edgeType = .linkedTo →
        Shows linkages e) ↔
      (∃ row ∈ linkages.rows, row.id = id ∧ row.actorAId = x ∧ row.actorBId = y ∧
        row.state = state) ∧
      ∀ e ∈ g.edges, e.key ≠ (.linkedTo, x, y) → e.edgeType = .linkedTo → Shows linkages e := by
  refine ⟨fun h => ⟨?_, fun e he hkey hlinked => ?_⟩, fun h e he hlinked => ?_⟩
  · exact (shows_upserted hid hstate).mp (h _ (Graph.mem_upsertEdge.mpr (Or.inl rfl)) rfl)
  · exact h e (Graph.mem_upsertEdge.mpr (Or.inr ⟨he, hkey⟩)) hlinked
  · obtain rfl | ⟨he, hkey⟩ := Graph.mem_upsertEdge.mp he
    · exact (shows_upserted hid hstate).mpr h.1
    · exact h.2 e he hkey hlinked

/-- A proposal is shown rightly exactly when its linkage is stored and still a proposal. -/
theorem handleProposed_law_iff (h : s.LinkageLaw) (env : LinkageProposedEnvelope) (now : ℤ) :
    (s.handleProposed env now).LinkageLaw ↔ s.Applies (.proposed env now) := by
  have hiff : (s.handleProposed env now).LinksShown ↔ s.Applies (.proposed env now) ∧
      ∀ e ∈ s.graph.edges, e.key ≠ (.linkedTo, env.actorAId, env.actorBId) →
        e.edgeType = .linkedTo → Shows s.linkages e := by
    apply forall_mem_upsertEdge <;> rfl
  refine ⟨fun hlaw => (hiff.mp hlaw.1).1, fun happlies => ⟨hiff.mpr ⟨happlies, ?_⟩, h.2⟩⟩
  exact fun e he _ hlinked => h.1 e he hlinked

/-- The decision of a linkage of the two actors that may take it leaves the linkage in the state of
the decision, and nothing else is left so by it. -/
theorem exists_decided_iff (linkages : LinkageTable) (target : LinkageState)
    (env : LinkageDecisionEnvelope) (now : ℤ) :
    (∃ row ∈ (linkages.transitionLinkage env.linkageId target env.decidedBy env.notes now).1.rows,
        row.id = env.linkageId ∧ row.actorAId = env.actorAId ∧ row.actorBId = env.actorBId ∧
          row.state = target) ↔ Admits linkages target env := by
  have hget := linkages.get_transitionLinkage env.linkageId target env.decidedBy env.notes now
    env.linkageId
  refine ⟨fun h => ?_, fun h => ?_⟩
  · obtain ⟨row', hrow', hid, ha, hb, hstate⟩ := h
    rw [Table.get_eq_some.mpr ⟨hrow', hid⟩, eq_comm, Option.map_eq_some_iff] at hget
    obtain ⟨row, hrow, rfl⟩ := hget
    obtain ⟨hrow, hrowid⟩ := Table.get_eq_some.mp hrow
    -- it moved to the state now, or was in it
    split_ifs at ha hb hstate with hlegal
    · exact ⟨row, hrow, hrowid, ha, hb, Or.inr hlegal.2⟩
    · exact ⟨row, hrow, hrowid, ha, hb, Or.inl hstate⟩
  · obtain ⟨row, hrow, hrowid, ha, hb, hstate⟩ := h
    rw [Table.get_eq_some.mpr ⟨hrow, hrowid⟩, Option.map_some] at hget
    obtain ⟨hrow', hid⟩ := Table.get_eq_some.mp hget
    split_ifs at hrow' hid with hlegal
    · exact ⟨_, hrow', hid, ha, hb, rfl⟩
    · refine ⟨row, hrow', hid, ha, hb, hstate.resolve_right fun hmem => hlegal ⟨hrowid, hmem⟩⟩

/-- A decision leaves the other linkages as they are. -/
theorem shows_transition {linkages : LinkageTable} {target : LinkageState}
    {env : LinkageDecisionEnvelope} {now : ℤ} {e : GraphEdge} (h : Shows linkages e)
    (hother : e.attrs "linkage_id" ≠ some (.uuid env.linkageId)) :
    Shows (linkages.transitionLinkage env.linkageId target env.decidedBy env.notes now).1 e := by
  obtain ⟨row, hrow, hid, hstate, hsrc, hdst⟩ := h
  have hne : row.id ≠ env.linkageId := by
    rintro hrowid
    exact hother (hrowid ▸ hid)
  have hget := linkages.get_transitionLinkage env.linkageId target env.decidedBy env.notes now
    row.id
  rw [Table.get_self hrow, Option.map_some, if_neg fun h => hne h.1] at hget
  exact ⟨row, (Table.get_eq_some.mp hget).1, hid, hstate, hsrc, hdst⟩

/-- A confirmed linkage stays so. -/
theorem confirmed_transition {linkages : LinkageTable} {row : LinkageRow}
    (hrow : row ∈ linkages.rows) (hconfirmed : row.state = .confirmed) (linkageId : Uuid)
    (target : LinkageState) (decidedBy : String) (notes : Option String) (now : ℤ) :
    row ∈ (linkages.transitionLinkage linkageId target decidedBy notes now).1.rows := by
  have hget := linkages.get_transitionLinkage linkageId target decidedBy notes now row.id
  rw [Table.get_self hrow, Option.map_some, if_neg] at hget
  · exact (Table.get_eq_some.mp hget).1
  · rw [hconfirmed]
    exact fun h => List.not_mem_nil h.2

/-- **One decision.** The graph shows a decision rightly exactly when the linkage admits it. -/
theorem showDecision_law_iff (h : s.LinkageLaw) (target : LinkageState)
    (env : LinkageDecisionEnvelope) (now : ℤ) :
    (s.showDecision target env now).LinkageLaw ↔ Admits s.linkages target env := by
  have hiff : (s.showDecision target env now).LinksShown ↔ Admits s.linkages target env ∧
      ∀ e ∈ s.graph.edges, e.key ≠ (.linkedTo, env.actorAId, env.actorBId) →
        e.edgeType = .linkedTo →
          Shows
            (s.linkages.transitionLinkage env.linkageId target env.decidedBy env.notes now).1
            e := by
    rw [← exists_decided_iff s.linkages target env now]
    apply forall_mem_upsertEdge <;> rfl
  refine ⟨fun hlaw => (hiff.mp hlaw.1).1, fun hadmits => ⟨hiff.mpr ⟨hadmits, ?_⟩, ?_⟩⟩
  · intro e he hkey hlinked
    -- an edge of another pair is of another linkage
    apply shows_transition (h.1 e he hlinked)
    intro hid
    obtain ⟨row, hrow, hrowid, ha, hb, -⟩ := hadmits
    obtain ⟨row', hrow', hid', -, hsrc, hdst⟩ := h.1 e he hlinked
    have hrowid' : row'.id = env.linkageId :=
      (AttrValue.uuid.inj (Option.some.inj (hid.symm.trans hid'))).symm
    obtain rfl : row' = row := Table.eq_of_key hrow' hrow (hrowid'.trans hrowid.symm)
    apply hkey
    rw [GraphEdge.key, hlinked, ← hsrc, ← hdst, ha, hb]
  · intro env' henv' id hid
    obtain ⟨row, hrow, hrowid, hconfirmed⟩ := h.2 env' henv' id hid
    exact ⟨row, confirmed_transition hrow hconfirmed _ _ _ _ _, hrowid, hconfirmed⟩

/-- The persona of a confirmed linkage is made on account of it exactly when the linkage admits the
confirmation. -/
theorem handleConfirmed_law_iff (h : s.LinkageLaw) (env : LinkageDecisionEnvelope) (newId : Uuid)
    (now : ℤ) :
    (s.handleConfirmed env newId now).LinkageLaw ↔ Admits s.linkages .confirmed env := by
  have hshown := showDecision_law_iff h .confirmed env now
  rw [← hshown]
  unfold handleConfirmed
  dsimp only
  split
  · exact Iff.rfl
  · refine ⟨fun hlaw => ⟨(linksShown_syncPersona _ _ now).mp hlaw.1, fun env' henv' => ?_⟩,
      fun hlaw => ⟨(linksShown_syncPersona _ _ now).mpr hlaw.1, fun env' henv' id hid => ?_⟩⟩
    · exact hlaw.2 env' (List.mem_append_left _ henv')
    · obtain henv' | henv' := List.mem_append.mp henv'
      · exact hlaw.2 env' henv' id hid
      · -- the merge that was just published
        obtain rfl := List.mem_singleton.mp henv'
        obtain rfl := Option.some.inj hid
        obtain ⟨row, hrow, hrowid, -, -, hstate⟩ :=
          (exists_decided_iff s.linkages .confirmed env now).mpr (hshown.mp hlaw)
        exact ⟨row, hrow, hrowid, hstate⟩

/-- The events of personas leave the law as it is. -/
theorem syncAndEmitPersona_law_iff {personas : PersonaStore} (row : PersonaRow)
    (kind : PersonaChangeKind) (now : ℤ) :
    ({ s with personas }.syncAndEmitPersona row kind now).LinkageLaw ↔ s.LinkageLaw := by
  apply and_congr
  · apply linksShown_syncPersona
  · apply mergesConfirmed_append rfl

/-- **Step lemma.** From a state with the law an event leads to one with the law exactly when it
applies. -/
theorem linkageLaw_handle_iff (h : s.LinkageLaw) (event : GraphEvent) :
    (s.handle event).LinkageLaw ↔ s.Applies event := by
  cases event with
  | profileCurrent env now => exact iff_of_true h trivial
  | proposed env now => exact handleProposed_law_iff h env now
  | suspected env now => exact showDecision_law_iff h .suspected env now
  | confirmed env newId now => exact handleConfirmed_law_iff h env newId now
  | rejected env now => exact showDecision_law_iff h .rejected env now
  | personaUpdated env now =>
    exact iff_of_true ⟨(linksShown_syncPersona _ _ now).mpr h.1, h.2⟩ trivial
  | personaMerge personaId otherPersonaId newId now =>
    refine iff_of_true ?_ trivial
    simp only [handle, handlePersonaMerge]
    split
    · split
      · exact h
      · exact (syncAndEmitPersona_law_iff _ _ now).mpr h
    · exact h
  | personaSplit personaId actorId now =>
    refine iff_of_true ?_ trivial
    simp only [handle, handlePersonaSplit]
    split
    · exact h
    · exact (syncAndEmitPersona_law_iff _ _ now).mpr h

/-! ## Runs -/

/-- **Linkages in the graph.** From any linkages, in whatever states, and over every sequence of
events, the law holds throughout exactly when every event of a linkage applies to it. -/
theorem linkageLaw_iff_applies (linkages : LinkageTable) (events : List GraphEvent) :
    Throughout step LinkageLaw (init linkages) events ↔
      Along step Applies (init linkages) events := by
  obtain ⟨s', hrun⟩ := exists_run (init linkages) events
  have hinit : (init linkages).LinkageLaw :=
    ⟨fun e he => absurd he (Table.not_mem_empty e), fun env henv => absurd henv List.not_mem_nil⟩
  refine throughout_iff_along (I := LinkageLaw) (fun h => h) ?_ ?_ hinit hrun
  · intro s event s' h happlies hstep
    obtain rfl := Option.some.inj hstep
    exact (linkageLaw_handle_iff h event).mpr happlies
  · intro s event s' h hstep hlaw
    obtain rfl := Option.some.inj hstep
    exact (linkageLaw_handle_iff h event).mp hlaw

/-- The linkage is rejected before its confirmation is handled. -/
def rejectedLinkage : LinkageTable :=
  (proposedLinkage.transitionLinkage 100 .rejected "analyst" none 6).1

/-- A confirmation that comes after a rejection merges the actors and shows the linkage as
confirmed, while it stays rejected. -/
theorem late_confirmation_merges :
    ∃ s, run step (init rejectedLinkage) [.confirmed confirmation 50 7] = some s ∧
      ¬ s.LinksShown ∧ ¬ s.MergesConfirmed := by
  have hrun : ∃ s, run step (init rejectedLinkage) [.confirmed confirmation 50 7] = some s ∧
      (∃ e ∈ s.graph.edges, e.edgeType = .linkedTo ∧ ¬ Shows s.linkages e) ∧
      ∃ env ∈ s.published, env.viaLinkageId = some 100 ∧
        ¬ ∃ row ∈ s.linkages.rows, row.id = 100 ∧ row.state = .confirmed := by
    decide
  obtain ⟨s, hs, ⟨e, he, hlinked, hshows⟩, env, henv, hvia, hconfirmed⟩ := hrun
  exact ⟨s, hs, fun h => hshows (h e he hlinked), fun h => hconfirmed (h env henv 100 hvia)⟩

end GraphService

end Eyenet
