import Eyenet.Graph
import Eyenet.Machine

/-!
# Personas in the graph

The nodes and edges of personas are a second copy of the personas and their memberships. The graph
service only adds to it: after a merge it writes the persona that is kept, after a split the one
that remains, and it writes whatever an event about a persona says. What the absorbed persona or the
removed member had before stays.

* `GraphService.Mirrors` — the two copies agree.
* `GraphService.mirrors_merged_iff` — what a merge does to the agreement.
* `GraphService.mirrors_iff_undisturbed` — exactly when the copies agree after every event.
-/

namespace Eyenet

open Machine

namespace GraphService

/-! ## The two copies -/

/-- The edges of members are the memberships, and the nodes of personas are the personas. -/
def Mirrors (g : Graph) (store : PersonaStore) : Prop :=
  (∀ e ∈ g.edges, e.edgeType = .belongsToPersona →
    ∃ m ∈ store.memberships, m.actorId = e.srcId ∧ m.personaId = e.dstId) ∧
  (∀ m ∈ store.memberships, ∃ e ∈ g.edges,
    e.edgeType = .belongsToPersona ∧ e.srcId = m.actorId ∧ e.dstId = m.personaId) ∧
  (∀ n ∈ g.nodes, n.nodeType = .persona → ∃ p ∈ store.personas, p.id = n.nodeId) ∧
  (∀ p ∈ store.personas, ∃ n ∈ g.nodes, n.nodeType = .persona ∧ n.nodeId = p.id)

instance (g : Graph) (store : PersonaStore) : Decidable (Mirrors g store) := by
  unfold Mirrors
  infer_instance

/-- The copies agree in a state. -/
def MembershipShown (s : GraphService) : Prop := Mirrors s.graph s.personas

instance (s : GraphService) : Decidable s.MembershipShown :=
  inferInstanceAs (Decidable (Mirrors s.graph s.personas))

/-- No persona is absorbed, no member is taken out of a persona, and what an event says of a persona
is so. -/
def Undisturbed (s : GraphService) : GraphEvent → Prop
  | .confirmed env _ _ => ∀ i j, s.personas.personaOf env.actorAId = some i →
      s.personas.personaOf env.actorBId = some j → i = j
  | .personaUpdated env _ => (∃ p ∈ s.personas.personas, p.id = env.personaId) ∧
      ∀ x ∈ env.memberActorIds, s.personas.personaOf x = some env.personaId
  | .personaMerge personaId otherPersonaId _ _ => personaId = otherPersonaId ∨
      s.personas.personaMembers personaId = [] ∨ s.personas.personaMembers otherPersonaId = []
  | .personaSplit _ actorId _ => s.personas.personaOf actorId = none
  | _ => True

variable {g g' : Graph} {store store' : PersonaStore} {s : GraphService}

theorem mirrors_iff : Mirrors g store ↔
    (∀ x i, g.HasEdge .belongsToPersona x i ↔ store.personaOf x = some i) ∧
      ∀ i, g.HasNode .persona i ↔ ∃ p ∈ store.personas, p.id = i := by
  refine ⟨fun h => ?_, fun h => ?_⟩
  · obtain ⟨hedges, hmembers, hnodes, hpersonas⟩ := h
    refine ⟨fun x i => ?_, fun i => ⟨?_, ?_⟩⟩
    · rw [PersonaStore.personaOf_eq_some]
      refine ⟨fun hedge => ?_, fun hmember => ?_⟩
      · obtain ⟨e, he, htype, rfl, rfl⟩ := hedge
        exact hedges e he htype
      · obtain ⟨m, hm, rfl, rfl⟩ := hmember
        exact hmembers m hm
    · rintro ⟨n, hn, htype, rfl⟩
      exact hnodes n hn htype
    · rintro ⟨p, hp, rfl⟩
      exact hpersonas p hp
  · obtain ⟨hedges, hnodes⟩ := h
    refine ⟨fun e he htype => ?_, fun m hm => ?_, fun n hn htype => ?_, fun p hp => ?_⟩
    · exact PersonaStore.personaOf_eq_some.mp ((hedges e.srcId e.dstId).mp ⟨e, he, htype, rfl, rfl⟩)
    · exact (hedges m.actorId m.personaId).mpr
        (PersonaStore.personaOf_eq_some.mpr ⟨m, hm, rfl, rfl⟩)
    · exact (hnodes n.nodeId).mp ⟨n, hn, htype, rfl⟩
    · exact (hnodes p.id).mpr ⟨p, hp, rfl⟩

/-! ## Steps -/

/-- The agreement looks at the edges of members and the nodes of personas alone. -/
theorem mirrors_congr
    (hedges : ∀ x i, g'.HasEdge .belongsToPersona x i ↔ g.HasEdge .belongsToPersona x i)
    (hnodes : ∀ i, g'.HasNode .persona i ↔ g.HasNode .persona i) :
    Mirrors g' store ↔ Mirrors g store := by
  rw [mirrors_iff, mirrors_iff]
  simp only [hedges, hnodes]

variable {x y : Uuid} {attrs : Attrs} {now : ℤ}

theorem mirrors_upsertActor :
    Mirrors (g.upsertNode .actor x attrs now) store ↔ Mirrors g store := by
  apply mirrors_congr
  · exact fun _ _ => Iff.rfl
  · intro i
    refine Graph.hasNode_upsertNode.trans (or_iff_right ?_)
    rintro ⟨htype, -⟩
    cases htype

theorem mirrors_upsertLink :
    Mirrors (g.upsertEdge .linkedTo x y attrs now) store ↔ Mirrors g store := by
  apply mirrors_congr
  · intro x' i
    refine Graph.hasEdge_upsertEdge.trans (or_iff_right ?_)
    rintro ⟨htype, -⟩
    cases htype
  · exact fun _ => Iff.rfl

/-- What a persona is written with has to be so already. -/
theorem mirrors_syncPersona_iff (h : Mirrors g store) (personaId : Uuid) (members : List Uuid)
    (now : ℤ) : Mirrors (g.syncPersona personaId members now) store ↔
      (∃ p ∈ store.personas, p.id = personaId) ∧
        ∀ x ∈ members, store.personaOf x = some personaId := by
  obtain ⟨hedges, hnodes⟩ := mirrors_iff.mp h
  simp only [mirrors_iff, Graph.hasEdge_syncPersona, Graph.hasNode_syncPersona, true_and, hedges,
    hnodes]
  refine ⟨fun hsync => ⟨?_, fun x hx => ?_⟩, fun hso => ⟨fun x i => ?_, fun i => ?_⟩⟩
  · exact (hsync.2 personaId).mp (Or.inl rfl)
  · exact (hsync.1 x personaId).mp (Or.inl ⟨hx, rfl⟩)
  · refine or_iff_right_of_imp ?_
    rintro ⟨hx, rfl⟩
    exact hso.2 x hx
  · refine or_iff_right_of_imp ?_
    rintro rfl
    exact hso.1

/-- **One merge.** The persona that a merge returns is all that has to be written exactly when no
other persona was absorbed by it. -/
theorem mirrors_merged_iff (h : Mirrors g store) (hsound : store.Sound) {row : PersonaRow}
    {a b : Uuid} (hmerged : PersonaStore.Merged store store' row a b) (now : ℤ) :
    Mirrors (g.syncPersona row.id row.memberActorIds now) store' ↔
      ∀ i j, store.personaOf a = some i → store.personaOf b = some j → i = j := by
  obtain ⟨hedges, hnodes⟩ := mirrors_iff.mp h
  -- both actors and their personas are under the id of the persona that is returned
  obtain ⟨k, hjoined, hother⟩ := hmerged.merges
  have hk : row.id = k :=
    Option.some.inj (hmerged.placed.symm.trans (hjoined a (Or.inl rfl)))
  subst hk
  have hmembers (x : Uuid) : x ∈ row.memberActorIds ↔ store'.personaOf x = some row.id :=
    hmerged.sound.members row hmerged.stored x
  simp only [mirrors_iff, Graph.hasEdge_syncPersona, Graph.hasNode_syncPersona, true_and, hedges,
    hnodes, hmembers]
  refine ⟨fun hsync i j hi hj => ?_, fun hsame => ⟨fun x i => ?_, fun i => ?_⟩⟩
  · -- both personas are still shown with their actors
    have hai := (hsync.1 a i).mp (Or.inr hi)
    have hbj := (hsync.1 b j).mp (Or.inr hj)
    rw [hjoined a (Or.inl rfl)] at hai
    rw [hjoined b (Or.inr (Or.inl rfl))] at hbj
    exact Option.some.inj (hai.symm.trans hbj)
  · refine ⟨fun hshown => ?_, fun hx => ?_⟩
    · obtain ⟨hx, rfl⟩ | hx := hshown
      · exact hx
      · exact hmerged.personaOf_of_same hsame hx
    · by_cases hin : Classes.Joined store.personaOf a b x
      · obtain rfl := Option.some.inj ((hjoined x hin).symm.trans hx)
        exact Or.inl ⟨hx, rfl⟩
      · exact Or.inr ((hother x hin).1.symm.trans hx)
  · rw [hsound.exists_row_iff, hmerged.sound.exists_row_iff]
    refine ⟨fun hshown => ?_, fun hx => ?_⟩
    · obtain rfl | ⟨x, hx⟩ := hshown
      · exact ⟨a, hmerged.placed⟩
      · exact ⟨x, hmerged.personaOf_of_same hsame hx⟩
    · obtain ⟨x, hx⟩ := hx
      by_cases hin : Classes.Joined store.personaOf a b x
      · exact Or.inl (Option.some.inj ((hjoined x hin).symm.trans hx)).symm
      · exact Or.inr ⟨x, (hother x hin).1.symm.trans hx⟩

theorem handleConfirmed_mirrors_iff (hsound : s.personas.Sound) (h : s.MembershipShown)
    (env : LinkageDecisionEnvelope) (newId : Uuid) (now : ℤ) :
    (s.handleConfirmed env newId now).personas.Sound ∧
      ((s.handleConfirmed env newId now).MembershipShown ↔
        s.Undisturbed (.confirmed env newId now)) := by
  have hshown : Mirrors (s.showDecision .confirmed env now).graph s.personas :=
    mirrors_upsertLink.mpr h
  have hpersonas : (s.showDecision .confirmed env now).personas = s.personas := rfl
  simp only [handleConfirmed, hpersonas]
  obtain ⟨-, ⟨ha, -⟩, ⟨e, herror⟩, hstore⟩ | ⟨row, hok, hmerged⟩ :=
    PersonaStore.merge_spec hsound newId env.actorAId env.actorBId (some env.linkageId) now
  · -- a merge that raises is of two actors without a persona
    simp only [herror, hstore]
    refine ⟨hsound, iff_of_true hshown fun i j hi _ => ?_⟩
    rw [ha] at hi
    cases hi
  · simp only [hok]
    exact ⟨hmerged.sound, mirrors_merged_iff hshown hsound hmerged now⟩

theorem handlePersonaMerge_mirrors_iff (hsound : s.personas.Sound) (h : s.MembershipShown)
    (personaId otherPersonaId newId : Uuid) (now : ℤ) :
    (s.handlePersonaMerge personaId otherPersonaId newId now).personas.Sound ∧
      ((s.handlePersonaMerge personaId otherPersonaId newId now).MembershipShown ↔
        s.Undisturbed (.personaMerge personaId otherPersonaId newId now)) := by
  rw [handlePersonaMerge, Undisturbed]
  cases hfirst : s.personas.personaMembers personaId with
  | nil => exact ⟨hsound, iff_of_true h (Or.inr (Or.inl rfl))⟩
  | cons a as =>
    cases hsecond : s.personas.personaMembers otherPersonaId with
    | nil => exact ⟨hsound, iff_of_true h (Or.inr (Or.inr rfl))⟩
    | cons b bs =>
      have ha : s.personas.personaOf a = some personaId :=
        PersonaStore.mem_personaMembers.mp (hfirst ▸ List.mem_cons_self)
      have hb : s.personas.personaOf b = some otherPersonaId :=
        PersonaStore.mem_personaMembers.mp (hsecond ▸ List.mem_cons_self)
      obtain ⟨-, ⟨hnone, -⟩, -⟩ | ⟨row, hok, hmerged⟩ :=
        PersonaStore.merge_spec hsound newId a b none now
      · rw [ha] at hnone
        cases hnone
      · simp only [hok]
        refine ⟨hmerged.sound, (mirrors_merged_iff h hsound hmerged now).trans ?_⟩
        rw [ha, hb]
        refine ⟨fun hsame => Or.inl (hsame _ _ rfl rfl), fun hsame i j hi hj => ?_⟩
        obtain rfl | hnil | hnil := hsame
        · exact Option.some.inj (hi.symm.trans hj)
        · cases hnil
        · cases hnil

/-- The edge of a removed member is not taken away. -/
theorem handlePersonaSplit_mirrors_iff (hsound : s.personas.Sound) (h : s.MembershipShown)
    (personaId actorId : Uuid) (now : ℤ) :
    (s.handlePersonaSplit actorId now).personas.Sound ∧
      ((s.handlePersonaSplit actorId now).MembershipShown ↔
        s.Undisturbed (.personaSplit personaId actorId now)) := by
  obtain ⟨hsplit, hof⟩ := PersonaStore.split_spec hsound actorId now
  obtain ⟨hedges, -⟩ := mirrors_iff.mp h
  have hpersonas : (s.handlePersonaSplit actorId now).personas =
      (s.personas.splitActorFromPersona actorId now).1 := by
    simp only [handlePersonaSplit]
    split <;> rfl
  have hgrows {x i : Uuid} (hedge : s.graph.HasEdge .belongsToPersona x i) :
      (s.handlePersonaSplit actorId now).graph.HasEdge .belongsToPersona x i := by
    simp only [handlePersonaSplit]
    split
    · exact hedge
    · exact Graph.hasEdge_syncPersona.mpr (Or.inr hedge)
  refine ⟨hpersonas ▸ hsplit, fun hshown => ?_, fun hnone => ?_⟩
  · cases hactor : s.personas.personaOf actorId with
    | none => exact hactor
    | some i =>
      -- the membership is gone, and the edge is not
      have hstill := ((mirrors_iff.mp hshown).1 actorId i).mp
        (hgrows ((hedges actorId i).mpr hactor))
      rw [hpersonas, hof, if_pos rfl] at hstill
      cases hstill
  · have hquiet : s.personas.splitActorFromPersona actorId now = (s.personas, none) := by
      rw [PersonaStore.splitActorFromPersona, Option.map_eq_none_iff.mp hnone]
    simp only [handlePersonaSplit, hquiet]
    exact h

/-- **Step lemma.** From copies that agree an event leads to copies that agree exactly when it
leaves the personas undisturbed. -/
theorem mirrors_handle_iff (hsound : s.personas.Sound) (h : s.MembershipShown)
    (event : GraphEvent) : (s.handle event).personas.Sound ∧
      ((s.handle event).MembershipShown ↔ s.Undisturbed event) := by
  cases event with
  | profileCurrent env now => exact ⟨hsound, iff_of_true (mirrors_upsertActor.mpr h) trivial⟩
  | proposed env now =>
    refine ⟨hsound, iff_of_true ?_ trivial⟩
    exact mirrors_upsertLink.mpr (mirrors_upsertActor.mpr (mirrors_upsertActor.mpr h))
  | suspected env now => exact ⟨hsound, iff_of_true (mirrors_upsertLink.mpr h) trivial⟩
  | confirmed env newId now => exact handleConfirmed_mirrors_iff hsound h env newId now
  | rejected env now => exact ⟨hsound, iff_of_true (mirrors_upsertLink.mpr h) trivial⟩
  | personaUpdated env now =>
    exact ⟨hsound, mirrors_syncPersona_iff h env.personaId env.memberActorIds now⟩
  | personaMerge personaId otherPersonaId newId now =>
    exact handlePersonaMerge_mirrors_iff hsound h personaId otherPersonaId newId now
  | personaSplit personaId actorId now =>
    exact handlePersonaSplit_mirrors_iff hsound h personaId actorId now

/-! ## Runs -/

/-- **Personas in the graph.** Over every sequence of events the copies agree throughout exactly
when every event leaves the personas undisturbed. -/
theorem mirrors_iff_undisturbed (linkages : LinkageTable) (events : List GraphEvent) :
    Throughout step MembershipShown (init linkages) events ↔
      Along step Undisturbed (init linkages) events := by
  obtain ⟨s', hrun⟩ := exists_run (init linkages) events
  have hinit : (init linkages).personas.Sound ∧ (init linkages).MembershipShown := by
    refine ⟨PersonaStore.sound_init, ?_, ?_, ?_, ?_⟩
    · exact fun e he => absurd he (Table.not_mem_empty e)
    · exact fun m hm => absurd hm (Table.not_mem_empty m)
    · exact fun n hn => absurd hn (Table.not_mem_empty n)
    · exact fun p hp => absurd hp (Table.not_mem_empty p)
  refine throughout_iff_along (I := fun s => s.personas.Sound ∧ s.MembershipShown) (fun h => h.2)
    ?_ ?_ hinit hrun
  · intro s event s' h hundisturbed hstep
    obtain rfl := Option.some.inj hstep
    obtain ⟨hsound, hiff⟩ := mirrors_handle_iff h.1 h.2 event
    exact ⟨hsound, hiff.mpr hundisturbed⟩
  · intro s event s' h hstep hshown
    obtain rfl := Option.some.inj hstep
    exact (mirrors_handle_iff h.1 h.2 event).2.mp hshown

/-- The edge of an actor who was taken out of a persona stays. -/
theorem split_leaves_edge :
    ∃ s, run step (init proposedLinkage) [.confirmed confirmation 50 7, .personaSplit 50 2 8] =
      some s ∧ ¬ s.MembershipShown := by
  decide

end GraphService

end Eyenet
