import Eyenet.Linker
import Eyenet.Persona

/-!
# The graph service

The graph holds actors and personas as nodes, linkages and memberships as edges
(`models/graph.py`). Nodes and edges are written by upserts alone. The graph service
(`graph/graph.py`) handles the events of profiles, linkages and personas: it applies decisions to
the linkages, merges and splits personas, and repeats both in the graph.

* `Graph.hasNode_upsertNode`, `Graph.hasEdge_upsertEdge` — what an upsert adds.
* `Graph.hasNode_syncPersona`, `Graph.hasEdge_syncPersona` — what a persona and its members add.
* `GraphService.handle` — the effect of one event.
-/

namespace Eyenet

/-! ## Nodes and edges -/

/-- `GraphNodeType` -/
inductive GraphNodeType where
  | actor
  | persona
  | group
  deriving DecidableEq, Repr

/-- `GraphEdgeType` -/
inductive GraphEdgeType where
  | linkedTo
  | belongsToPersona
  | memberOf
  deriving DecidableEq, Repr

/-- A row of `graph_node`. -/
structure GraphNode where
  nodeId : Uuid
  nodeType : GraphNodeType
  attrs : Attrs
  updatedAt : ℤ

/-- What an upsert looks a node up by. -/
def GraphNode.key (n : GraphNode) : GraphNodeType × Uuid := (n.nodeType, n.nodeId)

/-- A row of `graph_edge`. -/
structure GraphEdge where
  edgeType : GraphEdgeType
  srcId : Uuid
  dstId : Uuid
  attrs : Attrs
  updatedAt : ℤ

/-- What an upsert looks an edge up by. -/
def GraphEdge.key (e : GraphEdge) : GraphEdgeType × Uuid × Uuid := (e.edgeType, e.srcId, e.dstId)

/-- The stored graph. -/
structure Graph where
  nodes : Table GraphNode.key
  edges : Table GraphEdge.key

namespace Graph

/-- The empty graph. -/
def empty : Graph := ⟨.empty, .empty⟩

/-- The attributes of a row that is there, or not yet, after an upsert. -/
def upsertedAttrs (existing : Option Attrs) (attrs : Attrs) : Attrs :=
  match existing with
  | none => attrs
  | some existing => existing.merge attrs

/-- `upsert_graph_node` -/
def upsertNode (g : Graph) (nodeType : GraphNodeType) (nodeId : Uuid) (attrs : Attrs) (now : ℤ) :
    Graph :=
  let existing := (g.nodes.get (nodeType, nodeId)).map GraphNode.attrs
  { g with nodes := g.nodes.save ⟨nodeId, nodeType, upsertedAttrs existing attrs, now⟩ }

/-- `upsert_graph_edge` -/
def upsertEdge (g : Graph) (edgeType : GraphEdgeType) (srcId dstId : Uuid) (attrs : Attrs)
    (now : ℤ) : Graph :=
  let existing := (g.edges.get (edgeType, srcId, dstId)).map GraphEdge.attrs
  { g with edges := g.edges.save ⟨edgeType, srcId, dstId, upsertedAttrs existing attrs, now⟩ }

/-- The edges of the members of a persona. -/
def linkMembers (g : Graph) (personaId : Uuid) (memberActorIds : List Uuid) (now : ℤ) : Graph :=
  memberActorIds.foldl
    (fun g actorId => g.upsertEdge .belongsToPersona actorId personaId
      (.ofList [("joined_at", .instant now)]) now) g

/-- The node of a persona and the edges of its members. -/
def syncPersona (g : Graph) (personaId : Uuid) (memberActorIds : List Uuid) (now : ℤ) : Graph :=
  (g.upsertNode .persona personaId
    (.ofList [("member_count", .number memberActorIds.length), ("updated_at", .instant now)])
      now).linkMembers personaId memberActorIds now

/-- There is a node for it. -/
def HasNode (g : Graph) (nodeType : GraphNodeType) (nodeId : Uuid) : Prop :=
  ∃ n ∈ g.nodes, n.nodeType = nodeType ∧ n.nodeId = nodeId

/-- There is an edge between the two. -/
def HasEdge (g : Graph) (edgeType : GraphEdgeType) (srcId dstId : Uuid) : Prop :=
  ∃ e ∈ g.edges, e.edgeType = edgeType ∧ e.srcId = srcId ∧ e.dstId = dstId

variable {g : Graph} {nodeType nodeType' : GraphNodeType} {edgeType edgeType' : GraphEdgeType}
  {i i' x x' y y' : Uuid} {attrs : Attrs} {now : ℤ}

/-- An upsert sets every attribute that it is given. -/
theorem upsertedAttrs_of_some {existing : Option Attrs} {key : String} {value : AttrValue}
    (h : attrs key = some value) : upsertedAttrs existing attrs key = some value := by
  cases existing with
  | none => exact h
  | some existing => exact Attrs.merge_of_isSome h

theorem mem_upsertEdge {e : GraphEdge} : e ∈ (g.upsertEdge edgeType x y attrs now).edges ↔
    e = ⟨edgeType, x, y, upsertedAttrs ((g.edges.get (edgeType, x, y)).map GraphEdge.attrs) attrs,
      now⟩ ∨ (e ∈ g.edges ∧ e.key ≠ (edgeType, x, y)) := Table.mem_save

@[simp] theorem edges_upsertNode : (g.upsertNode nodeType i attrs now).edges = g.edges := rfl

@[simp] theorem nodes_upsertEdge : (g.upsertEdge edgeType x y attrs now).nodes = g.nodes := rfl

theorem hasNode_upsertNode : (g.upsertNode nodeType i attrs now).HasNode nodeType' i' ↔
    (nodeType' = nodeType ∧ i' = i) ∨ g.HasNode nodeType' i' := by
  refine ⟨?_, ?_⟩
  · rintro ⟨n, hn, rfl, rfl⟩
    obtain rfl | ⟨hn, -⟩ := Table.mem_save.mp hn
    · exact Or.inl ⟨rfl, rfl⟩
    · exact Or.inr ⟨n, hn, rfl, rfl⟩
  · intro h
    by_cases hkey : (nodeType', i') = (nodeType, i)
    · obtain ⟨rfl, rfl⟩ := Prod.mk.inj hkey
      exact ⟨_, Table.mem_save.mpr (Or.inl rfl), rfl, rfl⟩
    · obtain ⟨rfl, rfl⟩ | ⟨n, hn, rfl, rfl⟩ := h
      · exact absurd rfl hkey
      · exact ⟨n, Table.mem_save.mpr (Or.inr ⟨hn, hkey⟩), rfl, rfl⟩

theorem hasEdge_upsertEdge : (g.upsertEdge edgeType x y attrs now).HasEdge edgeType' x' y' ↔
    (edgeType' = edgeType ∧ x' = x ∧ y' = y) ∨ g.HasEdge edgeType' x' y' := by
  refine ⟨?_, ?_⟩
  · rintro ⟨e, he, rfl, rfl, rfl⟩
    obtain rfl | ⟨he, -⟩ := mem_upsertEdge.mp he
    · exact Or.inl ⟨rfl, rfl, rfl⟩
    · exact Or.inr ⟨e, he, rfl, rfl, rfl⟩
  · intro h
    by_cases hkey : (edgeType', x', y') = (edgeType, x, y)
    · obtain ⟨rfl, hends⟩ := Prod.mk.inj hkey
      obtain ⟨rfl, rfl⟩ := Prod.mk.inj hends
      exact ⟨_, mem_upsertEdge.mpr (Or.inl rfl), rfl, rfl, rfl⟩
    · obtain ⟨rfl, rfl, rfl⟩ | ⟨e, he, rfl, rfl, rfl⟩ := h
      · exact absurd rfl hkey
      · exact ⟨e, mem_upsertEdge.mpr (Or.inr ⟨he, hkey⟩), rfl, rfl, rfl⟩

@[simp] theorem hasEdge_upsertNode :
    (g.upsertNode nodeType i attrs now).HasEdge edgeType x y ↔ g.HasEdge edgeType x y := Iff.rfl

@[simp] theorem hasNode_upsertEdge :
    (g.upsertEdge edgeType x y attrs now).HasNode nodeType i ↔ g.HasNode nodeType i := Iff.rfl

/-! ### Members of a persona -/

variable {personaId : Uuid} {members : List Uuid}

theorem hasEdge_linkMembers : (g.linkMembers personaId members now).HasEdge edgeType x y ↔
    (edgeType = .belongsToPersona ∧ x ∈ members ∧ y = personaId) ∨ g.HasEdge edgeType x y := by
  induction members generalizing g with
  | nil =>
    simp only [List.not_mem_nil, false_and, and_false, false_or]
    exact Iff.rfl
  | cons m ms ih =>
    have hcons : g.linkMembers personaId (m :: ms) now =
        (g.upsertEdge .belongsToPersona m personaId (.ofList [("joined_at", .instant now)])
          now).linkMembers personaId ms now := rfl
    rw [hcons, ih, hasEdge_upsertEdge, List.mem_cons]
    tauto

theorem nodes_linkMembers : (g.linkMembers personaId members now).nodes = g.nodes := by
  induction members generalizing g with
  | nil => rfl
  | cons m ms ih => exact ih.trans nodes_upsertEdge

/-- The edges of other types stay. -/
theorem mem_linkMembers {e : GraphEdge} (he : e.edgeType ≠ .belongsToPersona) :
    e ∈ (g.linkMembers personaId members now).edges ↔ e ∈ g.edges := by
  induction members generalizing g with
  | nil => exact Iff.rfl
  | cons m ms ih =>
    refine ih.trans (mem_upsertEdge.trans ⟨fun h => ?_, fun h => Or.inr ⟨h, fun hkey => ?_⟩⟩)
    · obtain rfl | ⟨h, -⟩ := h
      · exact absurd rfl he
      · exact h
    · exact he (Prod.mk.inj hkey).1

theorem hasNode_syncPersona : (g.syncPersona personaId members now).HasNode nodeType i ↔
    (nodeType = .persona ∧ i = personaId) ∨ g.HasNode nodeType i := by
  rw [syncPersona, HasNode, nodes_linkMembers]
  exact hasNode_upsertNode

theorem hasEdge_syncPersona : (g.syncPersona personaId members now).HasEdge edgeType x y ↔
    (edgeType = .belongsToPersona ∧ x ∈ members ∧ y = personaId) ∨ g.HasEdge edgeType x y := by
  rw [syncPersona, hasEdge_linkMembers, hasEdge_upsertNode]

theorem mem_syncPersona {e : GraphEdge} (he : e.edgeType ≠ .belongsToPersona) :
    e ∈ (g.syncPersona personaId members now).edges ↔ e ∈ g.edges := by
  rw [syncPersona, mem_linkMembers he, edges_upsertNode]

end Graph

/-! ## Events -/

/-- `LinkageSuspectedEnvelope`, `LinkageConfirmedEnvelope` and `LinkageRejectedEnvelope` -/
structure LinkageDecisionEnvelope where
  linkageId : Uuid
  actorAId : Uuid
  actorBId : Uuid
  decidedBy : String
  notes : Option String
  /-- `_enforce_pair_order` -/
  ordered : actorAId < actorBId

/-- `PersonaChangeKind` -/
inductive PersonaChangeKind where
  | created
  | membersAdded
  | membersRemoved
  | mergedWith
  | splitFrom
  deriving DecidableEq, Repr

/-- `PersonaUpdatedEnvelope` -/
structure PersonaUpdatedEnvelope where
  personaId : Uuid
  memberActorIds : List Uuid
  changeKind : PersonaChangeKind
  viaLinkageId : Option Uuid
  atTime : ℤ
  deriving DecidableEq

/-- One event that the service handles; `now` is its clock, and `newId` the id that a new persona
would get. -/
inductive GraphEvent where
  | profileCurrent (envelope : ProfileCurrentEnvelope) (now : ℤ)
  | proposed (envelope : LinkageProposedEnvelope) (now : ℤ)
  | suspected (envelope : LinkageDecisionEnvelope) (now : ℤ)
  | confirmed (envelope : LinkageDecisionEnvelope) (newId : Uuid) (now : ℤ)
  | rejected (envelope : LinkageDecisionEnvelope) (now : ℤ)
  | personaUpdated (envelope : PersonaUpdatedEnvelope) (now : ℤ)
  | personaMerge (personaId otherPersonaId newId : Uuid) (now : ℤ)
  | personaSplit (personaId actorId : Uuid) (now : ℤ)

/-- The stores that the service works on, and what it has published. -/
structure GraphService where
  linkages : LinkageTable
  personas : PersonaStore
  graph : Graph
  published : List PersonaUpdatedEnvelope

namespace GraphService

/-- Linkages, and no graph yet. -/
def init (linkages : LinkageTable) : GraphService := ⟨linkages, .init, .empty, []⟩

/-- `_on_profile_current_inner` -/
def onProfileCurrent (s : GraphService) (envelope : ProfileCurrentEnvelope) (now : ℤ) :
    GraphService :=
  let roleSignal := match envelope.roleSignal with
    | none => .null
    | some roleSignal => .text roleSignal
  { s with
    graph := s.graph.upsertNode .actor envelope.actorId
      (.ofList [("role_signal", roleSignal), ("role_confidence", .number envelope.roleConfidence),
        ("derived_at", .instant envelope.derivedAt), ("profile_version", .number envelope.version)])
      now }

/-- `_handle_proposed` -/
def handleProposed (s : GraphService) (envelope : LinkageProposedEnvelope) (now : ℤ) :
    GraphService :=
  let graph := s.graph.upsertNode .actor envelope.actorAId (.ofList []) now
  let graph := graph.upsertNode .actor envelope.actorBId (.ofList []) now
  -- the linkage may be decided by now
  { s with
    graph := graph.upsertEdge .linkedTo envelope.actorAId envelope.actorBId
      (.ofList [("state", .text "proposed"), ("method", .text envelope.method),
        ("score", .number envelope.score.1), ("linkage_id", .uuid envelope.linkageId),
        ("updated_at", .instant now)]) now }

/-- `_apply_linkage_state`; what `transition_linkage` raises is logged. -/
def applyLinkageState (s : GraphService) (linkageId : Uuid) (target : LinkageState)
    (decidedBy : String) (notes : Option String) (now : ℤ) : GraphService :=
  { s with linkages := (s.linkages.transitionLinkage linkageId target decidedBy notes now).1 }

/-- The decision is applied to the linkage, and shown on the edge. -/
def showDecision (s : GraphService) (target : LinkageState) (envelope : LinkageDecisionEnvelope)
    (now : ℤ) : GraphService :=
  let s := s.applyLinkageState envelope.linkageId target envelope.decidedBy envelope.notes now
  -- the edge is written whether or not the linkage took the decision
  { s with
    graph := s.graph.upsertEdge .linkedTo envelope.actorAId envelope.actorBId
      (.ofList [("state", .text target.value), ("decided_by", .text envelope.decidedBy),
        ("linkage_id", .uuid envelope.linkageId), ("updated_at", .instant now)]) now }

/-- `_handle_suspected` -/
def handleSuspected (s : GraphService) (envelope : LinkageDecisionEnvelope) (now : ℤ) :
    GraphService :=
  s.showDecision .suspected envelope now

/-- `_handle_confirmed`; the rest is lost when the merge raises. -/
def handleConfirmed (s : GraphService) (envelope : LinkageDecisionEnvelope) (newId : Uuid)
    (now : ℤ) : GraphService :=
  let s := s.showDecision .confirmed envelope now
  let merged := s.personas.mergeActorsIntoPersona newId envelope.actorAId envelope.actorBId
    (some envelope.linkageId) now
  match merged.2 with
  | .error _ => { s with personas := merged.1 }
  | .ok personaRow =>
    let changeKind := if personaRow.memberActorIds.length > 2 then .membersAdded else .created
    { s with
      personas := merged.1
      graph := s.graph.syncPersona personaRow.id personaRow.memberActorIds now
      published := s.published ++
        [⟨personaRow.id, personaRow.memberActorIds, changeKind, some envelope.linkageId, now⟩] }

/-- `_handle_rejected` -/
def handleRejected (s : GraphService) (envelope : LinkageDecisionEnvelope) (now : ℤ) :
    GraphService :=
  s.showDecision .rejected envelope now

/-- `_on_persona_updated_inner` -/
def onPersonaUpdated (s : GraphService) (envelope : PersonaUpdatedEnvelope) (now : ℤ) :
    GraphService :=
  { s with graph := s.graph.syncPersona envelope.personaId envelope.memberActorIds now }

/-- `_sync_and_emit_persona` -/
def syncAndEmitPersona (s : GraphService) (personaRow : PersonaRow) (changeKind : PersonaChangeKind)
    (now : ℤ) : GraphService :=
  { s with
    graph := s.graph.syncPersona personaRow.id personaRow.memberActorIds now
    published := s.published ++
      [⟨personaRow.id, personaRow.memberActorIds, changeKind, none, now⟩] }

/-- `_handle_persona_merge` -/
def handlePersonaMerge (s : GraphService) (personaId otherPersonaId newId : Uuid) (now : ℤ) :
    GraphService :=
  match s.personas.personaMembers personaId, s.personas.personaMembers otherPersonaId with
  | a :: _, b :: _ =>
    let merged := s.personas.mergeActorsIntoPersona newId a b none now
    match merged.2 with
    | .error _ => { s with personas := merged.1 }
    | .ok personaRow =>
      { s with personas := merged.1 }.syncAndEmitPersona personaRow .mergedWith now
  | _, _ => s

/-- `_handle_persona_split`; the persona of the command is not looked at. -/
def handlePersonaSplit (s : GraphService) (actorId : Uuid) (now : ℤ) : GraphService :=
  let split := s.personas.splitActorFromPersona actorId now
  match split.2 with
  | none => { s with personas := split.1 }
  | some remaining =>
    { s with personas := split.1 }.syncAndEmitPersona remaining .membersRemoved now

/-- The effect of one event. -/
def handle (s : GraphService) : GraphEvent → GraphService
  | .profileCurrent envelope now => s.onProfileCurrent envelope now
  | .proposed envelope now => s.handleProposed envelope now
  | .suspected envelope now => s.handleSuspected envelope now
  | .confirmed envelope newId now => s.handleConfirmed envelope newId now
  | .rejected envelope now => s.handleRejected envelope now
  | .personaUpdated envelope now => s.onPersonaUpdated envelope now
  | .personaMerge personaId otherPersonaId newId now =>
    s.handlePersonaMerge personaId otherPersonaId newId now
  | .personaSplit _ actorId now => s.handlePersonaSplit actorId now

/-- Every event is handled. -/
def step (s : GraphService) (event : GraphEvent) : Option GraphService := some (s.handle event)

theorem exists_run (s : GraphService) (events : List GraphEvent) :
    ∃ s', Machine.run step s events = some s' := by
  have htotal (s : GraphService) (event : GraphEvent) : ∃ s', s.step event = some s' :=
    ⟨s.handle event, rfl⟩
  exact Machine.exists_run htotal s events

/-- A linkage of two actors. -/
def proposedLinkage : LinkageTable :=
  (LinkageTable.empty.insertProposedLinkage 1 2 "shared_infra" ⟨1, by simp⟩ (.ofList []) 100 5).1

/-- The operator's confirmation of it. -/
def confirmation : LinkageDecisionEnvelope where
  linkageId := 100
  actorAId := 1
  actorBId := 2
  decidedBy := "operator"
  notes := none
  ordered := by decide

end GraphService

end Eyenet
