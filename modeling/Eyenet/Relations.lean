import Eyenet.ActorSeen
import Eyenet.ChannelReference
import Eyenet.Dict

/-!
# Relations between actors

`run_relation_builder` (`relations/mentions.py`) rebuilds the edges between actors: an author
mentions the actors whose handles are in a body, and who relays a message forwards its origin. The
handles and the user ids of all sources are in one index each, in which a later row replaces an
earlier one of the same key (`sqlmodel_repo/relations.py`).

* `RelationTables.lookup_handleToActorIndex` — whom a handle names.
* `RelationTables.buildRelations_eq` — the edges are the occurrences, gathered by their keys.
* `RelationTables.run_relation_builder` — which edges there are, with what counts, times and
  sources, in any order of the rows.
-/

namespace Eyenet

open Regex

/-- `RelationKind` -/
inductive RelationKind where
  | mention
  | forward
  deriving DecidableEq, Repr

/-- `ActorAliasKind` -/
inductive ActorAliasKind where
  | handle
  | displayName
  | username
  deriving DecidableEq, Repr

/-- `ActorAliasHistoryTable` -/
structure ActorAlias where
  actorId : Uuid
  kind : ActorAliasKind
  value : String
  deriving DecidableEq

/-- `RelationInputRow`; the relayer is the entry of `source_specific`, as text. -/
structure RelationInputRow where
  fromActor : Uuid
  body : String
  sentAt : ℤ
  sourceId : Uuid
  forwardOriginActor : Option Uuid
  relayedByPlatformUserid : Option String
  deriving DecidableEq

/-- What there is one edge of. -/
structure RelationKey where
  fromActor : Uuid
  toActor : Uuid
  kind : RelationKind
  deriving DecidableEq

/-- `RelationEdge` -/
structure RelationEdge extends RelationKey where
  sourceId : Uuid
  count : ℕ
  firstSeen : ℤ
  lastSeen : ℤ
  deriving DecidableEq

/-- A call of `_bump`. -/
structure Occurrence extends RelationKey where
  sourceId : Uuid
  sentAt : ℤ
  deriving DecidableEq

/-- What the builder reads: the actors, their alias history and the messages, in the order of the
rows. -/
structure RelationTables where
  actors : Table ActorRow.actorKey
  aliases : List ActorAlias
  messages : List RelationInputRow

namespace RelationTables

/-! ## The indices -/

section Builder

/- `str.lower` -/
variable (lower : String → String)

/-- `_norm` -/
def norm (handle : Option String) : Option String :=
  (nonempty handle).bind fun h =>
    nonempty (some (lower (String.ofList (h.toList.dropWhile fun c => c = '@'))))

/-- The handles and usernames of the alias history. -/
def pastNames (db : RelationTables) : List (String × Uuid) :=
  db.aliases.filterMap fun a =>
    if a.kind = .handle ∨ a.kind = .username then
      (norm lower (some a.value)).map fun key => (key, a.actorId)
    else none

/-- The handles that the actors have. -/
def currentNames (db : RelationTables) : List (String × Uuid) :=
  db.actors.rows.filterMap fun a => (norm lower a.currentHandle).map fun key => (key, a.id)

/-- `handle_to_actor_index` -/
def handleToActorIndex (db : RelationTables) : List (String × Uuid) :=
  Dict.ofPairs (db.pastNames lower ++ db.currentNames lower)

/-- The user ids of the actors. -/
def userids (db : RelationTables) : List (String × Uuid) :=
  db.actors.rows.map fun a => (a.platformUserid, a.id)

/-- `actor_id_by_platform_userid` -/
def actorIdByPlatformUserid (db : RelationTables) : List (String × Uuid) := Dict.ofPairs db.userids

/-! ## The builder -/

/-- `_HANDLE_RE` -/
def handleRe : Pattern :=
  .seq (.notBehind ChannelReference.isName) (.seq (.text (literal "@"))
    (.group (.seq (.text [Char.isAlpha]) (.many ChannelReference.isName 2 (some 31)))))

/-- `extract_handles`; the handles are a set. -/
def extractHandles (body : String) : List String :=
  ((handleRe.finditer ChannelReference.isName body.toList).map fun m =>
    lower (String.ofList m.stop.group)).dedup

/-- The calls of `_bump` for a message. -/
def occurrencesOf (handleToActor actorByUserid : List (String × Uuid)) (row : RelationInputRow) :
    List Occurrence :=
  ((extractHandles lower row.body).filterMap fun handle =>
    (handleToActor.lookup handle).map fun target =>
      ⟨⟨row.fromActor, target, .mention⟩, row.sourceId, row.sentAt⟩) ++
  match row.forwardOriginActor, nonempty row.relayedByPlatformUserid with
  | some origin, some userid =>
    ((actorByUserid.lookup userid).map fun relayer =>
      ⟨⟨relayer, origin, .forward⟩, row.sourceId, row.sentAt⟩).toList
  | _, _ => []

/-- The entry of a key after another call. -/
def addOccurrence (cur : Option RelationEdge) (o : Occurrence) : RelationEdge :=
  match cur with
  | none => ⟨o.toRelationKey, o.sourceId, 1, o.sentAt, o.sentAt⟩
  | some cur => { cur with
      count := cur.count + 1
      firstSeen := min cur.firstSeen o.sentAt
      lastSeen := max cur.lastSeen o.sentAt }

/-- `_bump` -/
def bump (acc : List (RelationKey × RelationEdge)) (o : Occurrence) :
    List (RelationKey × RelationEdge) :=
  if o.fromActor = o.toActor then acc
  else Dict.assign acc o.toRelationKey (addOccurrence (acc.lookup o.toRelationKey) o)

/-- The order of the edges: by falling count, and by the texts of the actors. -/
def edgeLe (e e' : RelationEdge) : Bool :=
  decide (e'.count < e.count ∨ e.count = e'.count ∧
    (uuidText e.fromActor < uuidText e'.fromActor ∨ uuidText e.fromActor = uuidText e'.fromActor ∧
      ¬ uuidText e'.toActor < uuidText e.toActor))

/-- `build_relations` -/
def buildRelations (rows : List RelationInputRow) (handleToActor actorByUserid :
    List (String × Uuid)) : List RelationEdge :=
  (((rows.flatMap (occurrencesOf lower handleToActor actorByUserid)).foldl bump []).map
    Prod.snd).mergeSort edgeLe

/-- `run_relation_builder`: the rows of the edge table, and the number that it returns. -/
def runRelationBuilder (db : RelationTables) : List RelationEdge × ℕ :=
  let edges := buildRelations lower db.messages (db.handleToActorIndex lower)
    db.actorIdByPlatformUserid
  (edges, edges.length)

/-! ## What the edges say -/

/-- The actor of the last pair of a key. -/
def lastOf (pairs : List (String × Uuid)) (key : String) : Option Uuid :=
  ((pairs.filter fun p => p.1 = key).getLast?).map Prod.snd

/-- The actor that a handle names: the last one that has it, or else the last one that had it. -/
def named (db : RelationTables) (handle : String) : Option Uuid :=
  (lastOf (db.currentNames lower) handle).or (lastOf (db.pastNames lower) handle)

/-- In how many ways the message relates the actors of the key: by how many distinct handles, or
whether by its relayer. -/
def ways (db : RelationTables) (key : RelationKey) (m : RelationInputRow) : ℕ :=
  match key.kind with
  | .mention =>
    if m.fromActor = key.fromActor then
      (extractHandles lower m.body).countP fun h => db.named lower h = some key.toActor
    else 0
  | .forward =>
    if m.forwardOriginActor = some key.toActor ∧
      (nonempty m.relayedByPlatformUserid).bind (lastOf db.userids) = some key.fromActor then 1
    else 0

/-- The messages that relate the actors of the key. -/
def relating (db : RelationTables) (key : RelationKey) : List RelationInputRow :=
  db.messages.filter fun m => 0 < db.ways lower key m

/-- The edge counts the ways in which the messages relate its actors, and has their first and last
time and the source of the first of them. -/
structure Sums (db : RelationTables) (e : RelationEdge) : Prop where
  count : e.count = (db.messages.map (db.ways lower e.toRelationKey)).sum
  firstSeen : ((db.relating lower e.toRelationKey).map RelationInputRow.sentAt).min? =
    some e.firstSeen
  lastSeen : ((db.relating lower e.toRelationKey).map RelationInputRow.sentAt).max? =
    some e.lastSeen
  sourceId : (db.relating lower e.toRelationKey).head?.map RelationInputRow.sourceId =
    some e.sourceId

/-- No key is of two actors. -/
def OneOwner (pairs : List (String × Uuid)) : Prop :=
  ∀ p ∈ pairs, ∀ q ∈ pairs, p.1 = q.1 → p.2 = q.2

/-- No two actors have, or had, one handle, or have one user id. -/
structure Unambiguous (db : RelationTables) : Prop where
  past : OneOwner (db.pastNames lower)
  current : OneOwner (db.currentNames lower)
  userids : OneOwner db.userids

/-- The tables with the messages in another order, and when no name is ambiguous the actors and
aliases too. -/
structure Reorders (db db' : RelationTables) : Prop where
  messages : db'.messages.Perm db.messages
  names : db'.actors = db.actors ∧ db'.aliases = db.aliases ∨
    db.Unambiguous lower ∧ db'.actors.rows.Perm db.actors.rows ∧ db'.aliases.Perm db.aliases

variable {lower} {db db' : RelationTables} {key : RelationKey} {e : RelationEdge}

/-! ## The names -/

/-- **Whom a handle names** in the index. -/
theorem lookup_handleToActorIndex (db : RelationTables) (handle : String) :
    (db.handleToActorIndex lower).lookup handle = db.named lower handle := by
  rw [handleToActorIndex, Dict.lookup_ofPairs, List.filter_append, List.getLast?_append,
    Option.map_or]
  rfl

theorem lookup_actorIdByPlatformUserid (db : RelationTables) (userid : String) :
    db.actorIdByPlatformUserid.lookup userid = lastOf db.userids userid :=
  Dict.lookup_ofPairs _ _

theorem lastOf_perm {pairs pairs' : List (String × Uuid)} (hperm : pairs'.Perm pairs)
    (howner : OneOwner pairs) : lastOf pairs' = lastOf pairs := by
  funext k
  have hfilter := hperm.filter fun p => p.1 = k
  rw [lastOf, lastOf]
  cases hlast : (pairs.filter fun p => p.1 = k).getLast? with
  | none =>
    rw [List.getLast?_eq_none_iff.mp hlast] at hfilter
    rw [hfilter.eq_nil]
    rfl
  | some p =>
    cases hlast' : (pairs'.filter fun p => p.1 = k).getLast? with
    | none =>
      rw [List.getLast?_eq_none_iff.mp hlast'] at hfilter
      rw [hfilter.symm.eq_nil] at hlast
      cases hlast
    | some p' =>
      obtain ⟨hp, hk⟩ := List.mem_filter.mp (List.mem_of_getLast? hlast)
      obtain ⟨hp', hk'⟩ := List.mem_filter.mp (List.mem_of_getLast? hlast')
      have hkey : p'.1 = p.1 := (of_decide_eq_true hk').trans (of_decide_eq_true hk).symm
      exact congrArg some (howner p' (hperm.mem_iff.mp hp') p hp hkey)

/-- Rows in another order give the names the same actors. -/
theorem Reorders.names_eq (h : Reorders lower db db') :
    db'.named lower = db.named lower ∧ lastOf db'.userids = lastOf db.userids := by
  rcases h.names with ⟨hactors, haliases⟩ | ⟨hone, hactors, haliases⟩
  · have hpast : db'.pastNames lower = db.pastNames lower := by rw [pastNames, haliases, pastNames]
    have hcurrent : db'.currentNames lower = db.currentNames lower := by
      rw [currentNames, hactors, currentNames]
    refine ⟨?_, by rw [userids, hactors, userids]⟩
    funext handle
    rw [named, hpast, hcurrent, named]
  · have hcurrent : lastOf (db'.currentNames lower) = lastOf (db.currentNames lower) :=
      lastOf_perm (hactors.filterMap _) hone.current
    have hpast : lastOf (db'.pastNames lower) = lastOf (db.pastNames lower) :=
      lastOf_perm (haliases.filterMap _) hone.past
    refine ⟨?_, lastOf_perm (hactors.map _) hone.userids⟩
    funext handle
    rw [named, hcurrent, hpast, named]

theorem Reorders.ways_eq (h : Reorders lower db db') (key : RelationKey) :
    db'.ways lower key = db.ways lower key := by
  funext m
  rw [ways, h.names_eq.1, h.names_eq.2, ways]

/-! ## The occurrences of a key -/

/-- The occurrences of a key in a message. -/
def keyed (lower : String → String) (db : RelationTables) (key : RelationKey)
    (m : RelationInputRow) : List Occurrence :=
  (occurrencesOf lower (db.handleToActorIndex lower) db.actorIdByPlatformUserid m).filter fun o =>
    o.toRelationKey = key

theorem length_keyed (db : RelationTables) (key : RelationKey) (m : RelationInputRow) :
    (keyed lower db key m).length = db.ways lower key m := by
  obtain ⟨a, b, kind⟩ := key
  rw [keyed, ← List.countP_eq_length_filter, occurrencesOf, List.countP_append,
    List.countP_filterMap]
  simp only [lookup_handleToActorIndex, lookup_actorIdByPlatformUserid]
  cases kind with
  | mention =>
    rw [ways, Nat.add_eq_left.mpr (List.countP_eq_zero.mpr fun o ho => ?_)]
    · dsimp only
      split_ifs with hfrom
      · refine List.countP_congr fun handle _ => ?_
        cases db.named lower handle <;> simp [hfrom]
      · refine List.countP_eq_zero.mpr fun handle _ => ?_
        cases db.named lower handle <;> simp [hfrom]
    · split at ho
      · obtain ⟨relayer, -, rfl⟩ := Option.map_eq_some_iff.mp (Option.mem_toList.mp ho)
        simp
      · cases ho
  | forward =>
    rw [ways, Nat.add_eq_right.mpr (List.countP_eq_zero.mpr fun handle _ => ?_)]
    · cases m.forwardOriginActor with
      | none => rfl
      | some origin =>
        cases nonempty m.relayedByPlatformUserid with
        | none => simp
        | some userid =>
          cases hrelayer : lastOf db.userids userid with
          | none => simp [hrelayer]
          | some relayer =>
            by_cases horigin : origin = b <;> by_cases ha : relayer = a <;>
              simp [hrelayer, horigin, ha]
    · cases db.named lower handle <;> simp

theorem of_mem_keyed {m : RelationInputRow} {o : Occurrence} (h : o ∈ keyed lower db key m) :
    o.toRelationKey = key ∧ o.sentAt = m.sentAt ∧ o.sourceId = m.sourceId := by
  obtain ⟨hmem, hkey⟩ := List.mem_filter.mp h
  refine ⟨of_decide_eq_true hkey, ?_⟩
  rcases List.mem_append.mp hmem with hmem | hmem
  · obtain ⟨handle, -, ho⟩ := List.mem_filterMap.mp hmem
    obtain ⟨target, -, rfl⟩ := Option.map_eq_some_iff.mp ho
    exact ⟨rfl, rfl⟩
  · split at hmem
    · obtain ⟨relayer, -, rfl⟩ := Option.map_eq_some_iff.mp (Option.mem_toList.mp hmem)
      exact ⟨rfl, rfl⟩
    · cases hmem

/-! ## The entries -/

theorem foldl_addOccurrence (o : Occurrence) (os : List Occurrence) :
    (o :: os).foldl (fun cur o => some (addOccurrence cur o)) none =
      some ⟨o.toRelationKey, o.sourceId, (o :: os).length,
        (os.map Occurrence.sentAt).foldl min o.sentAt,
        (os.map Occurrence.sentAt).foldl max o.sentAt⟩ := by
  induction os using List.reverseRec with
  | nil => rfl
  | append_singleton os o' ih =>
    rw [← List.cons_append, List.foldl_append, ih]
    simp [addOccurrence]

theorem foldl_bump (occs : List Occurrence) : occs.foldl bump [] =
    Dict.gather Occurrence.toRelationKey addOccurrence
      (occs.filter fun o => o.fromActor ≠ o.toActor) := by
  induction occs using List.reverseRec with
  | nil => rfl
  | append_singleton occs o ih =>
    rw [List.foldl_concat, ih, bump, List.filter_append, List.filter_singleton]
    split_ifs with hself
    · simp [hself]
    · simp [hself, Dict.gather_append_singleton]

/-- The entries, by key. -/
def entries (lower : String → String) (db : RelationTables) : List (RelationKey × RelationEdge) :=
  (db.messages.flatMap (occurrencesOf lower (db.handleToActorIndex lower)
    db.actorIdByPlatformUserid)).foldl bump []

/-- **The entry of a key** is made of its occurrences in all messages. -/
theorem lookup_entries (db : RelationTables) (key : RelationKey) :
    (entries lower db).lookup key =
      if key.fromActor = key.toActor then none
      else (db.messages.flatMap (keyed lower db key)).foldl
        (fun cur o => some (addOccurrence cur o)) none := by
  rw [entries, foldl_bump, Dict.lookup_gather, List.filter_filter]
  split_ifs with hself
  · rw [List.filter_eq_nil_iff.mpr fun o _ => ?_]
    · rfl
    · simp only [ne_eq, decide_not, Bool.and_eq_true, decide_eq_true_eq, Bool.not_eq_true',
        decide_eq_false_iff_not, not_and, not_not]
      rintro rfl
      exact hself
  · rw [List.filter_congr (q := fun o => o.toRelationKey = key) fun o _ => ?_, List.filter_flatMap]
    · rfl
    · by_cases hkey : o.toRelationKey = key
      · subst hkey
        simp [hself]
      · simp [hkey]

theorem ways_pos {m : RelationInputRow} :
    0 < db.ways lower key m ↔ ∃ o, o ∈ keyed lower db key m := by
  rw [← length_keyed, List.length_pos_iff_exists_mem]

/-- The first occurrence is one of the first message that relates the actors. -/
theorem head?_keyed (db : RelationTables) (key : RelationKey) (ms : List RelationInputRow) :
    (ms.flatMap (keyed lower db key)).head?.map Occurrence.sourceId =
      (ms.filter fun m => 0 < db.ways lower key m).head?.map RelationInputRow.sourceId := by
  induction ms with
  | nil => rfl
  | cons m ms ih =>
    rw [List.flatMap_cons, List.filter_cons]
    cases hkeyed : keyed lower db key m with
    | nil =>
      have hzero : ¬ 0 < db.ways lower key m := by rw [← length_keyed, hkeyed]; exact lt_irrefl 0
      rw [List.nil_append, if_neg (by simpa using hzero), ih]
    | cons o os =>
      have ho : o ∈ keyed lower db key m := hkeyed ▸ List.mem_cons_self
      rw [if_pos (decide_eq_true (ways_pos.mpr ⟨o, ho⟩))]
      exact congrArg some (of_mem_keyed ho).2.2

/-- An entry sums up the messages that relate its actors. -/
theorem lookup_entries_eq_some (h : (entries lower db).lookup key = some e) :
    e.toRelationKey = key ∧ key.fromActor ≠ key.toActor ∧ db.Sums lower e := by
  rw [lookup_entries] at h
  split_ifs at h with hself
  cases hoccs : db.messages.flatMap (keyed lower db key) with
  | nil => simp [hoccs] at h
  | cons o os =>
    rw [hoccs, foldl_addOccurrence] at h
    obtain rfl := Option.some.inj h
    have hmem : ∀ o', o' ∈ o :: os ↔ ∃ m ∈ db.messages, o' ∈ keyed lower db key m := fun o' => by
      rw [← hoccs, List.mem_flatMap]
    have hkey : o.toRelationKey = key := by
      obtain ⟨m, -, hkeyed⟩ := (hmem o).mp List.mem_cons_self
      exact (of_mem_keyed hkeyed).1
    have htimes : ∀ t, t ∈ (db.relating lower key).map RelationInputRow.sentAt ↔
        t ∈ (o :: os).map Occurrence.sentAt := by
      intro t
      simp only [List.mem_map, relating, List.mem_filter, decide_eq_true_eq, ways_pos, hmem]
      constructor
      · rintro ⟨m, ⟨hm, o', ho'⟩, rfl⟩
        exact ⟨o', ⟨m, hm, ho'⟩, (of_mem_keyed ho').2.1⟩
      · rintro ⟨o', ⟨m, hm, ho'⟩, rfl⟩
        exact ⟨m, ⟨hm, o', ho'⟩, (of_mem_keyed ho').2.1.symm⟩
    refine ⟨hkey, hself, ?_, ?_, ?_, ?_⟩
    · rw [hkey, ← hoccs, List.length_flatMap]
      exact congrArg List.sum (List.map_congr_left fun m _ => length_keyed db key m)
    · rw [hkey, min?_congr htimes]
      rfl
    · rw [hkey, max?_congr htimes]
      rfl
    · rw [hkey, relating, ← head?_keyed, hoccs]
      rfl

theorem mem_keys_entries : key ∈ (entries lower db).map Prod.fst ↔
    key.fromActor ≠ key.toActor ∧ ∃ m ∈ db.messages, 0 < db.ways lower key m := by
  rw [← Dict.lookup_isSome, lookup_entries]
  split_ifs with hself
  · exact iff_of_false Bool.false_ne_true fun h => h.1 hself
  · have hmem : (∃ o, o ∈ db.messages.flatMap (keyed lower db key)) ↔
        ∃ m ∈ db.messages, 0 < db.ways lower key m := by
      simp only [List.mem_flatMap, ways_pos]
      exact ⟨fun ⟨o, m, hm, ho⟩ => ⟨m, hm, o, ho⟩, fun ⟨m, hm, o, ho⟩ => ⟨o, m, hm, ho⟩⟩
    rw [← hmem]
    cases db.messages.flatMap (keyed lower db key) with
    | nil => simp
    | cons o os =>
      rw [foldl_addOccurrence]
      exact iff_of_true rfl ⟨hself, o, List.mem_cons_self⟩

/-! ## The edges -/

/-- The edges are the entries, in another order. -/
theorem perm_edges (db : RelationTables) :
    (db.runRelationBuilder lower).1.Perm ((entries lower db).map Prod.snd) :=
  List.mergeSort_perm _ _

theorem nodup_keys_entries (db : RelationTables) : ((entries lower db).map Prod.fst).Nodup := by
  rw [entries, foldl_bump]
  exact Dict.nodup_keys_gather _ _ _

/-- There is an edge exactly for each entry, under its key. -/
theorem mem_edges : e ∈ (db.runRelationBuilder lower).1 ↔
    (entries lower db).lookup e.toRelationKey = some e := by
  rw [(perm_edges db).mem_iff, List.mem_map]
  constructor
  · rintro ⟨⟨key, e'⟩, hmem, rfl⟩
    have hlookup := (Dict.mem_iff_lookup (nodup_keys_entries db)).mp hmem
    rwa [(lookup_entries_eq_some hlookup).1]
  · exact fun h => ⟨_, (Dict.mem_iff_lookup (nodup_keys_entries db)).mpr h, rfl⟩

theorem keys_edges (db : RelationTables) :
    ((db.runRelationBuilder lower).1.map RelationEdge.toRelationKey).Perm
      ((entries lower db).map Prod.fst) := by
  have hkeys : ((entries lower db).map Prod.snd).map RelationEdge.toRelationKey =
      (entries lower db).map Prod.fst := by
    rw [List.map_map]
    refine List.map_congr_left fun p hp => ?_
    exact (lookup_entries_eq_some ((Dict.mem_iff_lookup (nodup_keys_entries db)).mp hp)).1
  exact hkeys ▸ (perm_edges db).map RelationEdge.toRelationKey

/-- Edges of one key differ in the source at most, when the rows come in another order. -/
theorem Sums.reorder (h : db.Sums lower e) (hreorders : Reorders lower db db') {e' : RelationEdge}
    (h' : db'.Sums lower e') (hkey : e'.toRelationKey = e.toRelationKey) :
    { e' with sourceId := e.sourceId } = e := by
  have hrelating : (db'.relating lower e'.toRelationKey).Perm
      (db.relating lower e.toRelationKey) := by
    rw [hkey, relating, hreorders.ways_eq]
    exact hreorders.messages.filter _
  have htimes : ∀ t, t ∈ (db'.relating lower e'.toRelationKey).map RelationInputRow.sentAt ↔
      t ∈ (db.relating lower e.toRelationKey).map RelationInputRow.sentAt := fun _ =>
    (hrelating.map RelationInputRow.sentAt).mem_iff
  have hcount : e'.count = e.count := by
    rw [h'.count, h.count, hkey, hreorders.ways_eq]
    exact (hreorders.messages.map _).sum_eq
  have hfirst : e'.firstSeen = e.firstSeen :=
    Option.some.inj (h'.firstSeen.symm.trans ((min?_congr htimes).trans h.firstSeen))
  have hlast : e'.lastSeen = e.lastSeen :=
    Option.some.inj (h'.lastSeen.symm.trans ((max?_congr htimes).trans h.lastSeen))
  rw [hkey, hcount, hfirst, hlast]

/-- There is one edge for each pair of actors and kind that some message relates, it sums up these
messages, and the order of the rows decides no more than its source. -/
theorem run_relation_builder (lower : String → String) (db : RelationTables) :
    ((db.runRelationBuilder lower).1.map RelationEdge.toRelationKey).Nodup ∧
    (∀ key, key ∈ (db.runRelationBuilder lower).1.map RelationEdge.toRelationKey ↔
      key.fromActor ≠ key.toActor ∧ ∃ m ∈ db.messages, 0 < db.ways lower key m) ∧
    (∀ e ∈ (db.runRelationBuilder lower).1, db.Sums lower e) ∧
    ∀ db', Reorders lower db db' → ∀ e ∈ (db.runRelationBuilder lower).1,
      ∃ e' ∈ (db'.runRelationBuilder lower).1, { e' with sourceId := e.sourceId } = e := by
  have hkeys : ∀ (db : RelationTables) (key : RelationKey),
      key ∈ (db.runRelationBuilder lower).1.map RelationEdge.toRelationKey ↔
        key.fromActor ≠ key.toActor ∧ ∃ m ∈ db.messages, 0 < db.ways lower key m :=
    fun db key => (keys_edges db).mem_iff.trans mem_keys_entries
  have hsums : ∀ (db : RelationTables), ∀ e ∈ (db.runRelationBuilder lower).1, db.Sums lower e :=
    fun db e he => (lookup_entries_eq_some (mem_edges.mp he)).2.2
  refine ⟨(keys_edges db).nodup_iff.mpr (nodup_keys_entries db), hkeys db, hsums db,
    fun db' hreorders e he => ?_⟩
  obtain ⟨hne, m, hm, hways⟩ := (hkeys db e.toRelationKey).mp (List.mem_map_of_mem he)
  have hkey' : e.toRelationKey ∈ (db'.runRelationBuilder lower).1.map RelationEdge.toRelationKey :=
    (hkeys db' e.toRelationKey).mpr ⟨hne, m, hreorders.messages.mem_iff.mpr hm, by
      rwa [hreorders.ways_eq]⟩
  obtain ⟨e', he', hkey⟩ := List.mem_map.mp hkey'
  exact ⟨e', he', (hsums db e he).reorder hreorders (hsums db' e' he') hkey⟩

end Builder

/-- Two actors of one source, and one of another source with the handle of the second. -/
def sampleActors : Table ActorRow.actorKey where
  rows :=
    [⟨"actor:1", 1, 1, "11", some "@ann", none, none, 0, none, 0, false⟩,
      ⟨"actor:2", 2, 1, "12", some "@kestrel", none, none, 0, none, 0, false⟩,
      ⟨"actor:3", 3, 2, "13", some "@Kestrel", none, none, 0, none, 0, false⟩]
  nodup := by decide

/-- The first actor names the second one in a message. -/
def sampleTables : RelationTables := ⟨sampleActors, [], [⟨1, "ask @kestrel", 50, 1, none, none⟩]⟩

def sampleLower (s : String) : String := String.ofList (s.toList.map Char.toLower)

/-- The edge goes to the actor of the other source. -/
theorem handle_of_another_source :
    (∃ e ∈ (sampleTables.runRelationBuilder sampleLower).1, e.toRelationKey = ⟨1, 3, .mention⟩) ∧
      ∀ e ∈ (sampleTables.runRelationBuilder sampleLower).1,
        e.toRelationKey ≠ ⟨1, 2, .mention⟩ := by
  have hentries : entries sampleLower sampleTables =
      [(⟨1, 3, .mention⟩, ⟨⟨1, 3, .mention⟩, 1, 1, 50, 50⟩)] := by decide +kernel
  have hkeys : ((sampleTables.runRelationBuilder sampleLower).1.map
      RelationEdge.toRelationKey).Perm [⟨1, 3, .mention⟩] :=
    (keys_edges sampleTables).trans (by rw [hentries]; exact List.Perm.refl _)
  constructor
  · exact List.mem_map.mp (hkeys.mem_iff.mpr List.mem_cons_self)
  · intro e he hkey
    have hmem := hkeys.mem_iff.mp (List.mem_map_of_mem he)
    rw [hkey] at hmem
    exact absurd hmem (by decide)

end RelationTables

end Eyenet
