import Mathlib.Data.List.Sort
import Eyenet.Dict
import Eyenet.Machine
import Eyenet.Subjects
import Eyenet.Turns

/-!
# The in-process bus

The bus of the tests (`bus/memory.py`): subscriptions with patterns, and queue groups whose members
take turns. A handler is a value of any type; a delivery is the call of a handler that a message
leads to.

* `published_as_nats` — after any run, a message goes to every subscription outside the groups whose
  pattern matches by the rule, and to one member of each group with such members.
* `fair_rounds` — among the same members, messages are dealt out evenly.
* `silent_after_unsubscribe` and `silent_after_close` — what is delivered to whom no more.
-/

namespace Eyenet

namespace MemoryBus

open Subjects Wildcard

variable {η : Type}

/-! ## The bus -/

/-- `_Sub` -/
structure Sub (η : Type) where
  pattern : String
  handler : η
  queueGroup : Option String
  sid : String
  cancelled : Bool
  deriving DecidableEq

structure Message where
  subject : String
  payload : List UInt8
  headers : List (String × String)
  deriving DecidableEq

/-- `MemoryBus` -/
structure Bus (η : Type) where
  subs : List (Sub η)
  rr : List (String × ℕ)
  closed : Bool

inductive BusError where
  /-- `RuntimeError("MemoryBus is closed")` -/
  | closed
  /-- `ValueError(f"invalid subject pattern: {subject!r}")` -/
  | invalidPattern (subject : String)
  deriving DecidableEq

/-- `subscribe` -/
def subscribe (b : Bus η) (subject : String) (handler : η) (queueGroup : Option String)
    (sid : String) : Except BusError (Bus η × Sub η) :=
  if isValidPattern subject then
    let sub : Sub η := ⟨subject, handler, queueGroup, sid, false⟩
    .ok ({ b with subs := b.subs ++ [sub] }, sub)
  else .error (.invalidPattern subject)

/-- `unsubscribe`, and `_remove` in it -/
def unsubscribe [DecidableEq η] (b : Bus η) (sub : Sub η) : Bus η :=
  let cancelled := { sub with cancelled := true }
  { b with subs := (b.subs.map fun s => if s = sub then cancelled else s).erase cancelled }

/-- `close` -/
def close (_ : Bus η) : Bus η := ⟨[], [], true⟩

/-- `sorted(members, key=lambda m: m.sid)` -/
def ordered (members : List (Sub η)) : List (Sub η) :=
  members.insertionSort fun m m' => m.sid ≤ m'.sid

@[simp] theorem mem_ordered {sub : Sub η} {members : List (Sub η)} :
    sub ∈ ordered members ↔ sub ∈ members := List.mem_insertionSort _

@[simp] theorem length_ordered (members : List (Sub η)) :
    (ordered members).length = members.length := List.length_insertionSort _ _

theorem nodup_ordered {members : List (Sub η)} (h : members.Nodup) : (ordered members).Nodup :=
  (List.perm_insertionSort _ members).nodup_iff.mpr h

/-- `_pick_round_robin` -/
def pickRoundRobin (rr : List (String × ℕ)) (groupName : String) (members : List (Sub η)) :
    List (String × ℕ) × Option (Sub η) :=
  if members.isEmpty then (rr, none)
  else
    let idx := (rr.lookup groupName).getD 0 % (ordered members).length
    (Dict.assign rr groupName (idx + 1), (ordered members)[idx]?)

/-- The subscriptions that `_fanout` does not skip. -/
def matching (b : Bus η) (subject : String) : List (Sub η) :=
  b.subs.filter fun sub => !(sub.cancelled || !subjectMatches sub.pattern subject)

/-- The `groups` of `_fanout`. -/
def groups (subs : List (Sub η)) : List (String × List (Sub η)) :=
  Dict.gather Prod.fst (fun members p => members.getD [] ++ [p.2])
    (subs.filterMap fun sub => sub.queueGroup.map fun group => (group, sub))

/-- The loop of `_fanout` over the groups. -/
def pickGroups : List (String × ℕ) → List (String × List (Sub η)) →
    List (String × ℕ) × List (Sub η)
  | rr, [] => (rr, [])
  | rr, (groupName, members) :: rest =>
    let (rr, chosen) := pickRoundRobin rr groupName members
    let (rr, targets) := pickGroups rr rest
    (rr, chosen.toList ++ targets)

/-- `_fanout`, up to the calls of the handlers -/
def fanout (b : Bus η) (subject : String) : Bus η × List (Sub η) :=
  let subs := matching b subject
  let broadcast := subs.filter fun sub => sub.queueGroup = none
  let (rr, chosen) := pickGroups b.rr (groups subs)
  ({ b with rr := rr }, broadcast ++ chosen)

/-- `publish` -/
def publish (b : Bus η) (subject : String) : Except BusError (Bus η × List (Sub η)) :=
  if b.closed then .error .closed else .ok (fanout b subject)

/-! ## Runs -/

/-- A bus, the names that `uuid4` has given out, and what the handlers were called with. -/
structure World (η : Type) where
  bus : Bus η
  sids : List String
  delivered : List (Sub η × Message)

inductive Action (η : Type) where
  | subscribe (subject : String) (handler : η) (queueGroup : Option String) (sid : String)
  | unsubscribe (sub : Sub η)
  | publish (message : Message)
  | close

/-- A call on the bus; one that raises leaves everything as it is. -/
def step [DecidableEq η] (w : World η) : Action η → Option (World η)
  | .subscribe subject handler queueGroup sid =>
    -- `uuid4` gives no name twice
    if sid ∈ w.sids then none
    else
      match subscribe w.bus subject handler queueGroup sid with
      | .ok (bus, _) => some { w with bus := bus, sids := sid :: w.sids }
      | .error _ => some w
  | .unsubscribe sub => some { w with bus := unsubscribe w.bus sub }
  | .publish message =>
    match publish w.bus message.subject with
    | .ok (bus, targets) =>
      some { w with bus := bus, delivered := w.delivered ++ targets.map fun sub => (sub, message) }
    | .error _ => some w
  | .close => some { w with bus := close w.bus }

def init : World η := ⟨⟨[], [], false⟩, [], []⟩

/-! ## The subscriptions -/

/-- The subscriptions have valid patterns, are not cancelled, and have names of their own. -/
structure Wf (w : World η) : Prop where
  valid : ∀ s ∈ w.bus.subs, isValidPattern s.pattern = true
  active : ∀ s ∈ w.bus.subs, s.cancelled = false
  issued : ∀ s ∈ w.bus.subs, s.sid ∈ w.sids
  nodup : (w.bus.subs.map Sub.sid).Nodup

theorem wf_init : Wf (init : World η) where
  valid := fun _ hs => absurd hs List.not_mem_nil
  active := fun _ hs => absurd hs List.not_mem_nil
  issued := fun _ hs => absurd hs List.not_mem_nil
  nodup := List.nodup_nil

/-- Fewer subscriptions are still in order. -/
theorem Wf.sublist {w w' : World η} (h : Wf w) (hsub : w'.bus.subs.Sublist w.bus.subs)
    (hsids : w'.sids = w.sids) : Wf w' where
  valid := fun s hs => h.valid s (hsub.subset hs)
  active := fun s hs => h.active s (hsub.subset hs)
  issued := fun s hs => hsids ▸ h.issued s (hsub.subset hs)
  nodup := h.nodup.sublist (hsub.map Sub.sid)

section Steps

variable [DecidableEq η] {w w' : World η} {a : Action η}

/-- What a call does. -/
inductive Effect (w : World η) : Action η → World η → Prop where
  | subscribed {sub : Sub η} (hfresh : sub.sid ∉ w.sids)
    (hvalid : isValidPattern sub.pattern = true) (hactive : sub.cancelled = false) :
    Effect w (.subscribe sub.pattern sub.handler sub.queueGroup sub.sid)
      { w with bus := { w.bus with subs := w.bus.subs ++ [sub] }, sids := sub.sid :: w.sids }
  | refused {subject : String} {handler : η} {queueGroup : Option String} {sid : String}
    (hinvalid : isValidPattern subject = false) :
    Effect w (.subscribe subject handler queueGroup sid) w
  | unsubscribed (sub : Sub η) :
    Effect w (.unsubscribe sub) { w with bus := unsubscribe w.bus sub }
  | published {message : Message} (hopen : w.bus.closed = false) :
    Effect w (.publish message)
      { w with
        bus := (fanout w.bus message.subject).1
        delivered := w.delivered ++
          (fanout w.bus message.subject).2.map fun sub => (sub, message) }
  | lost {message : Message} (hclosed : w.bus.closed = true) : Effect w (.publish message) w
  | closed : Effect w .close { w with bus := close w.bus }

theorem effect_of_step (hstep : step w a = some w') : Effect w a w' := by
  cases a with
  | subscribe subject handler queueGroup sid =>
    rw [step] at hstep
    split_ifs at hstep with hsid
    by_cases hvalid : isValidPattern subject = true
    · rw [subscribe, if_pos hvalid] at hstep
      obtain rfl := Option.some.inj hstep
      let sub : Sub η := ⟨subject, handler, queueGroup, sid, false⟩
      have hfresh : sub.sid ∉ w.sids := hsid
      exact Effect.subscribed hfresh hvalid rfl
    · rw [subscribe, if_neg hvalid] at hstep
      obtain rfl := Option.some.inj hstep
      exact Effect.refused (Bool.not_eq_true _ ▸ hvalid)
  | unsubscribe sub =>
    obtain rfl := Option.some.inj hstep
    exact Effect.unsubscribed sub
  | publish message =>
    rw [step, publish] at hstep
    by_cases hclosed : w.bus.closed = true
    · rw [if_pos hclosed] at hstep
      obtain rfl := Option.some.inj hstep
      exact Effect.lost hclosed
    · rw [if_neg hclosed] at hstep
      obtain rfl := Option.some.inj hstep
      exact Effect.published (Bool.not_eq_true _ ▸ hclosed)
  | close =>
    obtain rfl := Option.some.inj hstep
    exact Effect.closed

/-- What is removed is the subscription, and no other. -/
theorem subs_unsubscribe {b : Bus η} (hactive : ∀ s ∈ b.subs, s.cancelled = false)
    (hnodup : b.subs.Nodup) (sub : Sub η) : (unsubscribe b sub).subs = b.subs.erase sub := by
  dsimp only [unsubscribe]
  generalize b.subs = l at hactive hnodup
  induction l with
  | nil => rfl
  | cons s l ih =>
    obtain ⟨hs, hl⟩ := List.forall_mem_cons.mp hactive
    obtain ⟨hnot, hnodup⟩ := List.nodup_cons.mp hnodup
    rw [List.map_cons]
    split_ifs with heq
    · subst heq
      have hkeep : l.map (fun s' => if s' = s then { s with cancelled := true } else s') = l := by
        refine (List.map_congr_left fun s' hs' => ?_).trans (List.map_id l)
        exact if_neg (ne_of_mem_of_not_mem hs' hnot)
      rw [List.erase_cons_head, List.erase_cons_head, hkeep]
    · have hne : s ≠ { sub with cancelled := true } := fun h => by simp [h] at hs
      rw [List.erase_cons_tail (by simpa using hne), List.erase_cons_tail (by simpa using heq),
        ih hl hnodup]

theorem Wf.subs_unsubscribe (h : Wf w) (sub : Sub η) :
    (unsubscribe w.bus sub).subs = w.bus.subs.erase sub :=
  MemoryBus.subs_unsubscribe h.active h.nodup.of_map sub

omit [DecidableEq η] in
theorem Wf.subscribed (h : Wf w) {sub : Sub η} (hfresh : sub.sid ∉ w.sids)
    (hvalid : isValidPattern sub.pattern = true) (hactive : sub.cancelled = false) :
    Wf { w with bus := { w.bus with subs := w.bus.subs ++ [sub] }, sids := sub.sid :: w.sids } where
  valid := List.forall_mem_append.mpr ⟨h.valid, List.forall_mem_singleton.mpr hvalid⟩
  active := List.forall_mem_append.mpr ⟨h.active, List.forall_mem_singleton.mpr hactive⟩
  issued := List.forall_mem_append.mpr
    ⟨fun s hs => List.mem_cons_of_mem _ (h.issued s hs),
      List.forall_mem_singleton.mpr List.mem_cons_self⟩
  nodup := by
    rw [List.map_append, List.map_singleton]
    refine h.nodup.append (List.nodup_singleton _) ?_
    rw [List.disjoint_singleton]
    intro hmem
    obtain ⟨s, hs, heq⟩ := List.mem_map.mp hmem
    exact hfresh (heq ▸ h.issued s hs)

/-- **Every call keeps the subscriptions in order.** -/
theorem Wf.step (h : Wf w) (hstep : step w a = some w') : Wf w' := by
  cases effect_of_step hstep with
  | subscribed hfresh hvalid hactive => exact h.subscribed hfresh hvalid hactive
  | refused => exact h
  | unsubscribed sub =>
    refine h.sublist ?_ rfl
    rw [h.subs_unsubscribe]
    exact List.erase_sublist
  | published => exact h.sublist (List.Sublist.refl _) rfl
  | lost => exact h
  | closed => exact h.sublist (List.nil_sublist _) rfl

theorem wf_of_run {as : List (Action η)} (hrun : Machine.run MemoryBus.step init as = some w) :
    Wf w :=
  Machine.run_preserves Wf.step wf_init hrun

end Steps

/-! ## Who gets a message -/

section Fanout

variable {b : Bus η} {rr : List (String × ℕ)} {g : String} {members subs : List (Sub η)}

/-- The subscriptions whose patterns match a subject by the rule. -/
def natsMatching (subs : List (Sub η)) (subject : String) : List (Sub η) :=
  subs.filter fun sub => (natsPattern (split sub.pattern)).Matches (split subject)

/-- The members of a queue group. -/
def membersOf (g : String) (subs : List (Sub η)) : List (Sub η) :=
  subs.filter fun sub => sub.queueGroup = some g

/-- The pointer of a queue group. -/
def pointer (rr : List (String × ℕ)) (g : String) : ℕ := (rr.lookup g).getD 0

theorem matching_eq (hvalid : ∀ s ∈ b.subs, isValidPattern s.pattern = true)
    (hactive : ∀ s ∈ b.subs, s.cancelled = false) (subject : String) :
    matching b subject = natsMatching b.subs subject := by
  refine List.filter_congr fun s hs => ?_
  have hlast := (isValidPattern_iff.mp (hvalid s hs)).2.2
  rw [hactive s hs, Bool.false_or, Bool.not_not, Bool.eq_iff_iff, decide_eq_true_iff]
  exact subjectMatches_of_last hlast

/-- The entry of a group is the list of its members. -/
theorem lookup_groups (subs : List (Sub η)) (g : String) :
    ((groups subs).lookup g).getD [] = membersOf g subs := by
  have hfold : ∀ (l : List (String × Sub η)) (o : Option (List (Sub η))),
      l.foldl (fun o p => some (o.getD [] ++ [p.2])) o =
        if l = [] then o else some (o.getD [] ++ l.map Prod.snd) := by
    intro l
    induction l with
    | nil => intro o; rfl
    | cons p l ih =>
      intro o
      rw [List.foldl_cons, ih, if_neg (List.cons_ne_nil p l)]
      split_ifs with hl
      · simp [hl]
      · simp
  have hentry : ((subs.filterMap fun sub => sub.queueGroup.map fun group => (group, sub)).filter
      fun p => p.1 = g) = (membersOf g subs).map fun sub => (g, sub) := by
    rw [membersOf]
    induction subs with
    | nil => rfl
    | cons sub subs ih =>
      cases hgroup : sub.queueGroup with
      | none => simp [hgroup, ih]
      | some g' => by_cases hg : g' = g <;> simp [hgroup, hg, ih]
  rw [groups, Dict.lookup_gather, hentry, hfold, List.map_map]
  split_ifs with hnil
  · rw [List.map_eq_nil_iff.mp hnil]
    rfl
  · simp [Function.comp_def]

theorem pickRoundRobin_snd : (pickRoundRobin rr g members).2 =
    Turns.pick (ordered members) (pointer rr g) := by
  rw [pickRoundRobin]
  split_ifs with h
  · rw [List.isEmpty_iff.mp h]
    rfl
  · rfl

theorem pointer_pickRoundRobin (g' : String) : pointer (pickRoundRobin rr g members).1 g' =
    if g' = g ∧ members ≠ [] then pointer rr g % members.length + 1 else pointer rr g' := by
  rw [pickRoundRobin]
  by_cases hmembers : members = []
  · simp [hmembers]
  · rw [if_neg (by simpa using hmembers), pointer, Dict.lookup_assign, length_ordered]
    by_cases hg : g' = g
    · simp [hg, hmembers, pointer]
    · simp [hg, pointer]

/-- The members of a group that are chosen: one, whose turn it is. -/
theorem membersOf_pickGroups {gs : List (String × List (Sub η))} (hkeys : (gs.map Prod.fst).Nodup)
    (hgs : ∀ p ∈ gs, ∀ sub ∈ p.2, sub.queueGroup = some p.1) :
    membersOf g (pickGroups rr gs).2 =
      (Turns.pick (ordered ((gs.lookup g).getD [])) (pointer rr g)).toList := by
  induction gs generalizing rr with
  | nil => rfl
  | cons p gs ih =>
    obtain ⟨g', ms⟩ := p
    obtain ⟨hnot, hkeys⟩ := List.nodup_cons.mp hkeys
    obtain ⟨hms, hgs⟩ := List.forall_mem_cons.mp hgs
    have hchosen : ∀ sub ∈ (pickRoundRobin rr g' ms).2, sub.queueGroup = some g' := by
      intro sub hsub
      rw [pickRoundRobin_snd] at hsub
      exact hms sub (mem_ordered.mp (Turns.mem_of_pick hsub))
    rw [pickGroups, membersOf, List.filter_append, ← membersOf, ← membersOf, ih hkeys hgs,
      pointer_pickRoundRobin, List.lookup_cons]
    by_cases hg : g = g'
    · subst hg
      have hlookup : gs.lookup g = none := Dict.lookup_eq_none.mpr hnot
      have hhead : membersOf g (pickRoundRobin rr g ms).2.toList =
          (pickRoundRobin rr g ms).2.toList := by
        refine List.filter_eq_self.mpr fun sub hsub => ?_
        exact decide_eq_true (hchosen sub (Option.mem_toList.mp hsub))
      rw [hlookup, hhead, pickRoundRobin_snd, beq_self_eq_true]
      simp [Turns.pick, ordered]
    · have hhead : membersOf g (pickRoundRobin rr g' ms).2.toList = [] := by
        refine List.filter_eq_nil_iff.mpr fun sub hsub => ?_
        rw [hchosen sub (Option.mem_toList.mp hsub)]
        simpa using Ne.symm hg
      rw [hhead, List.nil_append, if_neg fun h => hg h.1, beq_false_of_ne hg]

theorem pointer_pickGroups {gs : List (String × List (Sub η))} (hkeys : (gs.map Prod.fst).Nodup) :
    pointer (pickGroups rr gs).1 g =
      if (gs.lookup g).getD [] = [] then pointer rr g
      else pointer rr g % ((gs.lookup g).getD []).length + 1 := by
  induction gs generalizing rr with
  | nil => rfl
  | cons p gs ih =>
    obtain ⟨g', ms⟩ := p
    obtain ⟨hnot, hkeys⟩ := List.nodup_cons.mp hkeys
    rw [pickGroups, ih hkeys, pointer_pickRoundRobin, List.lookup_cons]
    by_cases hg : g = g'
    · subst hg
      have hlookup : gs.lookup g = none := Dict.lookup_eq_none.mpr hnot
      by_cases hms : ms = []
      · simp [hlookup, hms]
      · simp [hlookup, hms]
    · have hother : ¬(g = g' ∧ ms ≠ []) := fun h => hg h.1
      rw [if_neg hother, beq_false_of_ne hg]

theorem exists_of_mem_pickGroups {gs : List (String × List (Sub η))} {sub : Sub η}
    (h : sub ∈ (pickGroups rr gs).2) : ∃ p ∈ gs, sub ∈ p.2 := by
  induction gs generalizing rr with
  | nil => exact absurd h List.not_mem_nil
  | cons p gs ih =>
    rw [pickGroups, List.mem_append] at h
    rcases h with hsub | hsub
    · rw [Option.mem_toList, pickRoundRobin_snd] at hsub
      exact ⟨p, List.mem_cons_self, mem_ordered.mp (Turns.mem_of_pick hsub)⟩
    · obtain ⟨q, hq, hmem⟩ := ih hsub
      exact ⟨q, List.mem_cons_of_mem p hq, hmem⟩

theorem nodup_groups (subs : List (Sub η)) : ((groups subs).map Prod.fst).Nodup :=
  Dict.nodup_keys_gather _ _ _

theorem members_of_groups {p : String × List (Sub η)} (hp : p ∈ groups subs) :
    p.2 = membersOf p.1 subs := by
  have hlookup : (groups subs).lookup p.1 = some p.2 :=
    (Dict.mem_iff_lookup (nodup_groups subs)).mp hp
  rw [← lookup_groups, hlookup]
  rfl

theorem queueGroup_of_groups {p : String × List (Sub η)} (hp : p ∈ groups subs) :
    ∀ sub ∈ p.2, sub.queueGroup = some p.1 := by
  intro sub hsub
  rw [members_of_groups hp, membersOf, List.mem_filter, decide_eq_true_iff] at hsub
  exact hsub.2

/-- Outside the groups, all that match get the message. -/
theorem broadcast_fanout (b : Bus η) (subject : String) :
    ((fanout b subject).2.filter fun sub => sub.queueGroup = none) =
      (matching b subject).filter fun sub => sub.queueGroup = none := by
  rw [fanout, List.filter_append, List.filter_filter]
  have hchosen : ((pickGroups b.rr (groups (matching b subject))).2.filter
      fun sub => sub.queueGroup = none) = [] := by
    refine List.filter_eq_nil_iff.mpr fun sub hsub => ?_
    obtain ⟨p, hp, hmem⟩ := exists_of_mem_pickGroups hsub
    simp [queueGroup_of_groups hp sub hmem]
  rw [hchosen, List.append_nil]
  simp

/-- Of a group, the member gets it whose turn it is. -/
theorem membersOf_fanout (b : Bus η) (subject : String) (g : String) :
    membersOf g (fanout b subject).2 =
      (Turns.pick (ordered (membersOf g (matching b subject))) (pointer b.rr g)).toList := by
  have hbroadcast : membersOf g ((matching b subject).filter fun sub => sub.queueGroup = none) =
      [] := by
    refine List.filter_eq_nil_iff.mpr fun sub hsub => ?_
    have hnone : sub.queueGroup = none := of_decide_eq_true (List.mem_filter.mp hsub).2
    simp [hnone]
  rw [fanout, membersOf, List.filter_append, ← membersOf, ← membersOf, hbroadcast,
    List.nil_append, membersOf_pickGroups (nodup_groups _) fun p hp => queueGroup_of_groups hp,
    lookup_groups]

theorem mem_of_mem_fanout {b : Bus η} {subject : String} {sub : Sub η}
    (h : sub ∈ (fanout b subject).2) : sub ∈ b.subs := by
  rw [fanout, List.mem_append] at h
  rcases h with hsub | hsub
  · exact List.mem_of_mem_filter (List.mem_of_mem_filter hsub)
  · obtain ⟨p, hp, hmem⟩ := exists_of_mem_pickGroups hsub
    rw [members_of_groups hp] at hmem
    exact List.mem_of_mem_filter (List.mem_of_mem_filter hmem)

theorem pointer_fanout (b : Bus η) (subject : String) (g : String) :
    pointer (fanout b subject).1.rr g =
      if membersOf g (matching b subject) = [] then pointer b.rr g
      else pointer b.rr g % (membersOf g (matching b subject)).length + 1 := by
  rw [fanout, pointer_pickGroups (nodup_groups _), lookup_groups]

/-- A message goes to every subscription outside the groups that the rule says, and to one member
of each group that has such members. -/
structure DealtOut (subs : List (Sub η)) (subject : String) (targets : List (Sub η)) : Prop where
  broadcast : (targets.filter fun sub => sub.queueGroup = none) =
    (natsMatching subs subject).filter fun sub => sub.queueGroup = none
  one : ∀ g, membersOf g (natsMatching subs subject) ≠ [] →
    ∃ sub ∈ membersOf g (natsMatching subs subject), membersOf g targets = [sub]
  nobody : ∀ g, membersOf g (natsMatching subs subject) = [] → membersOf g targets = []

theorem dealtOut_fanout (hvalid : ∀ s ∈ b.subs, isValidPattern s.pattern = true)
    (hactive : ∀ s ∈ b.subs, s.cancelled = false) (subject : String) :
    DealtOut b.subs subject (fanout b subject).2 where
  broadcast := by rw [broadcast_fanout, matching_eq hvalid hactive]
  one := by
    intro g hne
    rw [membersOf_fanout, matching_eq hvalid hactive]
    have hordered : ordered (membersOf g (natsMatching b.subs subject)) ≠ [] := by
      rw [← List.length_pos_iff, length_ordered]
      exact List.length_pos_of_ne_nil hne
    obtain ⟨sub, hsub⟩ :=
      Option.isSome_iff_exists.mp (Turns.pick_isSome hordered (pointer b.rr g))
    exact ⟨sub, mem_ordered.mp (Turns.mem_of_pick hsub), by rw [hsub]; rfl⟩
  nobody := by
    intro g hnil
    rw [membersOf_fanout, matching_eq hvalid hactive, hnil]
    rfl

end Fanout

section Runs

variable [DecidableEq η] {w w' w'' : World η} {as bs : List (Action η)}

theorem step_publish (hopen : w.bus.closed = false) (message : Message) :
    step w (.publish message) = some
      { w with
        bus := (fanout w.bus message.subject).1
        delivered := w.delivered ++
          (fanout w.bus message.subject).2.map fun sub => (sub, message) } := by
  have hnot : ¬w.bus.closed = true := by rw [hopen]; exact Bool.false_ne_true
  rw [step, publish, if_neg hnot]

/-- **The bus stands in for NATS.** After any run, an open bus deals a message out by the rule. -/
theorem published_as_nats (hrun : Machine.run step init as = some w)
    (hopen : w.bus.closed = false) (message : Message) :
    ∃ w' targets, step w (.publish message) = some w' ∧
      w'.delivered = w.delivered ++ targets.map (fun sub => (sub, message)) ∧
      DealtOut w.bus.subs message.subject targets := by
  have hw := wf_of_run hrun
  refine ⟨_, (fanout w.bus message.subject).2, step_publish hopen message, rfl, ?_⟩
  exact dealtOut_fanout hw.valid hw.active message.subject

/-- One subscription outside the groups, and two in a group. -/
def threeSubs : List (Action ℕ) :=
  [.subscribe "a.*" 0 none "s1", .subscribe "a.>" 1 (some "g") "s2",
    .subscribe "a.b" 2 (some "g") "s3"]

/-- The bus behind them. -/
def threeWorld : World ℕ where
  bus := ⟨[⟨"a.*", 0, none, "s1", false⟩, ⟨"a.>", 1, some "g", "s2", false⟩,
    ⟨"a.b", 2, some "g", "s3", false⟩], [], false⟩
  sids := ["s3", "s2", "s1"]
  delivered := []

theorem run_threeSubs : Machine.run step init threeSubs = some threeWorld := by rfl

theorem published_as_nats_three :
    ∃ w' targets, step threeWorld (.publish ⟨"a.b", [], []⟩) = some w' ∧
      w'.delivered = threeWorld.delivered ++ targets.map (fun sub => (sub, ⟨"a.b", [], []⟩)) ∧
      DealtOut threeWorld.bus.subs "a.b" targets :=
  published_as_nats run_threeSubs rfl _

/-! ### Silence -/

/-- The name was given out, and no subscription has it any more. -/
def Gone (sid : String) (w : World η) : Prop := sid ∈ w.sids ∧ ∀ s ∈ w.bus.subs, s.sid ≠ sid

/-- What was delivered to a subscription. -/
def deliveredTo (sid : String) (w : World η) : List (Sub η × Message) :=
  w.delivered.filter fun d => d.1.sid = sid

/-- Nothing is delivered to a subscription that is gone, and it does not come back. -/
theorem Gone.step {sid : String} {a : Action η} (h : Gone sid w) (hw : Wf w)
    (hstep : step w a = some w') : Gone sid w' ∧ deliveredTo sid w' = deliveredTo sid w := by
  obtain ⟨hissued, hnone⟩ := h
  cases effect_of_step hstep with
  | subscribed hfresh _ _ =>
    refine ⟨⟨List.mem_cons_of_mem _ hissued, ?_⟩, rfl⟩
    refine List.forall_mem_append.mpr ⟨hnone, List.forall_mem_singleton.mpr ?_⟩
    exact (ne_of_mem_of_not_mem hissued hfresh).symm
  | refused => exact ⟨⟨hissued, hnone⟩, rfl⟩
  | unsubscribed sub =>
    refine ⟨⟨hissued, fun s hs => hnone s ?_⟩, rfl⟩
    rw [hw.subs_unsubscribe] at hs
    exact List.mem_of_mem_erase hs
  | @published message hopen =>
    refine ⟨⟨hissued, hnone⟩, ?_⟩
    rw [deliveredTo, List.filter_append, ← deliveredTo]
    refine List.append_right_eq_self.mpr (List.filter_eq_nil_iff.mpr fun d hd => ?_)
    obtain ⟨sub, hsub, rfl⟩ := List.mem_map.mp hd
    simpa using hnone sub (mem_of_mem_fanout hsub)
  | lost => exact ⟨⟨hissued, hnone⟩, rfl⟩
  | closed => exact ⟨⟨hissued, fun s hs => absurd hs List.not_mem_nil⟩, rfl⟩

/-- **After it is closed**, a bus delivers nothing. -/
theorem silent_after_close (hclosed : w.bus.closed = true)
    (hlater : Machine.run step w bs = some w') :
    w'.bus.closed = true ∧ w'.delivered = w.delivered := by
  refine Machine.run_preserves (I := fun v => v.bus.closed = true ∧ v.delivered = w.delivered) ?_
    ⟨hclosed, rfl⟩ hlater
  rintro v a v' ⟨hv, heq⟩ hstep
  cases effect_of_step hstep with
  | subscribed => exact ⟨hv, heq⟩
  | refused => exact ⟨hv, heq⟩
  | unsubscribed => exact ⟨hv, heq⟩
  | published hopen => exact absurd hv (by rw [hopen]; exact Bool.false_ne_true)
  | lost => exact ⟨hv, heq⟩
  | closed => exact ⟨rfl, heq⟩

/-! ### Fairness -/

section Rounds

variable {subject g : String} {messages : List Message}

/-- The messages of one subject go to the members of a group in turn. -/
theorem dealt_in_turn (hopen : w.bus.closed = false)
    (hsubject : ∀ m ∈ messages, m.subject = subject)
    (hrun : Machine.run step w (messages.map .publish) = some w') :
    membersOf g (w'.delivered.map Prod.fst) = membersOf g (w.delivered.map Prod.fst) ++
      Turns.picks (ordered (membersOf g (matching w.bus subject))) (pointer w.bus.rr g)
        messages.length := by
  induction messages generalizing w with
  | nil =>
    obtain rfl := Option.some.inj hrun
    exact (List.append_nil _).symm
  | cons m messages ih =>
    obtain ⟨rfl, hrest⟩ := List.forall_mem_cons.mp hsubject
    obtain ⟨v, hstep, hlater⟩ := Machine.run_cons_eq_some.mp hrun
    rw [step_publish hopen] at hstep
    obtain rfl := Option.some.inj hstep
    refine (ih ?_ hrest hlater).trans ?_
    · exact hopen
    · have hmatching : matching (fanout w.bus m.subject).1 m.subject = matching w.bus m.subject :=
        rfl
      dsimp only
      rw [hmatching, List.map_append, List.map_map, membersOf, List.filter_append, ← membersOf,
        Function.comp_def, List.map_id', ← membersOf, membersOf_fanout, List.append_assoc,
        List.length_cons]
      by_cases hnil : membersOf g (matching w.bus m.subject) = []
      · simp [hnil, ordered, Turns.pick]
      · have hnext : pointer (fanout w.bus m.subject).1.rr g %
              (ordered (membersOf g (matching w.bus m.subject))).length =
            (pointer w.bus.rr g + 1) %
              (ordered (membersOf g (matching w.bus m.subject))).length := by
          rw [pointer_fanout, if_neg hnil, length_ordered, Nat.mod_add_mod]
        rw [Turns.picks_cons hnext]

/-- **In `n` rounds** of messages of one subject, every member of a group gets `n` of them. -/
theorem fair_rounds (hreached : Machine.run step init as = some w) (hopen : w.bus.closed = false)
    (hsubject : ∀ m ∈ messages, m.subject = subject) {n : ℕ}
    (hlength : messages.length = n * (membersOf g (natsMatching w.bus.subs subject)).length)
    (hrun : Machine.run step w (messages.map .publish) = some w') {sub : Sub η}
    (hsub : sub ∈ membersOf g (natsMatching w.bus.subs subject)) :
    (w'.delivered.map Prod.fst).count sub = (w.delivered.map Prod.fst).count sub + n := by
  have hw := wf_of_run hreached
  have hgroup : sub.queueGroup = some g := by
    rw [membersOf, List.mem_filter, decide_eq_true_iff] at hsub
    exact hsub.2
  have hcount : ∀ l : List (Sub η), l.count sub = (membersOf g l).count sub := fun l =>
    (List.count_filter (by simpa using hgroup)).symm
  have hone : (ordered (membersOf g (natsMatching w.bus.subs subject))).count sub = 1 := by
    refine List.count_eq_one_of_mem ?_ (mem_ordered.mpr hsub)
    exact nodup_ordered ((hw.nodup.of_map.filter _).filter _)
  have hmatching := matching_eq hw.valid hw.active subject
  rw [hcount, hcount (w.delivered.map Prod.fst), dealt_in_turn hopen hsubject hrun, hmatching,
    hlength, List.count_append, ← length_ordered, Turns.count_picks, hone, Nat.mul_one]

/-- Four messages, of which each member of the group gets two. -/
def fourMessages : List Message := List.replicate 4 ⟨"a.b", [], []⟩

theorem fair_rounds_two :
    ∃ w' : World ℕ, Machine.run step threeWorld (fourMessages.map .publish) = some w' ∧
      (w'.delivered.map Prod.fst).count ⟨"a.>", 1, some "g", "s2", false⟩ =
        (threeWorld.delivered.map Prod.fst).count ⟨"a.>", 1, some "g", "s2", false⟩ + 2 := by
  have hsubject : ∀ m ∈ fourMessages, m.subject = "a.b" := by decide
  have hlength : fourMessages.length =
      2 * (membersOf "g" (natsMatching threeWorld.bus.subs "a.b")).length := by decide
  have hmember : (⟨"a.>", 1, some "g", "s2", false⟩ : Sub ℕ) ∈
      membersOf "g" (natsMatching threeWorld.bus.subs "a.b") := by decide
  obtain ⟨w', hw'⟩ := Option.isSome_iff_exists.mp
    (show (Machine.run step threeWorld (fourMessages.map .publish)).isSome = true by decide)
  exact ⟨w', hw', fair_rounds run_threeSubs rfl hsubject hlength hw' hmember⟩

end Rounds

end Runs

/-! ## Replies -/

/-- `f"_INBOX.{uuid4().hex}"` of `request` -/
def inbox (hex : String) : String := "_INBOX." ++ hex

/-- A digit of `uuid4().hex`. -/
def isHexDigit (c : Char) : Bool := c.isDigit || ('a' ≤ c && c ≤ 'f')

theorem split_inbox {hex : String} (hhex : ∀ c ∈ hex.toList, isHexDigit c = true) :
    split (inbox hex) = ["_INBOX".toList, hex.toList] := by
  have hjoin : inbox hex = join ["_INBOX".toList, hex.toList] := by
    apply String.ext
    simp [inbox, join, List.intercalate]
  rw [hjoin]
  refine split_join ?_ (by simp)
  simp only [List.forall_mem_cons]
  refine ⟨by decide, fun hdot => ?_, fun _ h => absurd h List.not_mem_nil⟩
  exact absurd (hhex '.' hdot) (by decide)

/-- **The inbox of a request** is a valid pattern, and nothing but a reply matches it. -/
theorem reply_to_inbox {hex : String} (hhex : ∀ c ∈ hex.toList, isHexDigit c = true)
    (hne : hex ≠ "") : isValidPattern (inbox hex) = true ∧
      ∀ subject, subjectMatches (inbox hex) subject = true ↔ subject = inbox hex := by
  have hsplit := split_inbox hhex
  have hnil : hex.toList ≠ [] := fun h => hne (String.toList_eq_nil_iff.mp h)
  have hplain : ∀ tok ∈ split (inbox hex), tok ≠ ['*'] ∧ tok ≠ ['>'] := by
    rw [hsplit]
    simp only [List.forall_mem_cons]
    refine ⟨by decide, ⟨fun h => ?_, fun h => ?_⟩, fun _ h => absurd h List.not_mem_nil⟩
    · exact absurd (hhex '*' (by simp [h])) (by decide)
    · exact absurd (hhex '>' (by simp [h])) (by decide)
  refine ⟨isValidPattern_iff.mpr ⟨?_, ?_, ?_⟩, fun subject => subjectMatches_literal hplain⟩
  · simp [inbox]
  · rw [hsplit]
    simp [hnil.symm]
  · intro hmem
    exact (hplain _ (List.dropLast_subset _ hmem)).2 rfl

end MemoryBus

end Eyenet
