import Eyenet.Classes
import Eyenet.Enums
import Eyenet.Machine
import Eyenet.Table

/-!
# Personas

A persona stands for several actors that are taken for one person. Its members are kept twice
(`sqlmodel_repo/personas.py`): as a list on the persona and as membership rows, of which an actor
has at most one.

* `PersonaStore.Sound` — the two copies agree.
* `merge_spec`, `split_spec` — what the two operations do to a sound store.
* `persona_components` — in every run the store is a partition; without splits its classes are
  the connected components of the merged pairs.
-/

namespace Eyenet

open Machine Relation

/-! ## Rows and operations -/

/-- A row of `persona`. -/
structure PersonaRow where
  id : Uuid
  label : Option String
  memberActorIds : List Uuid
  createdAt : ℤ
  updatedAt : ℤ
  deriving DecidableEq

/-- A row of `persona_membership`. -/
structure PersonaMembershipRow where
  personaId : Uuid
  actorId : Uuid
  joinedAt : ℤ
  viaLinkageId : Option Uuid
  deriving DecidableEq

/-- What a merge raises. -/
inductive PersonaError where
  /-- `PersonaIntegrityError` -/
  | personaIntegrity (message : String)
  /-- the database refuses a key that is taken -/
  | integrityError
  deriving DecidableEq, Repr

/-- The text for a membership without its persona. -/
def missingPersona (personaId : Uuid) : PersonaError :=
  .personaIntegrity ("membership references missing persona " ++ uuidText personaId)

/-- The personas, and the memberships under their unique actor. -/
structure PersonaStore where
  personas : Table PersonaRow.id
  memberships : Table PersonaMembershipRow.actorId

namespace PersonaStore

/-- The store before the first call. -/
def init : PersonaStore := ⟨.empty, .empty⟩

/-- `_get_persona_or_raise`, `_add_member` and the commit -/
def addMember (s : PersonaStore) (personaId actorId : Uuid) (viaLinkageId : Option Uuid)
    (now : ℤ) : PersonaStore × Except PersonaError PersonaRow :=
  match s.personas.get personaId with
  | none => (s, .error (missingPersona personaId))
  | some existing =>
    let persona :=
      if actorId ∈ existing.memberActorIds then existing
      else { existing with
        memberActorIds := existing.memberActorIds ++ [actorId]
        updatedAt := now }
    match s.memberships.insert ⟨persona.id, actorId, now, viaLinkageId⟩ with
    | none => (s, .error .integrityError)
    | some memberships => (⟨s.personas.put persona, memberships⟩, .ok persona)

/-- The membership moves from the absorbed persona to the kept one. -/
def moveMembership (dropId keepId : Uuid) (m : PersonaMembershipRow) : PersonaMembershipRow :=
  { m with personaId := if m.personaId = dropId then keepId else m.personaId }

/-- Two personas become one: the memberships of the absorbed one move. -/
def absorb (s : PersonaStore) (keepId dropId : Uuid) (now : ℤ) :
    PersonaStore × Except PersonaError PersonaRow :=
  match s.personas.get keepId, s.personas.get dropId with
  | some keep, some drop =>
    let merged := { keep with
      memberActorIds := (keep.memberActorIds ++ drop.memberActorIds).eraseDups
      updatedAt := now }
    (⟨(s.personas.put merged).erase dropId,
      s.memberships.updateAll (moveMembership dropId keepId) fun _ => rfl⟩, .ok merged)
  | _, _ =>
    (s, .error (.personaIntegrity
      ("merge target missing: keep=" ++ uuidText keepId ++ " drop=" ++ uuidText dropId)))

/-- `merge_actors_into_persona` -/
def mergeActorsIntoPersona (s : PersonaStore) (newId actorA actorB : Uuid)
    (viaLinkageId : Option Uuid) (now : ℤ) : PersonaStore × Except PersonaError PersonaRow :=
  match s.memberships.get actorA, s.memberships.get actorB with
  | none, none =>
    let persona : PersonaRow := ⟨newId, none, [actorA, actorB], now, now⟩
    match s.personas.insert persona with
    | none => (s, .error .integrityError)
    | some personas =>
      match s.memberships.insert ⟨newId, actorA, now, viaLinkageId⟩ with
      | none => (s, .error .integrityError)
      | some withA =>
        match withA.insert ⟨newId, actorB, now, viaLinkageId⟩ with
        | none => (s, .error .integrityError)
        | some memberships => (⟨personas, memberships⟩, .ok persona)
  | some ma, none => s.addMember ma.personaId actorB viaLinkageId now
  | none, some mb => s.addMember mb.personaId actorA viaLinkageId now
  | some ma, some mb =>
    if ma.personaId = mb.personaId then
      match s.personas.get ma.personaId with
      | none => (s, .error (missingPersona ma.personaId))
      | some existing => (s, .ok existing)
    -- the smaller id is kept
    else if ma.personaId ≤ mb.personaId then s.absorb ma.personaId mb.personaId now
    else s.absorb mb.personaId ma.personaId now

/-- `split_actor_from_persona` -/
def splitActorFromPersona (s : PersonaStore) (actorId : Uuid) (now : ℤ) :
    PersonaStore × Option PersonaRow :=
  match s.memberships.get actorId with
  | none => (s, none)
  | some membership =>
    match s.personas.get membership.personaId with
    | none => (s, none)
    | some existing =>
      let persona := { existing with
        memberActorIds := existing.memberActorIds.filter fun m => m ≠ actorId
        updatedAt := now }
      if persona.memberActorIds.isEmpty then
        (⟨s.personas.erase persona.id, s.memberships.erase actorId⟩, none)
      else (⟨s.personas.put persona, s.memberships.erase actorId⟩, some persona)

/-- `persona_members` -/
def personaMembers (s : PersonaStore) (personaId : Uuid) : List Uuid :=
  (s.memberships.rows.filter fun m => m.personaId = personaId).map PersonaMembershipRow.actorId

/-! ## The two copies agree -/

/-- The persona of an actor, by the membership rows. -/
def personaOf (s : PersonaStore) (actorId : Uuid) : Option Uuid :=
  (s.memberships.get actorId).map PersonaMembershipRow.personaId

/-- The lists on the personas are the membership rows. -/
structure Sound (s : PersonaStore) : Prop where
  nodup : ∀ p ∈ s.personas, p.memberActorIds.Nodup
  members : ∀ p ∈ s.personas, ∀ x, x ∈ p.memberActorIds ↔ s.personaOf x = some p.id
  placed : ∀ x i, s.personaOf x = some i → ∃ p ∈ s.personas, p.id = i
  nonempty : ∀ p ∈ s.personas, p.memberActorIds ≠ []

theorem sound_init : Sound init where
  nodup := fun p hp => absurd hp (Table.not_mem_empty p)
  members := fun p hp => absurd hp (Table.not_mem_empty p)
  placed := fun x i hx => by cases hx
  nonempty := fun p hp => absurd hp (Table.not_mem_empty p)

variable {s s' : PersonaStore} {a b x y i j : Uuid} {via : Option Uuid} {now : ℤ}

theorem personaOf_eq_some : s.personaOf x = some i ↔
    ∃ m ∈ s.memberships, m.actorId = x ∧ m.personaId = i := by
  rw [personaOf, Option.map_eq_some_iff]
  refine ⟨fun h => ?_, fun h => ?_⟩
  · obtain ⟨m, hm, hmi⟩ := h
    obtain ⟨hmem, hkey⟩ := Table.get_eq_some.mp hm
    exact ⟨m, hmem, hkey, hmi⟩
  · obtain ⟨m, hmem, hkey, hmi⟩ := h
    exact ⟨m, Table.get_eq_some.mpr ⟨hmem, hkey⟩, hmi⟩

theorem mem_personaMembers : x ∈ s.personaMembers i ↔ s.personaOf x = some i := by
  rw [personaOf_eq_some, personaMembers, List.mem_map]
  refine exists_congr fun m => ?_
  rw [List.mem_filter, decide_eq_true_eq, and_assoc, and_comm (a := m.actorId = x)]
  exact Iff.rfl

/-- An actor is in at most one persona. -/
theorem Sound.eq_of_member (h : Sound s) {p q : PersonaRow} (hp : p ∈ s.personas)
    (hq : q ∈ s.personas) (hxp : x ∈ p.memberActorIds) (hxq : x ∈ q.memberActorIds) : p = q := by
  rw [h.members p hp] at hxp
  rw [h.members q hq] at hxq
  exact Table.eq_of_key hp hq (Option.some.inj (hxp.symm.trans hxq))

/-- The persona of an actor that has one. -/
theorem Sound.exists_persona (h : Sound s) (hx : s.personaOf x = some i) :
    ∃ p ∈ s.personas, p.id = i ∧ s.personas.get i = some p ∧ x ∈ p.memberActorIds := by
  obtain ⟨p, hp, rfl⟩ := h.placed x i hx
  exact ⟨p, hp, rfl, Table.get_self hp, (h.members p hp x).mpr hx⟩

/-- The personas are those that an actor has. -/
theorem Sound.exists_row_iff (h : Sound s) :
    (∃ p ∈ s.personas, p.id = i) ↔ ∃ x, s.personaOf x = some i := by
  refine ⟨fun hrow => ?_, fun hx => ?_⟩
  · obtain ⟨p, hp, rfl⟩ := hrow
    obtain ⟨x, hx⟩ := List.exists_mem_of_ne_nil _ (h.nonempty p hp)
    exact ⟨x, (h.members p hp x).mp hx⟩
  · obtain ⟨x, hx⟩ := hx
    exact h.placed x i hx

/-! ### Merges -/

/-- A persona is made of two actors without one. -/
theorem Sound.create (h : Sound s) {personas : Table PersonaRow.id}
    {withA memberships : Table PersonaMembershipRow.actorId}
    (ha : s.personaOf a = none) (hb : s.personaOf b = none)
    (hinsert : s.personas.insert ⟨i, none, [a, b], now, now⟩ = some personas)
    (hwithA : s.memberships.insert ⟨i, a, now, via⟩ = some withA)
    (hwithB : withA.insert ⟨i, b, now, via⟩ = some memberships) :
    Sound ⟨personas, memberships⟩ ∧
      Classes.Merges s.personaOf (personaOf ⟨personas, memberships⟩) a b := by
  have hof (z : Uuid) : personaOf ⟨personas, memberships⟩ z =
      if z = a ∨ z = b then some i else s.personaOf z := by
    simp only [personaOf, Table.get_insert hwithB, Table.get_insert hwithA, eq_comm (a := z)]
    by_cases hzb : b = z <;> by_cases hza : a = z <;> simp [hzb, hza]
  have hne : a ≠ b := by
    rintro rfl
    have hfree := (Table.insert_eq_some hwithB).1
    rw [Table.get_insert hwithA, if_pos rfl] at hfree
    cases hfree
  -- nobody is placed under the id of a persona that was not there
  have hfresh (z : Uuid) : s.personaOf z ≠ some i := by
    intro hz
    obtain ⟨p, hp, hpi⟩ := h.placed z i hz
    exact Table.get_eq_none.mp (Table.insert_eq_some hinsert).1 p hp hpi
  refine ⟨⟨?_, ?_, ?_, ?_⟩, i, ?_, ?_⟩
  · intro p hp
    obtain hp | rfl := (Table.mem_insert hinsert).mp hp
    · exact h.nodup p hp
    · simp [hne]
  · intro p hp z
    rw [hof]
    obtain hp | rfl := (Table.mem_insert hinsert).mp hp
    · rw [h.members p hp]
      have hpi : p.id ≠ i := Table.get_eq_none.mp (Table.insert_eq_some hinsert).1 p hp
      split_ifs with hz
      · have hnone : s.personaOf z = none := by
          obtain rfl | rfl := hz
          · exact ha
          · exact hb
        simp [hnone, hpi.symm]
      · exact Iff.rfl
    · split_ifs with hz
      · simpa using hz
      · simpa [hz] using hfresh z
  · intro z k hz
    rw [hof] at hz
    split_ifs at hz
    · exact ⟨_, (Table.mem_insert hinsert).mpr (Or.inr rfl), Option.some.inj hz⟩
    · obtain ⟨p, hp, hpk⟩ := h.placed z k hz
      exact ⟨p, (Table.mem_insert hinsert).mpr (Or.inl hp), hpk⟩
  · intro p hp
    obtain hp | rfl := (Table.mem_insert hinsert).mp hp
    · exact h.nonempty p hp
    · simp
  · rintro z (hz | hz | ⟨k, -, hk⟩ | ⟨k, -, hk⟩)
    · rw [hof, if_pos (Or.inl hz)]
    · rw [hof, if_pos (Or.inr hz)]
    · rw [ha] at hk
      cases hk
    · rw [hb] at hk
      cases hk
  · intro z hz
    have hzab : ¬ (z = a ∨ z = b) := fun hor => hz (hor.elim Or.inl fun hzb => Or.inr (Or.inl hzb))
    rw [hof, if_neg hzab]
    exact ⟨rfl, hfresh z⟩

theorem Sound.not_mem (h : Sound s) {p : PersonaRow} (hp : p ∈ s.personas)
    (hb : s.personaOf b = none) : b ∉ p.memberActorIds := by
  rw [h.members p hp, hb]
  rintro ⟨⟩

/-- An actor without a persona joins one. -/
theorem Sound.join (h : Sound s) {p : PersonaRow} {memberships : Table PersonaMembershipRow.actorId}
    (hp : p ∈ s.personas) (ha : s.personaOf a = some p.id) (hb : s.personaOf b = none)
    {row : PersonaRow} (hid : row.id = p.id) (hrow : row.memberActorIds = p.memberActorIds ++ [b])
    (hinsert : s.memberships.insert ⟨p.id, b, now, via⟩ = some memberships) :
    Sound ⟨s.personas.put row, memberships⟩ ∧
      Classes.Merges s.personaOf (personaOf ⟨s.personas.put row, memberships⟩) a b := by
  have hof (z : Uuid) : personaOf ⟨s.personas.put row, memberships⟩ z =
      if z = b then some p.id else s.personaOf z := by
    simp only [personaOf, Table.get_insert hinsert, eq_comm (a := z)]
    by_cases hz : b = z <;> simp [hz]
  have hbp : b ∉ p.memberActorIds := h.not_mem hp hb
  refine ⟨⟨?_, ?_, ?_, ?_⟩, p.id, ?_, ?_⟩
  · intro q hq
    obtain rfl | ⟨hq, -⟩ := (Table.mem_put hp hid).mp hq
    · rw [hrow]
      exact (h.nodup p hp).append (List.nodup_singleton b) (by simpa using hbp)
    · exact h.nodup q hq
  · intro q hq z
    rw [hof]
    obtain rfl | ⟨hq, hne⟩ := (Table.mem_put hp hid).mp hq
    · rw [hrow, hid, List.mem_append, List.mem_singleton, h.members p hp]
      by_cases hz : z = b <;> simp [hz]
    · rw [h.members q hq]
      split_ifs with hz
      · have hqp : q.id ≠ p.id := fun hqp => hne (Table.eq_of_key hq hp hqp)
        simp [hz, hb, hqp.symm]
      · exact Iff.rfl
  · intro z k hz
    rw [hof] at hz
    split_ifs at hz
    · exact ⟨row, Table.mem_put_self hp hid, hid.trans (Option.some.inj hz)⟩
    · obtain ⟨q, hq, hqk⟩ := h.placed z k hz
      by_cases hqp : q = p
      · exact ⟨row, Table.mem_put_self hp hid, by rw [hid, ← hqp, hqk]⟩
      · exact ⟨q, (Table.mem_put hp hid).mpr (Or.inr ⟨hq, hqp⟩), hqk⟩
  · intro q hq
    obtain rfl | ⟨hq, -⟩ := (Table.mem_put hp hid).mp hq
    · simp [hrow]
    · exact h.nonempty q hq
  · rintro z (rfl | rfl | ⟨k, hzk, hak⟩ | ⟨k, -, hbk⟩) <;> rw [hof]
    · split_ifs
      · rfl
      · exact ha
    · rw [if_pos rfl]
    · obtain rfl : p.id = k := Option.some.inj (ha.symm.trans hak)
      split_ifs
      · rfl
      · exact hzk
    · rw [hb] at hbk
      cases hbk
  · intro z hz
    have hzb : z ≠ b := fun hzb => hz (Or.inr (Or.inl hzb))
    rw [hof, if_neg hzb]
    exact ⟨rfl, fun hzp => hz (Or.inr (Or.inr (Or.inl ⟨p.id, hzp, ha⟩)))⟩

/-- A merge of two actors went through and returned a persona. Its id is that of one of the two
personas, where there was one. -/
structure Merged (s s' : PersonaStore) (row : PersonaRow) (a b : Uuid) : Prop where
  stored : row ∈ s'.personas
  sound : Sound s'
  merges : Classes.Merges s.personaOf s'.personaOf a b
  placed : s'.personaOf a = some row.id
  named : s.personaOf a = some row.id ∨ s.personaOf b = some row.id ∨
    (s.personaOf a = none ∧ s.personaOf b = none)

theorem Merged.symm {row : PersonaRow} (h : Merged s s' row a b) : Merged s s' row b a := by
  refine ⟨h.stored, h.sound, h.merges.symm, ?_, ?_⟩
  · obtain ⟨i, hjoined, -⟩ := h.merges
    rw [hjoined b (Or.inr (Or.inl rfl)), ← hjoined a (Or.inl rfl)]
    exact h.placed
  · obtain ha | hb | ⟨ha, hb⟩ := h.named
    · exact Or.inr (Or.inl ha)
    · exact Or.inl hb
    · exact Or.inr (Or.inr ⟨hb, ha⟩)

/-- Where the two actors were not in different personas, everybody keeps their persona. -/
theorem Merged.personaOf_of_same {row : PersonaRow} (h : Merged s s' row a b)
    (hsame : ∀ i j, s.personaOf a = some i → s.personaOf b = some j → i = j)
    (hx : s.personaOf x = some i) : s'.personaOf x = some i := by
  obtain ⟨k, hjoined, hother⟩ := h.merges
  obtain rfl : row.id = k := Option.some.inj (h.placed.symm.trans (hjoined a (Or.inl rfl)))
  by_cases hin : Classes.Joined s.personaOf a b x
  · -- the persona of one of the two, which is the one that is kept
    have hab : s.personaOf a = some i ∨ s.personaOf b = some i := by
      obtain rfl | rfl | ⟨j, hxj, haj⟩ | ⟨j, hxj, hbj⟩ := hin
      · exact Or.inl hx
      · exact Or.inr hx
      · exact Or.inl (haj.trans (hxj.symm.trans hx))
      · exact Or.inr (hbj.trans (hxj.symm.trans hx))
    have hi : row.id = i := by
      obtain ha | hb | ⟨ha, hb⟩ := h.named
      · exact hab.elim (fun hai => Option.some.inj (ha.symm.trans hai)) (hsame row.id i ha)
      · exact hab.elim (fun hai => (hsame i row.id hai hb).symm)
          fun hbi => Option.some.inj (hb.symm.trans hbi)
      · rw [ha, hb] at hab
        exact hab.elim nofun nofun
    rw [hjoined x hin, hi]
  · rw [(hother x hin).1]
    exact hx

theorem addMember_spec (h : Sound s) (via : Option Uuid) (now : ℤ)
    (ha : s.personaOf a = some i) (hb : s.personaOf b = none) :
    ∃ row, (s.addMember i b via now).2 = .ok row ∧
      Merged s (s.addMember i b via now).1 row a b := by
  obtain ⟨p, hp, rfl, hget, -⟩ := h.exists_persona ha
  have hbp : b ∉ p.memberActorIds := h.not_mem hp hb
  obtain ⟨memberships, hinsert⟩ :
      ∃ memberships, s.memberships.insert ⟨p.id, b, now, via⟩ = some memberships :=
    Table.insert_isSome (Option.map_eq_none_iff.mp hb)
  simp only [addMember, hget, if_neg hbp, hinsert]
  generalize hrow : ({ p with
      memberActorIds := p.memberActorIds ++ [b]
      updatedAt := now } : PersonaRow) = row
  have hid : row.id = p.id := by rw [← hrow]
  have hmembers : row.memberActorIds = p.memberActorIds ++ [b] := by rw [← hrow]
  obtain ⟨hsound, hmerges⟩ := h.join hp ha hb hid hmembers hinsert
  refine ⟨row, rfl, Table.mem_put_self hp hid, hsound, hmerges, ?_, Or.inl (hid ▸ ha)⟩
  have hne : b ≠ a := by
    rintro rfl
    rw [hb] at ha
    cases ha
  rw [personaOf, Table.get_insert hinsert, if_neg hne, hid]
  exact ha

theorem nodup_eraseDups {α : Type*} [DecidableEq α] : ∀ l : List α, l.eraseDups.Nodup
  | [] => List.nodup_nil
  | a :: l => by
    rw [List.eraseDups_cons, List.nodup_cons]
    exact ⟨by simp, nodup_eraseDups _⟩
termination_by l => l.length
decreasing_by exact Nat.lt_succ_of_le (List.length_filter_le _ l)

theorem absorb_spec (h : Sound s) (now : ℤ) (ha : s.personaOf a = some i)
    (hb : s.personaOf b = some j) (hij : i ≠ j) :
    ∃ row, (s.absorb i j now).2 = .ok row ∧ Merged s (s.absorb i j now).1 row a b := by
  obtain ⟨p, hp, rfl, hgetp, -⟩ := h.exists_persona ha
  obtain ⟨q, hq, rfl, hgetq, -⟩ := h.exists_persona hb
  simp only [absorb, hgetp, hgetq]
  refine ⟨_, rfl, ?_⟩
  generalize hrow : ({ p with
      memberActorIds := (p.memberActorIds ++ q.memberActorIds).eraseDups
      updatedAt := now } : PersonaRow) = row
  have hid : row.id = p.id := by rw [← hrow]
  have hmembers : row.memberActorIds = (p.memberActorIds ++ q.memberActorIds).eraseDups := by
    rw [← hrow]
  have hmem (x : PersonaRow) : x ∈ (s.personas.put row).erase q.id ↔
      x = row ∨ (x ∈ s.personas ∧ x ≠ p ∧ x.id ≠ q.id) := by
    rw [Table.mem_erase, Table.mem_put hp hid]
    refine ⟨fun hx => ?_, fun hx => ?_⟩
    · obtain ⟨rfl | ⟨hx, hne⟩, hxq⟩ := hx
      · exact Or.inl rfl
      · exact Or.inr ⟨hx, hne, hxq⟩
    · obtain rfl | ⟨hx, hne, hxq⟩ := hx
      · exact ⟨Or.inl rfl, by rwa [hid]⟩
      · exact ⟨Or.inr ⟨hx, hne⟩, hxq⟩
  generalize hstore : (⟨(s.personas.put row).erase q.id,
    s.memberships.updateAll (moveMembership q.id p.id) fun _ => rfl⟩ : PersonaStore) = s'
  have hof (z : Uuid) : s'.personaOf z =
      if s.personaOf z = some q.id then some p.id else s.personaOf z := by
    have hget := Table.get_updateAll s.memberships (f := moveMembership q.id p.id) (fun _ => rfl) z
    rw [← hstore, personaOf, personaOf, hget]
    cases s.memberships.get z with
    | none => simp
    | some m => by_cases hm : m.personaId = q.id <;> simp [moveMembership, hm]
  have hpersonas : s'.personas = (s.personas.put row).erase q.id := by rw [← hstore]
  have hplaced : s'.personaOf a = some row.id := by
    rw [hof, ha, if_neg fun heq => hij (Option.some.inj heq), hid]
  refine ⟨?_, ⟨?_, ?_, ?_, ?_⟩, ⟨p.id, ?_, ?_⟩, hplaced, Or.inl (hid ▸ ha)⟩
  · rw [hpersonas, hmem]
    exact Or.inl rfl
  · intro x hx
    rw [hpersonas, hmem] at hx
    obtain rfl | ⟨hx, -⟩ := hx
    · rw [hmembers]
      exact nodup_eraseDups _
    · exact h.nodup x hx
  · intro x hx z
    rw [hpersonas, hmem] at hx
    rw [hof]
    obtain rfl | ⟨hx, hxp, hxq⟩ := hx
    · rw [hmembers, hid, List.mem_eraseDups, List.mem_append, h.members p hp, h.members q hq]
      split_ifs with hz
      · simp [hz]
      · simp [hz]
    · rw [h.members x hx]
      split_ifs with hz
      · have hxp' : x.id ≠ p.id := fun hid => hxp (Table.eq_of_key hx hp hid)
        simp [hz, hxq.symm, hxp'.symm]
      · exact Iff.rfl
  · intro z k hz
    rw [hof] at hz
    rw [hpersonas]
    split_ifs at hz with hzq
    · exact ⟨row, (hmem row).mpr (Or.inl rfl), hid.trans (Option.some.inj hz)⟩
    · obtain ⟨x, hx, rfl⟩ := h.placed z k hz
      by_cases hxp : x = p
      · exact ⟨row, (hmem row).mpr (Or.inl rfl), by rw [hid, hxp]⟩
      · exact ⟨x, (hmem x).mpr (Or.inr ⟨hx, hxp, fun hxq => hzq (hxq ▸ hz)⟩), rfl⟩
  · intro x hx
    rw [hpersonas, hmem] at hx
    obtain rfl | ⟨hx, -⟩ := hx
    · -- the kept persona had a member
      obtain ⟨z, hz⟩ := List.exists_mem_of_ne_nil _ (h.nonempty p hp)
      rw [hmembers]
      exact List.ne_nil_of_mem (List.mem_eraseDups.mpr (List.mem_append_left _ hz))
    · exact h.nonempty x hx
  · rintro z (rfl | rfl | ⟨k, hzk, hak⟩ | ⟨k, hzk, hbk⟩) <;> rw [hof]
    · rw [ha, if_neg fun heq => hij (Option.some.inj heq)]
    · rw [if_pos hb]
    · obtain rfl : p.id = k := Option.some.inj (ha.symm.trans hak)
      rw [hzk, if_neg fun heq => hij (Option.some.inj heq)]
    · obtain rfl : q.id = k := Option.some.inj (hb.symm.trans hbk)
      rw [if_pos hzk]
  · intro z hz
    have hzq : s.personaOf z ≠ some q.id := fun hzq =>
      hz (Or.inr (Or.inr (Or.inr ⟨q.id, hzq, hb⟩)))
    rw [hof, if_neg hzq]
    exact ⟨rfl, fun hzp => hz (Or.inr (Or.inr (Or.inl ⟨p.id, hzp, ha⟩)))⟩

/-- A merge that returns merges the classes of its actors. It raises only for two actors without a
persona that are one, or under an id that is taken. -/
theorem merge_spec (h : Sound s) (newId actorA actorB : Uuid) (via : Option Uuid) (now : ℤ) :
    ((actorA = actorB ∨ s.personas.get newId ≠ none) ∧
      (s.personaOf actorA = none ∧ s.personaOf actorB = none) ∧
      (∃ e, (s.mergeActorsIntoPersona newId actorA actorB via now).2 = .error e) ∧
      (s.mergeActorsIntoPersona newId actorA actorB via now).1 = s) ∨
    ∃ row, (s.mergeActorsIntoPersona newId actorA actorB via now).2 = .ok row ∧
      Merged s (s.mergeActorsIntoPersona newId actorA actorB via now).1 row actorA actorB := by
  rw [mergeActorsIntoPersona]
  cases hma : s.memberships.get actorA with
  | none =>
    have ha : s.personaOf actorA = none := Option.map_eq_none_iff.mpr hma
    cases hmb : s.memberships.get actorB with
    | none =>
      have hb : s.personaOf actorB = none := Option.map_eq_none_iff.mpr hmb
      dsimp only
      cases hinsert : s.personas.insert ⟨newId, none, [actorA, actorB], now, now⟩ with
      | none =>
        refine Or.inl ⟨Or.inr ?_, ⟨ha, hb⟩, ⟨_, rfl⟩, rfl⟩
        exact Table.get_ne_none_of_insert_eq_none hinsert
      | some personas =>
        obtain ⟨withA, hwithA⟩ :
            ∃ t, s.memberships.insert ⟨newId, actorA, now, via⟩ = some t :=
          Table.insert_isSome hma
        simp only [hwithA]
        cases hwithB : withA.insert ⟨newId, actorB, now, via⟩ with
        | none =>
          refine Or.inl ⟨Or.inl ?_, ⟨ha, hb⟩, ⟨_, rfl⟩, rfl⟩
          -- the second row is refused when the first one is of the same actor
          have htaken := Table.get_ne_none_of_insert_eq_none hwithB
          rw [Table.get_insert hwithA] at htaken
          by_contra hne
          exact htaken ((if_neg hne).trans hmb)
        | some memberships =>
          obtain ⟨hsound, hmerges⟩ := h.create ha hb hinsert hwithA hwithB
          refine Or.inr ⟨_, rfl, (Table.mem_insert hinsert).mpr (Or.inr rfl), hsound, hmerges, ?_,
            Or.inr (Or.inr ⟨ha, hb⟩)⟩
          rw [personaOf, Table.get_insert hwithB, Table.get_insert hwithA, if_pos rfl]
          split_ifs <;> rfl
    | some mb =>
      have hb : s.personaOf actorB = some mb.personaId := Option.map_eq_some_iff.mpr ⟨mb, hmb, rfl⟩
      obtain ⟨row, hok, hmerged⟩ := addMember_spec h via now hb ha
      exact Or.inr ⟨row, hok, hmerged.symm⟩
  | some ma =>
    have ha : s.personaOf actorA = some ma.personaId := Option.map_eq_some_iff.mpr ⟨ma, hma, rfl⟩
    cases hmb : s.memberships.get actorB with
    | none =>
      have hb : s.personaOf actorB = none := Option.map_eq_none_iff.mpr hmb
      exact Or.inr (addMember_spec h via now ha hb)
    | some mb =>
      have hb : s.personaOf actorB = some mb.personaId := Option.map_eq_some_iff.mpr ⟨mb, hmb, rfl⟩
      dsimp only
      by_cases hsame : ma.personaId = mb.personaId
      · obtain ⟨p, hp, hpid, hget, -⟩ := h.exists_persona ha
        rw [if_pos hsame, hget]
        refine Or.inr ⟨p, rfl, hp, h, ⟨ma.personaId, ?_, ?_⟩, hpid ▸ ha, Or.inl (hpid ▸ ha)⟩
        · rintro z (rfl | rfl | ⟨k, hzk, hak⟩ | ⟨k, hzk, hbk⟩)
          · exact ha
          · exact hb.trans (congrArg some hsame.symm)
          · exact hzk.trans (hak.symm.trans ha)
          · exact hzk.trans (hbk.symm.trans (hb.trans (congrArg some hsame.symm)))
        · intro z hz
          refine ⟨rfl, fun hzp => hz (Or.inr (Or.inr (Or.inl ⟨ma.personaId, hzp, ha⟩)))⟩
      · rw [if_neg hsame]
        split_ifs
        · exact Or.inr (absorb_spec h now ha hb hsame)
        · obtain ⟨row, hok, hmerged⟩ := absorb_spec h now hb ha (Ne.symm hsame)
          exact Or.inr ⟨row, hok, hmerged.symm⟩

/-! ### Splits -/

/-- A split takes the actor out of its persona. -/
theorem split_spec (h : Sound s) (actorId : Uuid) (now : ℤ) :
    Sound (s.splitActorFromPersona actorId now).1 ∧
      ∀ z, (s.splitActorFromPersona actorId now).1.personaOf z =
        if z = actorId then none else s.personaOf z := by
  rw [splitActorFromPersona]
  cases hm : s.memberships.get actorId with
  | none =>
    refine ⟨h, fun z => ?_⟩
    split_ifs with hz
    · rw [hz]
      exact Option.map_eq_none_iff.mpr hm
    · rfl
  | some m =>
    have hactor : s.personaOf actorId = some m.personaId := Option.map_eq_some_iff.mpr ⟨m, hm, rfl⟩
    obtain ⟨p, hp, hpid, hget, hmem⟩ := h.exists_persona hactor
    simp only [hget]
    generalize hrow : ({ p with
        memberActorIds := p.memberActorIds.filter fun x => x ≠ actorId
        updatedAt := now } : PersonaRow) = row
    have hid : row.id = p.id := by rw [← hrow]
    have hmembers : row.memberActorIds = p.memberActorIds.filter fun x => x ≠ actorId := by
      rw [← hrow]
    have hof (personas : Table PersonaRow.id) (z : Uuid) :
        personaOf ⟨personas, s.memberships.erase actorId⟩ z =
          if z = actorId then none else s.personaOf z := by
      rw [personaOf, personaOf, Table.get_erase]
      simp only [eq_comm (a := z)]
      by_cases hz : actorId = z <;> simp [hz]
    have hnotin (x : PersonaRow) (hx : x ∈ s.personas) (hxp : x ≠ p) : actorId ∉ x.memberActorIds :=
      fun hin => hxp (h.eq_of_member hx hp hin hmem)
    -- the other personas never had the actor
    have hother (x : PersonaRow) (hx : x ∈ s.personas) (hxp : x ≠ p) (z : Uuid) :
        z ∈ x.memberActorIds ↔ (if z = actorId then none else s.personaOf z) = some x.id := by
      split_ifs with hz
      · simp [hz, hnotin x hx hxp]
      · exact h.members x hx z
    rw [← hmembers, ← hid]
    by_cases hempty : row.memberActorIds.isEmpty = true
    · simp only [if_pos hempty]
      refine ⟨⟨?_, ?_, ?_, ?_⟩, hof _⟩
      · exact fun x hx => h.nodup x (Table.mem_erase.mp hx).1
      · intro x hx z
        obtain ⟨hx, hxid⟩ := Table.mem_erase.mp hx
        rw [hof]
        exact hother x hx (fun hxp => hxid (by rw [hid, hxp])) z
      · intro z k hz
        rw [hof] at hz
        split_ifs at hz with hne
        obtain ⟨x, hx, rfl⟩ := h.placed z k hz
        refine ⟨x, Table.mem_erase.mpr ⟨hx, fun hxid => ?_⟩, rfl⟩
        -- the persona is erased when nobody but the actor was in it
        have hzmem : z ∈ row.memberActorIds := by
          rw [hmembers, List.mem_filter, h.members p hp, ← hid, ← hxid]
          exact ⟨hz, by simpa using hne⟩
        rw [List.isEmpty_iff.mp hempty] at hzmem
        cases hzmem
      · exact fun x hx => h.nonempty x (Table.mem_erase.mp hx).1
    · simp only [if_neg hempty]
      refine ⟨⟨?_, ?_, ?_, ?_⟩, hof _⟩
      · intro x hx
        obtain rfl | ⟨hx, -⟩ := (Table.mem_put hp hid).mp hx
        · rw [hmembers]
          exact (h.nodup p hp).filter _
        · exact h.nodup x hx
      · intro x hx z
        rw [hof]
        obtain rfl | ⟨hx, hxp⟩ := (Table.mem_put hp hid).mp hx
        · rw [hmembers, List.mem_filter, h.members p hp, hid]
          split_ifs with hz <;> simp [hz]
        · exact hother x hx hxp z
      · intro z k hz
        rw [hof] at hz
        split_ifs at hz
        obtain ⟨x, hx, rfl⟩ := h.placed z k hz
        by_cases hxp : x = p
        · exact ⟨row, Table.mem_put_self hp hid, by rw [hid, hxp]⟩
        · exact ⟨x, (Table.mem_put hp hid).mpr (Or.inr ⟨hx, hxp⟩), rfl⟩
      · intro x hx
        obtain rfl | ⟨hx, -⟩ := (Table.mem_put hp hid).mp hx
        · exact fun hnil => hempty (List.isEmpty_iff.mpr hnil)
        · exact h.nonempty x hx

/-! ## Runs -/

/-- The personas partition the actors that have one. -/
structure Partition (s : PersonaStore) : Prop where
  /-- an actor is a member of at most one persona -/
  atMostOne : ∀ p ∈ s.personas, ∀ q ∈ s.personas, ∀ x ∈ p.memberActorIds,
    x ∈ q.memberActorIds → p = q
  /-- an actor has at most one membership row -/
  oneRow : ∀ m ∈ s.memberships, ∀ m' ∈ s.memberships, m.actorId = m'.actorId → m = m'
  /-- no member is listed twice -/
  nodup : ∀ p ∈ s.personas, p.memberActorIds.Nodup
  /-- the listed members are those with a membership row -/
  rows : ∀ p ∈ s.personas, ∀ x,
    x ∈ p.memberActorIds ↔ ∃ m ∈ s.memberships, m.actorId = x ∧ m.personaId = p.id
  /-- a membership row refers to a persona -/
  placed : ∀ m ∈ s.memberships, ∃ p ∈ s.personas, p.id = m.personaId
  /-- a persona has a member -/
  nonempty : ∀ p ∈ s.personas, p.memberActorIds ≠ []

theorem Sound.partition (h : Sound s) : Partition s where
  atMostOne := fun _ hp _ hq _ hxp hxq => h.eq_of_member hp hq hxp hxq
  oneRow := fun _ hm _ hm' hkey => Table.eq_of_key hm hm' hkey
  nodup := h.nodup
  rows := fun p hp x => (h.members p hp x).trans personaOf_eq_some
  placed := fun m hm => h.placed m.actorId m.personaId (personaOf_eq_some.mpr ⟨m, hm, rfl, rfl⟩)
  nonempty := h.nonempty

/-- Two actors are members of one persona. -/
def Together (s : PersonaStore) (x y : Uuid) : Prop :=
  ∃ p ∈ s.personas, x ∈ p.memberActorIds ∧ y ∈ p.memberActorIds

theorem Sound.together_iff (h : Sound s) : s.Together x y ↔ Classes.Same s.personaOf x y := by
  refine ⟨fun htogether => ?_, fun hsame => ?_⟩
  · obtain ⟨p, hp, hx, hy⟩ := htogether
    exact ⟨p.id, (h.members p hp x).mp hx, (h.members p hp y).mp hy⟩
  · obtain ⟨i, hx, hy⟩ := hsame
    obtain ⟨p, hp, rfl⟩ := h.placed x i hx
    exact ⟨p, hp, (h.members p hp x).mpr hx, (h.members p hp y).mpr hy⟩

end PersonaStore

/-- One call. -/
inductive PersonaStep where
  /-- `merge_actors_into_persona`, with the id that a new persona would get -/
  | merge (newId actorA actorB : Uuid) (viaLinkageId : Option Uuid) (now : ℤ)
  /-- `split_actor_from_persona` -/
  | split (actorId : Uuid) (now : ℤ)

/-- The step is not a split. -/
def PersonaStep.isMerge : PersonaStep → Bool
  | merge .. => true
  | split .. => false

/-- The store, and the pairs of the merges that have returned. -/
structure PersonaRun where
  store : PersonaStore
  merged : List (Uuid × Uuid)

namespace PersonaRun

/-- Before the first call. -/
def init : PersonaRun := ⟨.init, []⟩

/-- One call; a merge that raises has changed nothing. -/
def step (r : PersonaRun) : PersonaStep → Option PersonaRun
  | .merge newId actorA actorB viaLinkageId now =>
    let reply := r.store.mergeActorsIntoPersona newId actorA actorB viaLinkageId now
    match reply.2 with
    | .ok _ => some ⟨reply.1, (actorA, actorB) :: r.merged⟩
    | .error _ => some { r with store := reply.1 }
  | .split actorId now => some { r with store := (r.store.splitActorFromPersona actorId now).1 }

variable {r r' : PersonaRun} {a : PersonaStep}

/-- The classes are the connected components of the merged pairs. -/
def Components (r : PersonaRun) : Prop :=
  Classes.Tracks r.store.personaOf fun x y => (x, y) ∈ r.merged

theorem step_merge_cases {newId actorA actorB : Uuid} {via : Option Uuid} {now : ℤ}
    (h : r.store.Sound) (hstep : r.step (.merge newId actorA actorB via now) = some r') :
    r' = r ∨ (r'.merged = (actorA, actorB) :: r.merged ∧ r'.store.Sound ∧
      Classes.Merges r.store.personaOf r'.store.personaOf actorA actorB) := by
  obtain ⟨-, -, ⟨e, herror⟩, hstore⟩ | ⟨row, hok, hmerged⟩ :=
    PersonaStore.merge_spec h newId actorA actorB via now
  · simp only [step, herror] at hstep
    obtain rfl := Option.some.inj hstep
    rw [hstore]
    exact Or.inl rfl
  · simp only [step, hok] at hstep
    obtain rfl := Option.some.inj hstep
    exact Or.inr ⟨rfl, hmerged.sound, hmerged.merges⟩

theorem sound_step (h : r.store.Sound) (hstep : r.step a = some r') : r'.store.Sound := by
  cases a with
  | merge newId actorA actorB via now =>
    obtain rfl | ⟨-, hsound, -⟩ := step_merge_cases h hstep
    · exact h
    · exact hsound
  | split actorId now =>
    obtain rfl := Option.some.inj hstep
    exact (PersonaStore.split_spec h actorId now).1

theorem Components.step (hcomponents : r.Components) (h : r.store.Sound) (ha : a.isMerge = true)
    (hstep : r.step a = some r') : r'.Components := by
  cases a with
  | merge newId actorA actorB via now =>
    obtain rfl | ⟨hmerged, -, hmerges⟩ := step_merge_cases h hstep
    · exact hcomponents
    · have hrel : (fun x y => (x, y) ∈ r'.merged) =
          fun x y => (x, y) ∈ r.merged ∨ (x = actorA ∧ y = actorB) := by
        funext x y
        rw [hmerged, List.mem_cons, Prod.mk.injEq, or_comm]
      rw [Components, hrel]
      exact hmerges.tracks hcomponents
  | split => cases ha

theorem components_init : init.Components := by
  intro x y hne
  refine iff_of_false ?_ fun h => ?_
  · rintro ⟨i, hx, -⟩
    cases hx
  · have hall : ∀ {x y : Uuid}, EqvGen (fun x y => (x, y) ∈ init.merged) x y → x = y := by
      intro x y h
      induction h with
      | rel x y h => cases h
      | refl x => rfl
      | symm x y _ ih => exact ih.symm
      | trans x y z _ _ ih ih' => exact ih.trans ih'
    exact hne (hall h)

/-- **Personas.** After any sequence of merges and splits the personas partition the actors, a
merge of distinct actors under a fresh id returns, and without splits two actors are in one
persona exactly when the merged pairs connect them. -/
theorem persona_components (as : List PersonaStep) :
    ∃ r, run step init as = some r ∧ r.store.Partition ∧
      (∀ newId actorA actorB via now, actorA ≠ actorB → r.store.personas.get newId = none →
        ∃ row, (r.store.mergeActorsIntoPersona newId actorA actorB via now).2 = .ok row) ∧
      ((∀ a ∈ as, a.isMerge = true) → ∀ x y, x ≠ y →
        (r.store.Together x y ↔ EqvGen (fun a b => (a, b) ∈ r.merged) x y)) := by
  have htotal (r : PersonaRun) (a : PersonaStep) : ∃ r', r.step a = some r' := by
    cases a with
    | merge =>
      simp only [step]
      split <;> exact ⟨_, rfl⟩
    | split => exact ⟨_, rfl⟩
  obtain ⟨r, hr⟩ := exists_run htotal init as
  have hsound : r.store.Sound :=
    run_preserves (I := fun r => r.store.Sound) sound_step PersonaStore.sound_init hr
  refine ⟨r, hr, hsound.partition, ?_, ?_⟩
  · intro newId actorA actorB via now hne hfree
    obtain ⟨hrefused, -⟩ | ⟨row, hok, -⟩ :=
      PersonaStore.merge_spec hsound newId actorA actorB via now
    · obtain heq | htaken := hrefused
      · exact absurd heq hne
      · exact absurd hfree htaken
    · exact ⟨row, hok⟩
  · intro hmerges x y hne
    have hcomponents : r.Components :=
      (run_preserves_along (I := fun r => r.store.Sound ∧ r.Components)
        (C := fun _ a => a.isMerge = true)
        (fun h ha hstep => ⟨sound_step h.1 hstep, h.2.step h.1 ha hstep⟩)
        ⟨PersonaStore.sound_init, components_init⟩
        (along_of_forall fun a ha _ => hmerges a ha) hr).2
    rw [hsound.together_iff]
    exact hcomponents x y hne

end PersonaRun

end Eyenet
