import Eyenet.WritingProfile
import Mathlib.Data.List.Sort

/-!
# When an actor was seen

`upsert_actor` (`sqlmodel_repo/actors.py`) inserts the row of an actor with the time of the message
in all four time fields. On a row that is there it moves the two last times forward and leaves the
two first times alone, and a backfill hands older messages to it after newer ones.

* `ActorRow.foldl_update` — what any number of updates leaves of a row.
* `ActorRow.summarises_iff` — when the row says when the actor was first and last seen.
* `ActorRow.upsert_actor_iff` — exactly when the calls leave what they leave in chronological order.
-/

namespace Eyenet

/-! ## The least and the greatest of some times -/

theorem min?_congr {l l' : List ℤ} (h : ∀ t, t ∈ l ↔ t ∈ l') : l.min? = l'.min? := by
  apply Option.ext
  intro t
  simp only [List.min?_eq_some_iff, h]

theorem max?_congr {l l' : List ℤ} (h : ∀ t, t ∈ l ↔ t ∈ l') : l.max? = l'.max? := by
  apply Option.ext
  intro t
  simp only [List.max?_eq_some_iff, h]

/-! ## Rows and calls -/

/-- `ActorTable`; a time is the number of microseconds since the epoch. -/
structure ActorRow where
  actorKey : String
  id : Uuid
  sourceId : Uuid
  platformUserid : String
  currentHandle : Option String
  currentDisplayName : Option String
  firstSeenAtSource : Option ℤ
  firstSeenAtIngest : ℤ
  lastSeenAtSource : Option ℤ
  lastSeenAtIngest : ℤ
  isBotSelfDeclared : Bool
  deriving DecidableEq

/-- The arguments of a call of `upsert_actor`, besides the key of the actor. -/
structure UpsertActorCall where
  sourceId : Uuid
  platformUserid : String
  handle : Option String
  displayName : Option String
  seenAt : ℤ
  isBot : Bool
  deriving DecidableEq

namespace ActorRow

/-- The row that a call inserts. -/
def insertion (newId : Uuid) (actorKey : String) (call : UpsertActorCall) : ActorRow where
  actorKey := actorKey
  id := newId
  sourceId := call.sourceId
  platformUserid := call.platformUserid
  currentHandle := call.handle
  currentDisplayName := call.displayName
  firstSeenAtSource := some call.seenAt
  firstSeenAtIngest := call.seenAt
  lastSeenAtSource := some call.seenAt
  lastSeenAtIngest := call.seenAt
  isBotSelfDeclared := call.isBot

/-- The row after a call that finds it. -/
def update (row : ActorRow) (call : UpsertActorCall) : ActorRow := { row with
  currentHandle := (nonempty call.handle).or row.currentHandle
  currentDisplayName := (nonempty call.displayName).or row.currentDisplayName
  isBotSelfDeclared := call.isBot || row.isBotSelfDeclared
  lastSeenAtIngest := max row.lastSeenAtIngest call.seenAt
  lastSeenAtSource :=
    match row.lastSeenAtSource with
    | none => some call.seenAt
    | some storedSrc => if storedSrc < call.seenAt then some call.seenAt else some storedSrc }

/-- `upsert_actor`; `newId` is the id that an inserted row gets. -/
def upsertActor (newId : Uuid) (actorKey : String) (actors : Table ActorRow.actorKey)
    (call : UpsertActorCall) : Table ActorRow.actorKey × Uuid :=
  match actors.get actorKey with
  | none => (actors.save (insertion newId actorKey call), newId)
  | some row => (actors.put (row.update call), row.id)

/-- The table after the calls, in their order. -/
def upsertAll (newId : Uuid) (actorKey : String) (actors : Table ActorRow.actorKey)
    (calls : List UpsertActorCall) : Table ActorRow.actorKey :=
  calls.foldl (fun t call => (upsertActor newId actorKey t call).1) actors

/-- The row says of the calls when the first and the last of them were, and whether one had a
bot. -/
structure Summarises (row : ActorRow) (calls : List UpsertActorCall) : Prop where
  first : row.firstSeenAtSource = (calls.map UpsertActorCall.seenAt).min?
  last : row.lastSeenAtSource = (calls.map UpsertActorCall.seenAt).max?
  bot : row.isBotSelfDeclared = calls.any UpsertActorCall.isBot

/-- All calls carry the same handle and display name. -/
def OneName (calls : List UpsertActorCall) : Prop :=
  ∀ c ∈ calls, ∀ d ∈ calls, c.handle = d.handle ∧ c.displayName = d.displayName

/-- The calls come in the order of their times. -/
def Chronological (calls : List UpsertActorCall) : Prop :=
  calls.Pairwise fun c d => c.seenAt ≤ d.seenAt

variable {newId : Uuid} {actorKey : String} {actors : Table ActorRow.actorKey} {row : ActorRow}
  {first call : UpsertActorCall} {rest calls calls' : List UpsertActorCall}

/-! ## The row of the actor -/

theorem get_upsertActor (newId : Uuid) (actorKey : String) (actors : Table ActorRow.actorKey)
    (call : UpsertActorCall) : (upsertActor newId actorKey actors call).1.get actorKey =
      some ((actors.get actorKey).elim (insertion newId actorKey call) fun row =>
        row.update call) := by
  rw [upsertActor]
  cases hrow : actors.get actorKey with
  | none => exact (Table.get_save _ _ _).trans (if_pos rfl)
  | some row =>
    obtain ⟨hmem, hkey⟩ := Table.get_eq_some.mp hrow
    exact (Table.get_put hmem (by rfl) actorKey).trans (if_pos hkey)

theorem get_upsertAll_of_some (h : actors.get actorKey = some row) (calls : List UpsertActorCall) :
    (upsertAll newId actorKey actors calls).get actorKey = some (calls.foldl update row) := by
  induction calls generalizing actors row with
  | nil => exact h
  | cons call calls ih =>
    apply ih
    rw [get_upsertActor, h]
    rfl

/-- The first call inserts the row, and the others find it. -/
theorem get_upsertAll (h : actors.get actorKey = none) :
    (upsertAll newId actorKey actors (first :: rest)).get actorKey =
      some (rest.foldl update (insertion newId actorKey first)) := by
  have hfirst : (upsertActor newId actorKey actors first).1.get actorKey =
      some (insertion newId actorKey first) := by
    rw [get_upsertActor, h]
    rfl
  exact get_upsertAll_of_some hfirst rest

/-! ## What the updates leave -/

theorem lastSeenAtSource_update (h : row.lastSeenAtSource = some row.lastSeenAtIngest)
    (call : UpsertActorCall) :
    (row.update call).lastSeenAtSource = some (row.update call).lastSeenAtIngest := by
  simp only [update, h]
  split_ifs with hlt
  · rw [max_eq_right hlt.le]
  · rw [max_eq_left (not_lt.mp hlt)]

/-- The two last times stay one, and the first times, the source and the ids are never written. -/
theorem foldl_update (h : row.lastSeenAtSource = some row.lastSeenAtIngest)
    (calls : List UpsertActorCall) : calls.foldl update row = { row with
      currentHandle := calls.foldl (fun s c => (nonempty c.handle).or s) row.currentHandle
      currentDisplayName :=
        calls.foldl (fun s c => (nonempty c.displayName).or s) row.currentDisplayName
      isBotSelfDeclared := row.isBotSelfDeclared || calls.any UpsertActorCall.isBot
      lastSeenAtIngest := (calls.map UpsertActorCall.seenAt).foldl max row.lastSeenAtIngest
      lastSeenAtSource :=
        some ((calls.map UpsertActorCall.seenAt).foldl max row.lastSeenAtIngest) } := by
  induction calls generalizing row with
  | nil => simp [← h]
  | cons call calls ih =>
    rw [List.foldl_cons, ih (lastSeenAtSource_update h call)]
    simp [update, Bool.or_left_comm, Bool.or_assoc]

theorem foldl_name {name : UpsertActorCall → Option String} {s : Option String}
    (h : ∀ c ∈ calls, name c = s) : calls.foldl (fun s c => (nonempty (name c)).or s) s = s := by
  induction calls with
  | nil => rfl
  | cons call calls ih =>
    have hsame : (nonempty s).or s = s := by
      cases s with
      | none => rfl
      | some x => by_cases hx : x = "" <;> simp [nonempty, Option.filter, hx]
    rw [List.foldl_cons, h call List.mem_cons_self, hsame]
    exact ih fun c hc => h c (List.mem_cons_of_mem _ hc)

/-- The row that the calls leave when all of them carry one name. -/
theorem foldl_update_of_oneName (h : OneName (first :: rest)) :
    rest.foldl update (insertion newId actorKey first) = { insertion newId actorKey first with
      isBotSelfDeclared := (first :: rest).any UpsertActorCall.isBot
      lastSeenAtIngest := (rest.map UpsertActorCall.seenAt).foldl max first.seenAt
      lastSeenAtSource := ((first :: rest).map UpsertActorCall.seenAt).max? } := by
  have hname : ∀ c ∈ rest, c.handle = first.handle ∧ c.displayName = first.displayName :=
    fun c hc => h c (List.mem_cons_of_mem _ hc) first List.mem_cons_self
  rw [foldl_update rfl]
  simp only [insertion, foldl_name fun c hc => (hname c hc).1,
    foldl_name fun c hc => (hname c hc).2, List.any_cons, List.map_cons, List.max?_cons']

/-! ## When it was first seen -/

theorem min?_eq_head_iff : (some first.seenAt = ((first :: rest).map UpsertActorCall.seenAt).min?) ↔
    ∀ c ∈ rest, first.seenAt ≤ c.seenAt := by
  rw [eq_comm, List.min?_eq_some_iff]
  simp

/-- The row that the calls leave says when the actor was first seen exactly when the first call is
of the earliest time. The last time and the bot flag are always right. -/
theorem summarises_iff :
    (rest.foldl update (insertion newId actorKey first)).Summarises (first :: rest) ↔
      ∀ c ∈ rest, first.seenAt ≤ c.seenAt := by
  rw [← min?_eq_head_iff, foldl_update rfl]
  exact ⟨fun h => h.first, fun h => ⟨h, rfl, rfl⟩⟩

/-! ## Other orders -/

theorem OneName.perm (h : OneName calls) (hperm : calls'.Perm calls) : OneName calls' :=
  fun c hc d hd => h c (hperm.mem_iff.mp hc) d (hperm.mem_iff.mp hd)

/-- A call of the earliest time comes first in some chronological order. -/
theorem exists_chronological (hcall : call ∈ calls) (hle : ∀ c ∈ calls, call.seenAt ≤ c.seenAt) :
    ∃ rest, (call :: rest).Perm calls ∧ Chronological (call :: rest) := by
  let le : UpsertActorCall → UpsertActorCall → Bool := fun c d => decide (c.seenAt ≤ d.seenAt)
  have hsort : ((calls.erase call).mergeSort le).Perm (calls.erase call) := List.mergeSort_perm _ _
  have hpair : ((calls.erase call).mergeSort le).Pairwise fun c d => le c d = true :=
    List.pairwise_mergeSort
      (fun a b c hab hbc => decide_eq_true ((of_decide_eq_true hab).trans (of_decide_eq_true hbc)))
      (fun a b => by simpa [le] using le_total a.seenAt b.seenAt) (calls.erase call)
  refine ⟨(calls.erase call).mergeSort le, ?_, List.pairwise_cons.mpr ⟨fun c hc => ?_, ?_⟩⟩
  · exact (hsort.cons call).trans (List.perm_cons_erase hcall).symm
  · exact hle c (List.mem_of_mem_erase (hsort.mem_iff.mp hc))
  · exact hpair.imp of_decide_eq_true

/-- Orders of the same calls that begin at the same time and with the same source leave the same
row, when the calls carry one name. -/
theorem foldl_update_perm (hname : OneName (first :: rest))
    (hperm : (call :: calls).Perm (first :: rest)) (hseen : call.seenAt = first.seenAt)
    (hsource : call.sourceId = first.sourceId)
    (huserid : call.platformUserid = first.platformUserid) :
    calls.foldl update (insertion newId actorKey call) =
      rest.foldl update (insertion newId actorKey first) := by
  obtain ⟨hhandle, hdisplay⟩ := hname call (hperm.mem_iff.mp List.mem_cons_self) first
    List.mem_cons_self
  have hmax : ((call :: calls).map UpsertActorCall.seenAt).max? =
      ((first :: rest).map UpsertActorCall.seenAt).max? :=
    max?_congr fun _ => (hperm.map UpsertActorCall.seenAt).mem_iff
  have hlast : (calls.map UpsertActorCall.seenAt).foldl max call.seenAt =
      (rest.map UpsertActorCall.seenAt).foldl max first.seenAt := Option.some.inj hmax
  rw [foldl_update_of_oneName hname, foldl_update_of_oneName (hname.perm hperm),
    hmax, hperm.any_eq, hlast]
  simp only [insertion, hseen, hsource, huserid, hhandle, hdisplay]

/-- Every order of the calls leaves a row that summarises them, and one row when they carry one
name, exactly when they are all of one time, and of one source when they carry one name. -/
theorem every_order_iff (newId : Uuid) (actorKey : String) (first : UpsertActorCall)
    (rest : List UpsertActorCall) :
    (∀ call calls, (call :: calls).Perm (first :: rest) →
      (calls.foldl update (insertion newId actorKey call)).Summarises (call :: calls) ∧
      (OneName (first :: rest) → calls.foldl update (insertion newId actorKey call) =
        rest.foldl update (insertion newId actorKey first))) ↔
    ∀ c ∈ rest, c.seenAt = first.seenAt ∧
      (OneName (first :: rest) →
        c.sourceId = first.sourceId ∧ c.platformUserid = first.platformUserid) := by
  constructor
  · intro h c hc
    have hperm : (c :: (first :: rest).erase c).Perm (first :: rest) :=
      (List.perm_cons_erase (List.mem_cons_of_mem first hc)).symm
    obtain ⟨hsum, hrow⟩ := h c _ hperm
    have hfirst := summarises_iff.mp (h first rest (List.Perm.refl _)).1
    refine ⟨le_antisymm ?_ (hfirst c hc), fun hname => ?_⟩
    · rcases List.mem_cons.mp (hperm.mem_iff.mpr List.mem_cons_self) with heq | hmem
      · exact (congrArg UpsertActorCall.seenAt heq).ge
      · exact summarises_iff.mp hsum first hmem
    · have hsame := hrow hname
      rw [foldl_update rfl, foldl_update rfl] at hsame
      exact ⟨congrArg sourceId hsame, congrArg platformUserid hsame⟩
  · intro h call calls hperm
    have hseen : ∀ c ∈ call :: calls, c.seenAt = first.seenAt := fun c hc =>
      (List.mem_cons.mp (hperm.mem_iff.mp hc)).elim (fun heq => heq ▸ rfl) fun hmem => (h c hmem).1
    refine ⟨summarises_iff.mpr fun c hc => ?_, fun hname => ?_⟩
    · rw [hseen c (List.mem_cons_of_mem _ hc), hseen call List.mem_cons_self]
    · have hsource : call.sourceId = first.sourceId ∧
          call.platformUserid = first.platformUserid := by
        rcases List.mem_cons.mp (hperm.mem_iff.mp List.mem_cons_self) with rfl | hmem
        · exact ⟨rfl, rfl⟩
        · exact (h call hmem).2 hname
      exact foldl_update_perm hname hperm (hseen call List.mem_cons_self) hsource.1 hsource.2

/-- The calls leave the row that they are to leave, and leave in every chronological order, exactly
when no call is of an earlier time than the first, and those of its time have its source. -/
theorem upsert_actor_iff (newId : Uuid) (actorKey : String) (actors : Table ActorRow.actorKey)
    (hnew : actors.get actorKey = none) (first : UpsertActorCall) (rest : List UpsertActorCall) :
    (∃ row, (upsertAll newId actorKey actors (first :: rest)).get actorKey = some row ∧
      row.Summarises (first :: rest) ∧
      (OneName (first :: rest) → ∀ calls, calls.Perm (first :: rest) → Chronological calls →
        (upsertAll newId actorKey actors calls).get actorKey = some row)) ↔
    (∀ c ∈ rest, first.seenAt ≤ c.seenAt) ∧
      (OneName (first :: rest) → ∀ c ∈ rest, c.seenAt = first.seenAt →
        c.sourceId = first.sourceId ∧ c.platformUserid = first.platformUserid) := by
  rw [get_upsertAll hnew]
  constructor
  · rintro ⟨row, hrow, hsum, hany⟩
    obtain rfl := Option.some.inj hrow
    have hfirst := summarises_iff.mp hsum
    refine ⟨hfirst, fun hname c hc hseen => ?_⟩
    obtain ⟨later, hperm, hchron⟩ := exists_chronological (List.mem_cons_of_mem first hc)
      (fun d hd => hseen.le.trans ((List.mem_cons.mp hd).elim (fun h => h ▸ le_rfl) (hfirst d)))
    have hsame := hany hname _ hperm hchron
    rw [get_upsertAll hnew, Option.some.injEq, foldl_update rfl, foldl_update rfl] at hsame
    exact ⟨congrArg sourceId hsame, congrArg platformUserid hsame⟩
  · rintro ⟨hfirst, hsource⟩
    refine ⟨_, rfl, summarises_iff.mpr hfirst, fun hname calls hperm hchron => ?_⟩
    obtain _ | ⟨call, later⟩ := calls
    · exact absurd hperm.length_eq (by simp)
    · have hcall : call = first ∨ call ∈ rest :=
        List.mem_cons.mp (hperm.mem_iff.mp List.mem_cons_self)
      have hle : call.seenAt ≤ first.seenAt := by
        rcases List.mem_cons.mp (hperm.mem_iff.mpr List.mem_cons_self) with heq | hmem
        · exact (congrArg UpsertActorCall.seenAt heq).ge
        · exact List.rel_of_pairwise_cons hchron hmem
      have hsame : call.seenAt = first.seenAt ∧ call.sourceId = first.sourceId ∧
          call.platformUserid = first.platformUserid := by
        rcases hcall with rfl | hmem
        · exact ⟨rfl, rfl, rfl⟩
        · have hseen := le_antisymm hle (hfirst call hmem)
          exact ⟨hseen, hsource hname call hmem hseen⟩
      rw [get_upsertAll hnew, foldl_update_perm hname hperm hsame.1 hsame.2.1 hsame.2.2]

/-- A message that was sent at a time, by one sender. -/
def sentAt (seenAt : ℤ) : UpsertActorCall :=
  ⟨0, "17", some "@kestrel", some "Kestrel", seenAt, false⟩

theorem upsert_actor_two :
    ∃ row, (upsertAll 9 "actor:17" .empty [sentAt 20, sentAt 70]).get "actor:17" = some row ∧
      row.Summarises [sentAt 20, sentAt 70] ∧
      (OneName [sentAt 20, sentAt 70] → ∀ calls, calls.Perm [sentAt 20, sentAt 70] →
        Chronological calls → (upsertAll 9 "actor:17" .empty calls).get "actor:17" = some row) :=
  (upsert_actor_iff 9 "actor:17" .empty (by decide) (sentAt 20) [sentAt 70]).mpr
    ⟨by decide, fun _ => by decide⟩

/-- The backfill hands over an older message than the one that came live. -/
theorem backfilled_row_starts_late :
    ∃ row, (upsertAll 9 "actor:17" .empty [sentAt 70, sentAt 20]).get "actor:17" = some row ∧
      row.firstSeenAtSource = some 70 ∧
      ([sentAt 70, sentAt 20].map UpsertActorCall.seenAt).min? = some 20 ∧
      (upsertAll 9 "actor:17" .empty [sentAt 20, sentAt 70]).get "actor:17" ≠ some row :=
  ⟨_, rfl, by decide, by decide, by decide⟩

end ActorRow

end Eyenet
