import Eyenet.Calls
import Eyenet.Enums
import Eyenet.Machine
import Eyenet.Table

/-!
# Sightings of a message

`record_observation` (`sqlmodel_repo/memberships.py`) looks for the row of a message and a
collector; without one it inserts a row that claims the first sighting, and when the database
refuses that, one that does not. Each of the three is a transaction of its own. The primary key of
`message_observation` is the pair, and a generated column lets one row of a message claim the
first sighting (`models/membership.py`).

* `insertSighting_eq_some`, `insertSighting_eq_none` — what the two constraints say.
* `Sightings.lawful_iff_undisputed` — exactly when every interleaving of calls is right.
-/

namespace Eyenet

open Machine

/-! ## The table -/

/-- `MessageObservationRow` -/
structure MessageObservationRow where
  messageId : Uuid
  collectorId : Uuid
  observedAtIngest : ℤ
  wasFirstSighting : Bool
  deriving DecidableEq

/-- The primary key. -/
def MessageObservationRow.key (row : MessageObservationRow) : Uuid × Uuid :=
  (row.messageId, row.collectorId)

/-- `message_observation` -/
abbrev SightingTable := Table MessageObservationRow.key

/-- The row holds the `first_sighting_claim` of the message. -/
def MessageObservationRow.Claims (row : MessageObservationRow) (messageId : Uuid) : Prop :=
  row.messageId = messageId ∧ row.wasFirstSighting

instance (row : MessageObservationRow) (messageId : Uuid) : Decidable (row.Claims messageId) :=
  inferInstanceAs (Decidable (row.messageId = messageId ∧ row.wasFirstSighting))

/-- `INSERT`; `none` when the claim or the primary key is taken. -/
def insertSighting (t : SightingTable) (row : MessageObservationRow) : Option SightingTable :=
  if row.wasFirstSighting ∧ ∃ x ∈ t, x.Claims row.messageId then none else t.insert row

/-- The message has one row that claims its first sighting. -/
def HasFirst (t : SightingTable) (messageId : Uuid) : Prop :=
  ∃ first ∈ t, first.Claims messageId ∧ ∀ x ∈ t, x.Claims messageId → x = first

section Table

variable {t t' : SightingTable} {row x : MessageObservationRow} {m : Uuid}

theorem insertSighting_eq_some (h : insertSighting t row = some t') :
    (row.wasFirstSighting → ∀ x ∈ t, ¬ x.Claims row.messageId) ∧ t.insert row = some t' := by
  rw [insertSighting] at h
  split_ifs at h with hclaimed
  exact ⟨fun hfirst x hx hclaims => hclaimed ⟨hfirst, x, hx, hclaims⟩, h⟩

/-- A refusal means that the message has a row, and that of the pair when no claim was made. -/
theorem insertSighting_eq_none (h : insertSighting t row = none) :
    (∃ x ∈ t, x.messageId = row.messageId) ∧
      (row.wasFirstSighting = false → t.get row.key ≠ none) := by
  rw [insertSighting] at h
  split_ifs at h with hclaimed
  · obtain ⟨hfirst, x, hx, hclaims⟩ := hclaimed
    exact ⟨⟨x, hx, hclaims.1⟩, fun hsecond => absurd hfirst (by simp [hsecond])⟩
  · obtain ⟨x, hx, hkey⟩ := Table.exists_of_insert_eq_none h
    exact ⟨⟨x, hx, congrArg Prod.fst hkey⟩, fun _ => Table.get_ne_none_of_insert_eq_none h⟩

/-- The first sighting of a message is not lost by another insertion. -/
theorem HasFirst.insert (h : HasFirst t m) (hinsert : insertSighting t row = some t') :
    HasFirst t' m := by
  obtain ⟨hfree, hinsert⟩ := insertSighting_eq_some hinsert
  obtain ⟨first, hmem, hclaims, hunique⟩ := h
  refine ⟨first, (Table.mem_insert hinsert).mpr (Or.inl hmem), hclaims, fun x hx hxm => ?_⟩
  rcases (Table.mem_insert hinsert).mp hx with hx | rfl
  · exact hunique x hx hxm
  · obtain ⟨rfl, hfirst⟩ := hxm
    exact absurd hclaims (hfree hfirst first hmem)

/-- A claim that goes through is the first sighting. -/
theorem hasFirst_of_claim (hfirst : row.wasFirstSighting)
    (hinsert : insertSighting t row = some t') : HasFirst t' row.messageId := by
  obtain ⟨hfree, hinsert⟩ := insertSighting_eq_some hinsert
  refine ⟨row, (Table.mem_insert hinsert).mpr (Or.inr rfl), ⟨rfl, hfirst⟩, fun x hx hxm => ?_⟩
  rcases (Table.mem_insert hinsert).mp hx with hx | rfl
  · exact absurd hxm (hfree hfirst x hx)
  · rfl

end Table

/-! ## Calls -/

/-- The arguments of a call. -/
structure SightingCall where
  messageId : Uuid
  collectorId : Uuid
  observedAtIngest : ℤ
  deriving DecidableEq

/-- The row that the call inserts. -/
def SightingCall.row (call : SightingCall) (wasFirstSighting : Bool) : MessageObservationRow :=
  ⟨call.messageId, call.collectorId, call.observedAtIngest, wasFirstSighting⟩

/-- Where a call stands. -/
inductive SightingPhase where
  | called (call : SightingCall)
  /-- the pair had no row -/
  | missed (call : SightingCall)
  /-- the claim was refused -/
  | outrun (call : SightingCall)
  | returned (call : SightingCall) (row : MessageObservationRow)
  /-- the second insertion was refused, too -/
  | raised (call : SightingCall)
  deriving DecidableEq

/-- The table and the calls. -/
structure Sightings where
  rows : SightingTable
  calls : Calls SightingPhase

namespace Sightings

/-- One step of a call. -/
inductive Step where
  | call (r : ℕ) (call : SightingCall)
  /-- the lookup of the pair -/
  | lookup (r : ℕ)
  /-- the insertion with `was_first_sighting=True` -/
  | claim (r : ℕ)
  /-- the insertion with `was_first_sighting=False` -/
  | insertSecond (r : ℕ)

/-- No message was seen. -/
def init : Sightings := ⟨.empty, []⟩

/-- A call moves on. -/
def put (s : Sightings) (r : ℕ) (p : SightingPhase) : Sightings :=
  { s with calls := s.calls.put r p }

/-- One step of `record_observation`; a label that does not fit changes nothing. -/
def step (s : Sightings) : Step → Option Sightings
  | .call r call =>
    match s.calls.phase r with
    | none => some (s.put r (.called call))
    | some _ => some s
  | .lookup r =>
    match s.calls.phase r with
    | some (.called call) =>
      match s.rows.get (call.messageId, call.collectorId) with
      | some extant => some (s.put r (.returned call extant))
      | none => some (s.put r (.missed call))
    | _ => some s
  | .claim r =>
    match s.calls.phase r with
    | some (.missed call) =>
      match insertSighting s.rows (call.row true) with
      | some rows => some { s.put r (.returned call (call.row true)) with rows }
      | none => some (s.put r (.outrun call))
    | _ => some s
  | .insertSecond r =>
    match s.calls.phase r with
    | some (.outrun call) =>
      match insertSighting s.rows (call.row false) with
      | some rows => some { s.put r (.returned call (call.row false)) with rows }
      | none => some (s.put r (.raised call))
    | _ => some s

/-- Every message that was seen has one first sighting, every call that returned has the one row
of its pair, and no call has failed. -/
structure Lawful (s : Sightings) : Prop where
  oneFirst : ∀ x ∈ s.rows, HasFirst s.rows x.messageId
  oneRow : ∀ {r call row}, s.calls.phase r = some (.returned call row) →
    s.rows.get (call.messageId, call.collectorId) = some row
  succeeds : ∀ {r call}, s.calls.phase r ≠ some (.raised call)

/-- No call that lost the claim finds that its own pair has a row by now. -/
def Undisputed (s : Sightings) : Step → Prop
  | .insertSecond r => ∀ call, s.calls.phase r = some (.outrun call) →
    s.rows.get (call.messageId, call.collectorId) = none
  | _ => True

/-! ## The invariant -/

/-- What a call has done is in the table. -/
def Recorded (rows : SightingTable) : SightingPhase → Prop
  | .called _ | .missed _ => True
  | .outrun call => ∃ x ∈ rows, x.messageId = call.messageId
  | .returned call row => rows.get (call.messageId, call.collectorId) = some row
  | .raised _ => False

/-- The table and the calls agree. -/
structure Inv (s : Sightings) : Prop where
  oneFirst : ∀ x ∈ s.rows, HasFirst s.rows x.messageId
  recorded : ∀ {r p}, s.calls.phase r = some p → Recorded s.rows p

section Invariant

variable {s s' : Sightings} {a : Step} {r : ℕ} {p : SightingPhase}

theorem inv_init : init.Inv where
  oneFirst x hx := absurd hx (Table.not_mem_empty x)
  recorded h := by cases h

theorem Inv.lawful (h : s.Inv) : s.Lawful where
  oneFirst := h.oneFirst
  oneRow hphase := h.recorded hphase
  succeeds hphase := h.recorded hphase

theorem Inv.put (h : s.Inv) (hp : Recorded s.rows p) : (s.put r p).Inv where
  oneFirst := h.oneFirst
  recorded := by
    intro r' p' hphase
    rw [Sightings.put, Calls.phase_put] at hphase
    split at hphase
    · cases hphase
      exact hp
    · exact h.recorded hphase

/-- An insertion takes nothing back. -/
theorem Recorded.insert {rows rows' : SightingTable} {row : MessageObservationRow}
    (h : Recorded rows p) (hinsert : insertSighting rows row = some rows') :
    Recorded rows' p := by
  obtain ⟨-, hinsert⟩ := insertSighting_eq_some hinsert
  cases p with
  | called call | missed call => trivial
  | outrun call =>
    obtain ⟨x, hx, hm⟩ := h
    exact ⟨x, (Table.mem_insert hinsert).mpr (Or.inl hx), hm⟩
  | returned call found =>
    obtain ⟨hmem, hkey⟩ := Table.get_eq_some.mp h
    exact Table.get_eq_some.mpr ⟨(Table.mem_insert hinsert).mpr (Or.inl hmem), hkey⟩
  | raised call => exact h

/-- An insertion for a message that is claimed by now. -/
theorem Inv.insert {rows : SightingTable} {call : SightingCall} {first : Bool} (h : s.Inv)
    (hinsert : insertSighting s.rows (call.row first) = some rows)
    (hfirst : HasFirst rows call.messageId) :
    Inv { s.put r (.returned call (call.row first)) with rows } where
  oneFirst x hx := by
    rcases (Table.mem_insert (insertSighting_eq_some hinsert).2).mp hx with hx | rfl
    · exact (h.oneFirst x hx).insert hinsert
    · exact hfirst
  recorded := by
    intro r' p' hphase
    rw [Sightings.put, Calls.phase_put] at hphase
    split at hphase
    · cases hphase
      have hmem := (Table.mem_insert (insertSighting_eq_some hinsert).2).mpr (Or.inr rfl)
      exact Table.get_eq_some.mpr ⟨hmem, rfl⟩
    · exact (h.recorded hphase).insert hinsert

/-- **Step lemma.** A step that no other call disputes keeps the invariant. -/
theorem Inv.step (h : s.Inv) (hundisputed : Undisputed s a) (hstep : s.step a = some s') :
    s'.Inv := by
  cases a with
  | call r call =>
    simp only [Sightings.step] at hstep
    split at hstep <;> cases hstep
    · exact h.put trivial
    · exact h
  | lookup r =>
    simp only [Sightings.step] at hstep
    split at hstep
    · split at hstep <;> cases hstep
      · next hget => exact h.put hget
      · exact h.put trivial
    · cases hstep
      exact h
  | claim r =>
    simp only [Sightings.step] at hstep
    split at hstep
    · split at hstep <;> cases hstep
      · next hinsert => exact h.insert hinsert (hasFirst_of_claim rfl hinsert)
      · next hrefused => exact h.put (insertSighting_eq_none hrefused).1
    · cases hstep
      exact h
  | insertSecond r =>
    simp only [Sightings.step] at hstep
    split at hstep
    · next call hphase =>
      split at hstep <;> cases hstep
      · next hinsert =>
        -- the message had a row already, and so a first sighting
        obtain ⟨x, hx, hm⟩ := h.recorded hphase
        exact h.insert hinsert (hm ▸ (h.oneFirst x hx).insert hinsert)
      · next hrefused =>
        exact absurd (hundisputed call hphase) ((insertSighting_eq_none hrefused).2 rfl)
    · cases hstep
      exact h

/-- A disputed insertion raises. -/
theorem undisputed_of_lawful (hstep : s.step a = some s') (h : s'.Lawful) : Undisputed s a := by
  cases a with
  | insertSecond r =>
    intro call hphase
    by_contra htaken
    simp only [step, hphase] at hstep
    split at hstep <;> cases hstep
    · next hinsert =>
      exact htaken (Table.insert_eq_some (insertSighting_eq_some hinsert).2).1
    · exact h.succeeds Calls.phase_put_self
  | _ => exact trivial

theorem exists_step (s : Sightings) (a : Step) : ∃ s', s.step a = some s' := by
  cases a <;> simp only [step] <;> repeat' first | exact ⟨_, rfl⟩ | split

end Invariant

/-- **Sightings.** Over every interleaving of calls, each pair has one row, each message has one
first sighting and no call fails exactly when no call that lost the claim finds a row of its own
pair, which another call for the same pair must have inserted since the lookup. -/
theorem lawful_iff_undisputed (as : List Step) :
    Throughout step Lawful init as ↔ Along step Undisputed init as := by
  obtain ⟨s, hrun⟩ := exists_run exists_step init as
  exact throughout_iff_along (fun h => Inv.lawful h) (fun h hu hs => Inv.step h hu hs)
    (fun _ hs h => undisputed_of_lawful hs h) inv_init hrun

/-- One collector reports one message twice at a time: the second report raises. -/
theorem second_report_raises :
    ∃ s, run step init [.call 1 ⟨5, 7, 0⟩, .call 2 ⟨5, 7, 0⟩, .lookup 1, .lookup 2, .claim 1,
        .claim 2, .insertSecond 2] = some s ∧
      s.calls.phase 2 = some (.raised ⟨5, 7, 0⟩) := by
  decide

end Sightings

end Eyenet
