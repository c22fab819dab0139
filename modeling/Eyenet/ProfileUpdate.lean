import Eyenet.Calls
import Eyenet.Machine
import Eyenet.Observation
import Mathlib.Data.List.AList

/-!
# Profile updates

For each observation the engine reads the actor's current profile, patches one slot of it, and, if
that differs, stores the result as the next version and the current one (`engine/engine.py`,
`sqlmodel_repo/profiles.py`). The read and the store are transactions of their own, and every
observation has a task of its own. The recipes that give an actor a role are a parameter.

* `ProfileEngine.versioned_iff_upToDate` — the versions of an actor count up exactly when every
  stored profile was made from the one that it replaces.
* `ProfileEngine.no_update_lost` — and then no observation is lost, if its value is not falsy.
-/

namespace Eyenet

open Machine

/-! ## Profiles -/

/-- A summary of a profile: slots by their keys. -/
abbrev Summary := AList fun _ : String => ProfileSlot

/-- `ProfileRow` -/
structure ProfileRow where
  id : Uuid
  actorId : Uuid
  version : ℕ
  isCurrent : Bool
  roleSignal : Option String
  roleConfidence : ℚ
  summaries : SummaryBlock → Summary
  derivedAt : ℤ
  derivedFromObservationCount : ℕ

/-- A slot of a profile. -/
def ProfileRow.slot (profile : ProfileRow) (block : SummaryBlock) (key : String) :
    Option ProfileSlot :=
  (profile.summaries block).lookup key

/-- The summaries of the previous profile, or empty ones. -/
def previousSummaries (prev : Option ProfileRow) : SummaryBlock → Summary :=
  match prev with
  | none => fun _ => ∅
  | some prev => prev.summaries

/-- The version of a profile; zero if there is none. -/
def versionOf (profile : Option ProfileRow) : ℕ := profile.elim 0 ProfileRow.version

/-- `summaries[block_name][slot_key] = slot_dict` -/
def patchSlot (summaries : SummaryBlock → Summary) (m : SlotMapping) (slot : ProfileSlot) :
    SummaryBlock → Summary :=
  Function.update summaries m.blockName ((summaries m.blockName).insert m.slotKey slot)

/-- `_build_next_profile` -/
def buildNextProfile (prev : Option ProfileRow) (actorId : Uuid) (m : SlotMapping) (newId : Uuid)
    (now : ℤ) : ProfileRow :=
  let count := prev.elim 1 fun p => p.derivedFromObservationCount + 1
  { id := newId
    actorId := actorId
    version := versionOf prev + 1
    isCurrent := false
    roleSignal := prev.bind ProfileRow.roleSignal
    roleConfidence := prev.elim 0 ProfileRow.roleConfidence
    summaries := patchSlot (previousSummaries prev) m
      { m.slotDict with derivedFromObservationCount := count }
    derivedAt := now
    derivedFromObservationCount := count }

/-- The role that the recipes give the actor, if they give one. -/
def withRole (pickWinner : ProfileRow → ℕ → Option (String × ℚ)) (profile : ProfileRow) :
    ProfileRow :=
  match pickWinner profile profile.derivedFromObservationCount with
  | none => profile
  | some (signal, confidence) =>
    { profile with roleSignal := some signal, roleConfidence := confidence }

/-- The blocks in the order in which they are compared. -/
def SummaryBlock.all : List SummaryBlock :=
  [.stylometric, .lexical, .temporal, .interaction, .network, .content]

/-- `_materially_differs` -/
def materiallyDiffers (prev : Option ProfileRow) (new : ProfileRow) : Bool :=
  match prev with
  | none => true
  | some prev =>
    prev.roleSignal ≠ new.roleSignal || SummaryBlock.all.any fun block =>
      (new.summaries block).entries.any fun e =>
        e.2.value ≠ (prev.slot block e.1).bind ProfileSlot.value

/-- The first current profile of the actor is no longer current. -/
def unsetCurrent (actorId : Uuid) : List ProfileRow → List ProfileRow
  | [] => []
  | row :: rows =>
    if row.actorId = actorId ∧ row.isCurrent then { row with isCurrent := false } :: rows
    else row :: unsetCurrent actorId rows

/-- `get_current_profile` -/
def getCurrentProfile (rows : List ProfileRow) (actorId : Uuid) : Option ProfileRow :=
  rows.find? fun row => row.actorId = actorId ∧ row.isCurrent

/-- `upsert_current_profile` -/
def upsertCurrentProfile (rows : List ProfileRow) (row : ProfileRow) : List ProfileRow :=
  unsetCurrent row.actorId rows ++ [{ row with isCurrent := true }]

/-! ## Tasks -/

/-- Where the update for an observation stands. -/
inductive ProfilePhase where
  /-- the current profile is to be read -/
  | reading (row : ObservationRow) (m : SlotMapping)
  /-- the candidate is being published -/
  | announcing (row : ObservationRow) (m : SlotMapping) (prev : Option ProfileRow)
      (new : ProfileRow)
  | saving (row : ObservationRow) (m : SlotMapping) (prev : Option ProfileRow) (new : ProfileRow)
  | finished (row : ObservationRow)

namespace ProfilePhase

/-- The observation. -/
def row : ProfilePhase → ObservationRow
  | reading row _ => row
  | announcing row _ _ _ => row
  | saving row _ _ _ => row
  | finished row => row

/-- The slot that the task is on, until it has finished. -/
def slot : ProfilePhase → Option SlotMapping
  | reading _ m => some m
  | announcing _ m _ _ => some m
  | saving _ m _ _ => some m
  | finished _ => none

/-- The profile that was read, and the one made from it. -/
def update : ProfilePhase → Option (Option ProfileRow × ProfileRow)
  | announcing _ _ prev new => some (prev, new)
  | saving _ _ prev new => some (prev, new)
  | _ => none

end ProfilePhase

/-- An observation that the engine handles, with its task and its slot. -/
structure Handled where
  task : ℕ
  row : ObservationRow
  mapping : SlotMapping

/-- The profile table and the tasks. The last two fields record the observations that map to a
slot, and what each stored profile replaced. -/
structure ProfileEngine where
  rows : List ProfileRow
  tasks : Calls ProfilePhase
  handled : List Handled
  replacements : List (Option ProfileRow × ProfileRow)

namespace ProfileEngine

/-- One step of a task. -/
inductive Step where
  | start (task : ℕ) (row : ObservationRow) (envelopeSource : Option String)
  | read (task : ℕ) (newId : Uuid) (now : ℤ)
  | announce (task : ℕ)
  | save (task : ℕ)

/-- Before any task. -/
def init : ProfileEngine := ⟨[], [], [], []⟩

variable (pickWinner : ProfileRow → ℕ → Option (String × ℚ))

/-- One step of a task; a label that does not fit changes nothing. -/
def step (s : ProfileEngine) : Step → Option ProfileEngine
  | .start task row envelopeSource =>
    match s.tasks.phase task with
    | some _ => some s
    | none =>
      match observationToSlot row envelopeSource with
      | none => some { s with tasks := s.tasks.put task (.finished row) }
      | some m =>
        some { s with
          tasks := s.tasks.put task (.reading row m)
          handled := ⟨task, row, m⟩ :: s.handled }
  | .read task newId now =>
    match s.tasks.phase task with
    | some (.reading row m) =>
      let prev := getCurrentProfile s.rows row.actorId
      let new := buildNextProfile prev row.actorId m newId now
      some { s with tasks := s.tasks.put task (.announcing row m prev new) }
    | _ => some s
  | .announce task =>
    match s.tasks.phase task with
    | some (.announcing row m prev new) =>
      let new := withRole pickWinner new
      if materiallyDiffers prev new then
        some { s with tasks := s.tasks.put task (.saving row m prev new) }
      else some { s with tasks := s.tasks.put task (.finished row) }
    | _ => some s
  | .save task =>
    match s.tasks.phase task with
    | some (.saving row _ _ new) =>
      some { s with
        rows := upsertCurrentProfile s.rows new
        tasks := s.tasks.put task (.finished row)
        replacements := (getCurrentProfile s.rows new.actorId, new) :: s.replacements }
    | _ => some s

variable {pickWinner} {s s' : ProfileEngine} {a : Step} {actorId : Uuid}

/-! ## Histories -/

/-- The profiles of an actor, as they were stored. -/
def history (s : ProfileEngine) (actorId : Uuid) : List ProfileRow :=
  s.rows.filter fun row => row.actorId = actorId

/-- The current profile of an actor. -/
def current (s : ProfileEngine) (actorId : Uuid) : Option ProfileRow :=
  getCurrentProfile s.rows actorId

/-- The last profile is current, and no other. -/
def LastCurrent (profiles : List ProfileRow) : Prop :=
  profiles = [] ∨ ∃ old last, profiles = old ++ [last] ∧ last.isCurrent = true ∧
    ∀ row ∈ old, row.isCurrent = false

theorem filter_unsetCurrent (rows : List ProfileRow) (actorId other : Uuid) :
    (unsetCurrent actorId rows).filter (fun row => row.actorId = other) =
      if other = actorId then unsetCurrent actorId (rows.filter fun row => row.actorId = actorId)
      else rows.filter fun row => row.actorId = other := by
  induction rows with
  | nil => simp [unsetCurrent]
  | cons row rows ih =>
    rw [unsetCurrent]
    by_cases hrow : row.actorId = actorId
    · by_cases hcurrent : row.isCurrent = true
      · rw [if_pos ⟨hrow, hcurrent⟩]
        by_cases hother : other = actorId
        · subst hother
          simp [hrow, hcurrent, unsetCurrent]
        · have hne : row.actorId ≠ other := fun h => hother (h.symm.trans hrow)
          simp [hne, hother]
      · rw [if_neg fun h => hcurrent h.2]
        by_cases hother : other = actorId
        · subst hother
          simp only [if_pos, decide_true, List.filter_cons, hrow] at ih ⊢
          rw [ih, unsetCurrent, if_neg fun h => hcurrent h.2]
        · have hne : row.actorId ≠ other := fun h => hother (h.symm.trans hrow)
          simp only [if_neg hother, List.filter_cons, hne, decide_false] at ih ⊢
          exact ih
    · rw [if_neg fun h => hrow h.1]
      by_cases hother : other = actorId
      · subst hother
        simp only [if_pos, List.filter_cons, hrow, decide_false] at ih ⊢
        exact ih
      · simp only [if_neg hother, List.filter_cons] at ih ⊢
        rw [ih]

/-- Where only the last profile is current, it is the one that is unset. -/
theorem unsetCurrent_last {old : List ProfileRow} {last : ProfileRow}
    (hactor : last.actorId = actorId) (hlast : last.isCurrent = true)
    (hold : ∀ row ∈ old, row.isCurrent = false) :
    unsetCurrent actorId (old ++ [last]) = old ++ [{ last with isCurrent := false }] := by
  induction old with
  | nil => simp [unsetCurrent, hactor, hlast]
  | cons row old ih =>
    obtain ⟨hrow, hrest⟩ := List.forall_mem_cons.mp hold
    rw [List.cons_append, unsetCurrent, if_neg (by simp [hrow]), ih hrest, List.cons_append]

/-- What does not change when a profile is no longer current. -/
def core (profile : ProfileRow) : ℕ × (SummaryBlock → Summary) :=
  (profile.version, profile.summaries)

/-- A stored profile comes last in the history of its actor, and the others stay. -/
theorem history_upsert {rows : List ProfileRow} {new : ProfileRow}
    (h : LastCurrent (rows.filter fun row => row.actorId = new.actorId)) :
    ∃ old, (upsertCurrentProfile rows new).filter (fun row => row.actorId = new.actorId) =
        old ++ [{ new with isCurrent := true }] ∧
      (∀ row ∈ old, row.isCurrent = false) ∧
        old.map core = (rows.filter fun row => row.actorId = new.actorId).map core := by
  rw [upsertCurrentProfile, List.filter_append, filter_unsetCurrent, if_pos rfl]
  have hnew : [{ new with isCurrent := true }].filter (fun row => row.actorId = new.actorId) =
      [{ new with isCurrent := true }] := by simp
  rw [hnew]
  rcases h with hnil | ⟨old, last, hold, hlast, hothers⟩
  · rw [hnil]
    exact ⟨[], rfl, by rintro _ ⟨⟩, rfl⟩
  · have hmem : last ∈ rows.filter fun row => row.actorId = new.actorId := by
      rw [hold]
      exact List.mem_append_right _ (List.mem_singleton_self _)
    have hactor : last.actorId = new.actorId := by simpa using (List.mem_filter.mp hmem).2
    rw [hold, unsetCurrent_last hactor hlast hothers]
    refine ⟨old ++ [{ last with isCurrent := false }], rfl, fun row hrow => ?_, ?_⟩
    · rcases List.mem_append.mp hrow with hrow | hrow
      · exact hothers row hrow
      · obtain rfl := List.mem_singleton.mp hrow
        rfl
    · rw [List.map_append, List.map_append]
      rfl

/-- A stored profile is the current one. -/
theorem current_upsert {rows : List ProfileRow} {new : ProfileRow}
    (h : LastCurrent (rows.filter fun row => row.actorId = new.actorId)) :
    getCurrentProfile (upsertCurrentProfile rows new) new.actorId =
      some { new with isCurrent := true } := by
  obtain ⟨old, hold, hothers, -⟩ := history_upsert h
  have hnone : old.find? ProfileRow.isCurrent = none := by
    rw [List.find?_eq_none]
    intro row hrow
    simp [hothers row hrow]
  have hfind : getCurrentProfile (upsertCurrentProfile rows new) new.actorId =
      ((upsertCurrentProfile rows new).filter fun row => row.actorId = new.actorId).find?
        ProfileRow.isCurrent := by
    rw [getCurrentProfile, List.find?_filter]
    congr 1
    funext row
    simp
  rw [hfind, hold, List.find?_append, hnone]
  rfl

/-- A stored profile leaves the histories of other actors alone. -/
theorem history_upsert_of_ne {rows : List ProfileRow} {new : ProfileRow}
    (h : actorId ≠ new.actorId) :
    (upsertCurrentProfile rows new).filter (fun row => row.actorId = actorId) =
      rows.filter fun row => row.actorId = actorId := by
  have hne : new.actorId ≠ actorId := fun heq => h heq.symm
  rw [upsertCurrentProfile, List.filter_append, filter_unsetCurrent, if_neg h]
  simp [hne]

theorem current_eq_find (s : ProfileEngine) (actorId : Uuid) :
    s.current actorId = (s.history actorId).find? ProfileRow.isCurrent := by
  rw [current, getCurrentProfile, history, List.find?_filter]
  congr 1
  funext row
  simp

/-- The current profile is the last one. -/
theorem current_eq_getLast (h : LastCurrent (s.history actorId)) :
    s.current actorId = (s.history actorId).getLast? := by
  rw [current_eq_find]
  rcases h with hnil | ⟨old, last, hhistory, hlast, hold⟩
  · rw [hnil]
    rfl
  · rw [hhistory, List.getLast?_append, List.find?_append]
    have hnone : old.find? ProfileRow.isCurrent = none := by
      rw [List.find?_eq_none]
      intro row hrow
      simp [hold row hrow]
    simp [hnone, hlast]

/-! ## What holds of every run -/

/-- The profile was made from the one that was read, for the slot. -/
structure Built (row : ObservationRow) (m : SlotMapping) (prev : Option ProfileRow)
    (new : ProfileRow) : Prop where
  actorId : new.actorId = row.actorId
  version : new.version = versionOf prev + 1
  summaries : ∃ slot : ProfileSlot, slot.value = m.slotDict.value ∧
    new.summaries = patchSlot (previousSummaries prev) m slot

theorem built_buildNextProfile (row : ObservationRow) (m : SlotMapping)
    (prev : Option ProfileRow) (newId : Uuid) (now : ℤ) :
    Built row m prev (buildNextProfile prev row.actorId m newId now) := by
  refine ⟨rfl, rfl, { m.slotDict with derivedFromObservationCount := ?_ }, rfl, ?_⟩
  · exact prev.elim 1 fun p => p.derivedFromObservationCount + 1
  · rfl

/-- A role leaves the rest of the profile alone. -/
theorem Built.withRole {row : ObservationRow} {m : SlotMapping} {prev : Option ProfileRow}
    {new : ProfileRow} (h : Built row m prev new) : Built row m prev (withRole pickWinner new) := by
  rw [Eyenet.withRole]
  split
  · exact h
  · exact ⟨h.actorId, h.version, h.summaries⟩

/-- What holds in any interleaving. -/
structure Inv (s : ProfileEngine) : Prop where
  lastCurrent : ∀ actorId, LastCurrent (s.history actorId)
  updates : ∀ task p prev new, s.tasks.phase task = some p → p.update = some (prev, new) →
    ∃ m, p.slot = some m ∧ Built p.row m prev new
  handled : ∀ task p m, s.tasks.phase task = some p → p.slot = some m →
    ⟨task, p.row, m⟩ ∈ s.handled

theorem inv_init : init.Inv where
  lastCurrent _ := Or.inl rfl
  updates _ _ _ _ h := by cases h
  handled _ _ _ h := by cases h

/-- A task goes on. -/
theorem Inv.put (h : s.Inv) {task : ℕ} {p : ProfilePhase} {handled : List Handled}
    (hle : s.handled ⊆ handled)
    (hupdate : ∀ prev new, p.update = some (prev, new) →
      ∃ m, p.slot = some m ∧ Built p.row m prev new)
    (hhandled : ∀ m, p.slot = some m → ⟨task, p.row, m⟩ ∈ handled) :
    Inv { s with tasks := s.tasks.put task p, handled := handled } := by
  refine ⟨h.lastCurrent, fun t q prev new hq hnew => ?_, fun t q m hq hm => ?_⟩
  · change (s.tasks.put task p).phase t = some q at hq
    rw [Calls.phase_put] at hq
    split_ifs at hq
    · obtain rfl := Option.some.inj hq
      exact hupdate prev new hnew
    · exact h.updates t q prev new hq hnew
  · change (s.tasks.put task p).phase t = some q at hq
    rw [Calls.phase_put] at hq
    split_ifs at hq with ht
    · obtain rfl := Option.some.inj hq
      exact ht ▸ hhandled m hm
    · exact hle (h.handled t q m hq hm)

/-- A profile is stored by a task that ends with it. -/
theorem Inv.store (h : s.Inv) {task : ℕ} {row : ObservationRow} {new : ProfileRow}
    {replacements : List (Option ProfileRow × ProfileRow)} :
    Inv { s with
      rows := upsertCurrentProfile s.rows new
      tasks := s.tasks.put task (.finished row)
      replacements := replacements } := by
  have hput : Inv { s with tasks := s.tasks.put task (.finished row), handled := s.handled } :=
    h.put (List.Subset.refl s.handled) (by rintro _ _ ⟨⟩) (by rintro _ ⟨⟩)
  refine ⟨fun actorId => ?_, hput.updates, hput.handled⟩
  by_cases hactor : actorId = new.actorId
  · subst hactor
    obtain ⟨old, hold, hothers, -⟩ := history_upsert (h.lastCurrent new.actorId)
    exact Or.inr ⟨old, _, hold, rfl, hothers⟩
  · have hsame : (upsertCurrentProfile s.rows new).filter (fun row => row.actorId = actorId) =
        s.rows.filter fun row => row.actorId = actorId := history_upsert_of_ne hactor
    rw [history, hsame]
    exact h.lastCurrent actorId

theorem Inv.step (h : s.Inv) (hstep : step pickWinner s a = some s') : s'.Inv := by
  cases a with
  | start task row envelopeSource =>
    simp only [ProfileEngine.step] at hstep
    split at hstep
    · obtain rfl := Option.some.inj hstep
      exact h
    split at hstep <;> obtain rfl := Option.some.inj hstep
    · exact h.put (List.Subset.refl _) (by rintro _ _ ⟨⟩) (by rintro _ ⟨⟩)
    · refine h.put (List.subset_cons_self _ _) (by rintro _ _ ⟨⟩) fun m' hm' => ?_
      obtain rfl := Option.some.inj hm'
      exact List.mem_cons_self
  | read task newId now =>
    simp only [ProfileEngine.step] at hstep
    split at hstep <;> obtain rfl := Option.some.inj hstep
    · next row m hphase =>
      refine h.put (List.Subset.refl _) (fun prev new hnew => ?_) fun m' hm' => ?_
      · obtain ⟨rfl, rfl⟩ := Prod.mk.inj (Option.some.inj hnew)
        exact ⟨m, rfl, built_buildNextProfile row m _ newId now⟩
      · have hmem := h.handled task _ m' hphase hm'
        exact hmem
    · exact h
  | announce task =>
    simp only [ProfileEngine.step] at hstep
    split at hstep
    · next row m prev new hphase =>
      obtain ⟨m', hm', hbuilt⟩ := h.updates task _ prev new hphase rfl
      obtain rfl := Option.some.inj hm'
      split_ifs at hstep <;> obtain rfl := Option.some.inj hstep
      · refine h.put (List.Subset.refl _) (fun prev' new' hnew => ?_) fun m' hm' => ?_
        · obtain ⟨rfl, rfl⟩ := Prod.mk.inj (Option.some.inj hnew)
          exact ⟨m, rfl, hbuilt.withRole⟩
        · have hmem := h.handled task _ m' hphase hm'
          exact hmem
      · exact h.put (List.Subset.refl _) (by rintro _ _ ⟨⟩) (by rintro _ ⟨⟩)
    · obtain rfl := Option.some.inj hstep
      exact h
  | save task =>
    simp only [ProfileEngine.step] at hstep
    split at hstep <;> obtain rfl := Option.some.inj hstep
    · exact h.store
    · exact h

/-! ## Versions -/

/-- An actor with profiles has one that is current; its versions count up from one, and each is one
more than that of the profile that it replaced. -/
structure Versioned (actorId : Uuid) (s : ProfileEngine) : Prop where
  current : s.history actorId = [] ∨
    ((s.history actorId).filter ProfileRow.isCurrent).length = 1
  versions : (s.history actorId).map ProfileRow.version =
    (List.range (s.history actorId).length).map (· + 1)
  replaced : ∀ x ∈ s.replacements, x.2.actorId = actorId → x.2.version = versionOf x.1 + 1

/-- A profile is stored while the version that its task read is the current one. -/
def UpToDate (actorId : Uuid) (s : ProfileEngine) : Step → Prop
  | .save task => ∀ row m prev new, s.tasks.phase task = some (.saving row m prev new) →
      row.actorId = actorId → versionOf (s.current actorId) = versionOf prev
  | _ => True

theorem current_of_lastCurrent {profiles : List ProfileRow} (h : LastCurrent profiles) :
    profiles = [] ∨ (profiles.filter ProfileRow.isCurrent).length = 1 := by
  rcases h with hnil | ⟨old, last, rfl, hlast, hold⟩
  · exact Or.inl hnil
  · have hnone : old.filter ProfileRow.isCurrent = [] := by
      rw [List.filter_eq_nil_iff]
      intro row hrow
      simp [hold row hrow]
    refine Or.inr ?_
    rw [List.filter_append, hnone]
    simp [hlast]

/-- The version of the current profile is the number of the profiles. -/
theorem Versioned.versionOf_current (h : s.Versioned actorId)
    (hlast : LastCurrent (s.history actorId)) :
    versionOf (s.current actorId) = (s.history actorId).length := by
  rw [current_eq_getLast hlast]
  have hversions := congrArg List.getLast? h.versions
  rw [List.getLast?_map, List.getLast?_map, List.getLast?_range] at hversions
  cases hget : (s.history actorId).getLast? with
  | none => simp [versionOf, List.getLast?_eq_none_iff.mp hget]
  | some last =>
    rw [hget] at hversions
    split_ifs at hversions with hlength
    · cases hversions
    · have hversion : last.version = (s.history actorId).length - 1 + 1 :=
        Option.some.inj hversions
      rw [versionOf, Option.elim_some, hversion]
      omega

/-- A step that stores nothing for the actor changes nothing of its versions. -/
theorem Versioned.of_history (h : s.Versioned actorId)
    (hhistory : s'.history actorId = s.history actorId)
    (hreplacements : ∀ x ∈ s'.replacements, x.2.actorId = actorId → x ∈ s.replacements) :
    s'.Versioned actorId where
  current := hhistory ▸ h.current
  versions := hhistory ▸ h.versions
  replaced x hx hactor := h.replaced x (hreplacements x hx hactor) hactor

theorem versioned_save_iff (hinv : s.Inv) (h : s.Versioned actorId) {task : ℕ}
    {row : ObservationRow} {m : SlotMapping} {prev : Option ProfileRow} {new : ProfileRow}
    (hphase : s.tasks.phase task = some (.saving row m prev new)) (hactor : row.actorId = actorId) :
    Versioned actorId { s with
        rows := upsertCurrentProfile s.rows new
        tasks := s.tasks.put task (.finished row)
        replacements := (getCurrentProfile s.rows new.actorId, new) :: s.replacements } ↔
      versionOf (s.current actorId) = versionOf prev := by
  obtain ⟨m', -, hbuilt⟩ := hinv.updates task _ prev new hphase rfl
  have hnew : new.actorId = actorId := hbuilt.actorId.trans hactor
  subst hnew
  refine ⟨?_, ?_⟩
  · intro h'
    have hversion := h'.replaced _ List.mem_cons_self rfl
    rw [hbuilt.version] at hversion
    exact (Nat.succ.inj hversion).symm
  · intro hsame
    have hlength := h.versionOf_current (hinv.lastCurrent new.actorId)
    have hversion : new.version = versionOf (s.current new.actorId) + 1 := by
      rw [hbuilt.version, hsame]
    obtain ⟨old, hold, hothers, hcore⟩ := history_upsert (hinv.lastCurrent new.actorId)
    have hversions : old.map ProfileRow.version =
        (s.history new.actorId).map ProfileRow.version := by
      have hfst := congrArg (List.map Prod.fst) hcore
      rw [List.map_map, List.map_map] at hfst
      exact hfst
    have hcount : old.length = (s.history new.actorId).length := by
      have := congrArg List.length hcore
      rwa [List.length_map, List.length_map] at this
    refine ⟨?_, ?_, fun x hx hxactor => ?_⟩
    · exact current_of_lastCurrent (Or.inr ⟨old, _, hold, rfl, hothers⟩)
    · rw [history, hold, List.map_append, hversions, h.versions, List.length_append, hcount,
        List.length_singleton, List.range_succ, List.map_append]
      simp [hversion, hlength]
    · rcases List.mem_cons.mp hx with rfl | hx
      · exact hversion
      · exact h.replaced x hx hxactor

/-- A step keeps the versions of an actor exactly when it is up to date. -/
theorem versioned_step_iff (hinv : s.Inv) (h : s.Versioned actorId)
    (hstep : step pickWinner s a = some s') : s'.Versioned actorId ↔ s.UpToDate actorId a := by
  cases a with
  | save task =>
    simp only [step] at hstep
    split at hstep
    · next row m prev new hphase =>
      obtain rfl := Option.some.inj hstep
      by_cases hactor : row.actorId = actorId
      · rw [versioned_save_iff hinv h hphase hactor]
        refine ⟨?_, ?_⟩
        · intro hsame row' m' prev' new' hphase' _
          rw [hphase] at hphase'
          cases hphase'
          exact hsame
        · intro hcurrent
          exact hcurrent row m prev new hphase hactor
      · obtain ⟨m', -, hbuilt⟩ := hinv.updates task _ prev new hphase rfl
        have hnew : actorId ≠ new.actorId := fun heq => hactor (hbuilt.actorId.symm.trans heq.symm)
        refine iff_of_true (h.of_history (history_upsert_of_ne hnew) fun x hx hx' => ?_) ?_
        · rcases List.mem_cons.mp hx with rfl | hx
          · exact absurd hx'.symm hnew
          · exact hx
        · intro row' m' prev' new' hphase' hactor'
          rw [hphase] at hphase'
          cases hphase'
          exact absurd hactor' hactor
    · next hother =>
      obtain rfl := Option.some.inj hstep
      exact iff_of_true h fun row m prev new hphase => absurd hphase (hother row m prev new)
  | _ =>
    refine iff_of_true ?_ trivial
    simp only [step] at hstep
    repeat' split at hstep
    all_goals
      obtain rfl := Option.some.inj hstep
      exact h.of_history rfl fun _ hx _ => hx

theorem exists_step (pickWinner : ProfileRow → ℕ → Option (String × ℚ)) (s : ProfileEngine)
    (a : Step) : ∃ s', step pickWinner s a = some s' := by
  cases a <;> simp only [step] <;> repeat' first | exact ⟨_, rfl⟩ | split

theorem versioned_init (actorId : Uuid) : init.Versioned actorId :=
  ⟨Or.inl rfl, rfl, by rintro _ ⟨⟩⟩

/-- **Versions.** Over every interleaving of tasks, the versions of an actor count up, under one
current profile, exactly when every profile is stored while the version that its task read is
current. -/
theorem versioned_iff_upToDate (pickWinner : ProfileRow → ℕ → Option (String × ℚ))
    (actorId : Uuid) (as : List Step) :
    Throughout (step pickWinner) (Versioned actorId) init as ↔
      Along (step pickWinner) (UpToDate actorId) init as := by
  obtain ⟨s, hrun⟩ := exists_run (exists_step pickWinner) init as
  exact throughout_iff_along (I := fun s => Inv s ∧ Versioned actorId s) (fun h => h.2)
    (fun h hc hstep => ⟨h.1.step hstep, (versioned_step_iff h.1 h.2 hstep).mpr hc⟩)
    (fun h hstep hv => (versioned_step_iff h.1 h.2 hstep).mp hv)
    ⟨inv_init, versioned_init actorId⟩ hrun

/-! ## Slots -/

theorem lookup_patchSlot (summaries : SummaryBlock → Summary) (m : SlotMapping)
    (slot : ProfileSlot) (block : SummaryBlock) (key : String) :
    (patchSlot summaries m slot block).lookup key =
      if block = m.blockName ∧ key = m.slotKey then some slot
      else (summaries block).lookup key := by
  rw [patchSlot]
  by_cases hblock : block = m.blockName
  · subst hblock
    rw [Function.update_self]
    by_cases hkey : key = m.slotKey
    · subst hkey
      rw [AList.lookup_insert, if_pos ⟨rfl, rfl⟩]
    · rw [AList.lookup_insert_ne hkey, if_neg fun h => hkey h.2]
  · rw [Function.update_of_ne hblock, if_neg fun h => hblock h.1]

/-- A patch keeps the slots that are there. -/
theorem isSome_patchSlot {summaries : SummaryBlock → Summary} (m : SlotMapping)
    (slot : ProfileSlot) {block : SummaryBlock} {key : String}
    (h : ((summaries block).lookup key).isSome) :
    ((patchSlot summaries m slot block).lookup key).isSome := by
  rw [lookup_patchSlot]
  split_ifs
  · rfl
  · exact h

/-- A profile that does not differ has the values of the one before. -/
theorem value_of_not_differs {old new : ProfileRow} (h : materiallyDiffers (some old) new = false)
    {block : SummaryBlock} {key : String} {slot : ProfileSlot}
    (hslot : new.slot block key = some slot) :
    slot.value = (old.slot block key).bind ProfileSlot.value := by
  simp only [materiallyDiffers, Bool.or_eq_false_iff, List.any_eq_false, Bool.not_eq_true] at h
  have hblock : block ∈ SummaryBlock.all := by cases block <;> decide
  have hentry := AList.mem_lookup_iff.mp (Option.mem_def.mpr hslot)
  simpa using h.2 block hblock ⟨key, slot⟩ hentry

/-- The slots have values of observations that were handled for them. -/
def Sourced (actorId : Uuid) (handled : List Handled) (summaries : SummaryBlock → Summary) : Prop :=
  ∀ block key slot, (summaries block).lookup key = some slot → ∃ o ∈ handled,
    o.row.actorId = actorId ∧ o.mapping.blockName = block ∧ o.mapping.slotKey = key ∧
      slot.value.isSome ∧ slot.value = o.row.value

/-- The current profile holds, in the slot of an observation, the value of one of those that were
handled for it. -/
def Holds (actorId : Uuid) (s : ProfileEngine) (o : Handled) : Prop :=
  ∃ profile slot, s.current actorId = some profile ∧
    profile.slot o.mapping.blockName o.mapping.slotKey = some slot ∧
      ∃ o' ∈ s.handled, o'.row.actorId = actorId ∧ o'.mapping.blockName = o.mapping.blockName ∧
        o'.mapping.slotKey = o.mapping.slotKey ∧ slot.value.isSome ∧ slot.value = o'.row.value

/-- When all tasks of an actor have finished, none of its observations is lost. -/
def Complete (actorId : Uuid) (s : ProfileEngine) : Prop :=
  (∀ task p, s.tasks.phase task = some p → p.row.actorId = actorId → p.slot = none) →
    ∀ o ∈ s.handled, o.row.actorId = actorId → s.Holds actorId o

/-- An observation of the actor that maps to a slot has a value, and the slot gets it. -/
def Valued (actorId : Uuid) (_ : ProfileEngine) : Step → Prop
  | .start _ row envelopeSource => row.actorId = actorId →
      (observationToSlot row envelopeSource).isSome →
        row.value.isSome ∧ row.slotValue = row.value
  | _ => True

/-- The task of an observation has not finished. -/
def Open (s : ProfileEngine) (o : Handled) : Prop :=
  ∃ p, s.tasks.phase o.task = some p ∧ p.slot = some o.mapping ∧ p.row = o.row

/-- The current profile has the slot of an observation. -/
def Covered (actorId : Uuid) (s : ProfileEngine) (o : Handled) : Prop :=
  ∃ profile, s.current actorId = some profile ∧
    (profile.slot o.mapping.blockName o.mapping.slotKey).isSome

/-- What holds of an actor as long as its tasks are up to date and its observations have values. -/
structure Kept (actorId : Uuid) (s : ProfileEngine) : Prop where
  versioned : s.Versioned actorId
  valued : ∀ o ∈ s.handled, o.row.actorId = actorId →
    o.row.value.isSome ∧ o.mapping.slotDict.value = o.row.value
  /-- what a task has read is in the history -/
  prevs : ∀ task p old new, s.tasks.phase task = some p → p.row.actorId = actorId →
    p.update = some (some old, new) → core old ∈ (s.history actorId).map core
  sourced : ∀ row ∈ s.history actorId, Sourced actorId s.handled row.summaries
  /-- the current profile has the slots of all before it -/
  grows : ∀ row ∈ s.history actorId, ∀ profile, s.current actorId = some profile →
    ∀ block key, (row.slot block key).isSome → (profile.slot block key).isSome
  covered : ∀ o ∈ s.handled, o.row.actorId = actorId → s.Open o ∨ s.Covered actorId o

theorem kept_init (actorId : Uuid) : init.Kept actorId where
  versioned := versioned_init actorId
  valued _ ho := by cases ho
  prevs _ _ _ _ h := by cases h
  sourced _ hrow := by cases hrow
  grows _ hrow := by cases hrow
  covered _ ho := by cases ho

/-- The current profile is one of the history. -/
theorem current_mem {profile : ProfileRow} (h : s.current actorId = some profile) :
    profile ∈ s.history actorId := by
  rw [current_eq_find] at h
  exact List.mem_of_find?_eq_some h

theorem Sourced.mono {handled handled' : List Handled} {summaries : SummaryBlock → Summary}
    (h : Sourced actorId handled summaries) (hle : handled ⊆ handled') :
    Sourced actorId handled' summaries := by
  intro block key slot hslot
  obtain ⟨o, ho, hrest⟩ := h block key slot hslot
  exact ⟨o, hle ho, hrest⟩

theorem Kept.complete (h : s.Kept actorId) : s.Complete actorId := by
  intro hidle o ho hactor
  rcases h.covered o ho hactor with ⟨p, hp, hslot, hrow⟩ | ⟨profile, hprofile, hsome⟩
  · have hnone := hidle o.task p hp (hrow ▸ hactor)
    rw [hnone] at hslot
    cases hslot
  · obtain ⟨slot, hslot⟩ := Option.isSome_iff_exists.mp hsome
    exact ⟨profile, slot, hprofile, hslot, h.sourced profile (current_mem hprofile) _ _ slot hslot⟩

/-- A profile that a task has read has no slot that the current one does not have. -/
theorem Kept.current_of_prev (h : s.Kept actorId) (hinv : s.Inv) {task : ℕ} {p : ProfilePhase}
    {old new : ProfileRow} (hphase : s.tasks.phase task = some p) (hactor : p.row.actorId = actorId)
    (hupdate : p.update = some (some old, new)) {block : SummaryBlock} {key : String}
    (hslot : (old.slot block key).isSome) :
    ∃ profile, s.current actorId = some profile ∧ (profile.slot block key).isSome := by
  obtain ⟨row, hrow, hcore⟩ := List.mem_map.mp (h.prevs task p old new hphase hactor hupdate)
  have hsummaries : row.summaries = old.summaries := congrArg Prod.snd hcore
  have hcurrent := current_eq_getLast (hinv.lastCurrent actorId)
  rw [List.getLast?_eq_some_getLast (List.ne_nil_of_mem hrow)] at hcurrent
  refine ⟨_, hcurrent, h.grows row hrow _ hcurrent block key ?_⟩
  rw [ProfileRow.slot, hsummaries]
  exact hslot

/-- A task goes on without a store. -/
theorem Kept.put (h : s.Kept actorId) {task : ℕ} {p : ProfilePhase} {handled : List Handled}
    (hle : s.handled ⊆ handled)
    (hnew : ∀ o ∈ handled, o.row.actorId = actorId → o ∈ s.handled ∨ o.task = task ∧
      p.slot = some o.mapping ∧ p.row = o.row ∧
        o.row.value.isSome ∧ o.mapping.slotDict.value = o.row.value)
    (hprevs : ∀ old new, p.row.actorId = actorId → p.update = some (some old, new) →
      core old ∈ (s.history actorId).map core)
    (hdone : ∀ o, s.Open o → o.row.actorId = actorId → o.task = task →
      p.slot = some o.mapping ∧ p.row = o.row ∨ s.Covered actorId o) :
    Kept actorId { s with tasks := s.tasks.put task p, handled := handled } where
  versioned := h.versioned.of_history rfl fun _ hx _ => hx
  valued o ho hactor := by
    rcases hnew o ho hactor with hold | ⟨-, -, -, hvalue⟩
    · exact h.valued o hold hactor
    · exact hvalue
  prevs t q old new hq hactor hupdate := by
    change (s.tasks.put task p).phase t = some q at hq
    rw [Calls.phase_put] at hq
    split_ifs at hq
    · obtain rfl := Option.some.inj hq
      exact hprevs old new hactor hupdate
    · exact h.prevs t q old new hq hactor hupdate
  sourced row hrow := (h.sourced row hrow).mono hle
  grows := h.grows
  covered o ho hactor := by
    rcases hnew o ho hactor with hold | ⟨htask, hslot, hrow, -⟩
    · rcases h.covered o hold hactor with hopen | hcovered
      · by_cases htask : o.task = task
        · rcases hdone o hopen hactor htask with ⟨hslot, hrow⟩ | hcovered
          · refine Or.inl ⟨p, ?_, hslot, hrow⟩
            rw [htask]
            exact Calls.phase_put_self
          · exact Or.inr hcovered
        · obtain ⟨q, hq, hrest⟩ := hopen
          exact Or.inl ⟨q, (Calls.phase_put_of_ne htask).trans hq, hrest⟩
      · exact Or.inr hcovered
    · refine Or.inl ⟨p, ?_, hslot, hrow⟩
      rw [htask]
      exact Calls.phase_put_self

/-- What a task has read is what its profile replaces, if the version is still the current one. -/
theorem Kept.summaries_current (h : s.Kept actorId) (hinv : s.Inv) {task : ℕ} {p : ProfilePhase}
    {prev : Option ProfileRow} {new : ProfileRow} (hphase : s.tasks.phase task = some p)
    (hactor : p.row.actorId = actorId) (hupdate : p.update = some (prev, new))
    (hversion : versionOf (s.current actorId) = versionOf prev) :
    previousSummaries (s.current actorId) = previousSummaries prev := by
  have hlength := h.versioned.versionOf_current (hinv.lastCurrent actorId)
  cases prev with
  | none =>
    rw [hversion] at hlength
    have hnil : s.history actorId = [] := List.eq_nil_of_length_eq_zero hlength.symm
    rw [current_eq_find, hnil]
    rfl
  | some old =>
    obtain ⟨row, hrow, hcore⟩ := List.mem_map.mp (h.prevs task p old new hphase hactor hupdate)
    obtain ⟨hrowVersion, hsummaries⟩ := Prod.mk.inj hcore
    cases hcurrent : s.current actorId with
    | none =>
      rw [current_eq_getLast (hinv.lastCurrent actorId), List.getLast?_eq_none_iff] at hcurrent
      rw [hcurrent] at hrow
      cases hrow
    | some profile =>
      -- no two profiles of the history have one version
      have hnodup : ((s.history actorId).map ProfileRow.version).Nodup := by
        rw [h.versioned.versions]
        exact List.nodup_range.map (add_left_injective 1)
      have hsame : profile = row := by
        refine List.inj_on_of_nodup_map hnodup (current_mem hcurrent) hrow ?_
        rw [hcurrent] at hversion
        exact hversion.trans hrowVersion.symm
      rw [hsame]
      exact hsummaries

theorem Kept.store (h : s.Kept actorId) (hinv : s.Inv) {task : ℕ} {row : ObservationRow}
    {m : SlotMapping} {prev : Option ProfileRow} {new : ProfileRow}
    (hphase : s.tasks.phase task = some (.saving row m prev new)) (hactor : row.actorId = actorId)
    (hversion : versionOf (s.current actorId) = versionOf prev) :
    Kept actorId { s with
      rows := upsertCurrentProfile s.rows new
      tasks := s.tasks.put task (.finished row)
      replacements := (getCurrentProfile s.rows new.actorId, new) :: s.replacements } := by
  have hversioned := (versioned_save_iff hinv h.versioned hphase hactor).mpr hversion
  have hsame := h.summaries_current hinv hphase hactor rfl hversion
  obtain ⟨m', hm', hbuilt⟩ := hinv.updates task _ prev new hphase rfl
  obtain rfl := Option.some.inj hm'
  have hhandled := hinv.handled task _ m hphase rfl
  have hnew : new.actorId = actorId := hbuilt.actorId.trans hactor
  subst hnew
  obtain ⟨slot, hvalue, hsummaries⟩ := hbuilt.summaries
  rw [← hsame] at hsummaries
  obtain ⟨old, hold, hothers, hcore⟩ := history_upsert (hinv.lastCurrent new.actorId)
  -- the stored profile has all slots of the one that was current, and the new one
  have hkeeps : ∀ profile, s.current new.actorId = some profile → ∀ block key,
      (profile.slot block key).isSome → (new.slot block key).isSome := by
    intro profile hprofile block key hslot
    rw [ProfileRow.slot, hsummaries, hprofile]
    exact isSome_patchSlot m slot hslot
  have hcurrent := current_upsert (hinv.lastCurrent new.actorId)
  have hcores : ∀ r ∈ old, ∃ r₀ ∈ s.history new.actorId, r₀.summaries = r.summaries := by
    intro r hr
    have hmem : core r ∈ (s.history new.actorId).map core := by
      rw [history, ← hcore]
      exact List.mem_map_of_mem hr
    obtain ⟨r₀, hr₀, heq⟩ := List.mem_map.mp hmem
    exact ⟨r₀, hr₀, congrArg Prod.snd heq⟩
  refine ⟨hversioned, h.valued, fun t p o n hp hpactor hupdate => ?_, fun r hr => ?_,
    fun r hr profile hprofile block key hslot => ?_, fun o ho hoactor => ?_⟩
  · -- what the other tasks have read is still there
    change (s.tasks.put task (.finished row)).phase t = some p at hp
    rw [Calls.phase_put] at hp
    split_ifs at hp
    · obtain rfl := Option.some.inj hp
      cases hupdate
    · have hmem := h.prevs t p o n hp hpactor hupdate
      rw [history, ← hcore] at hmem
      rw [history, hold, List.map_append]
      exact List.mem_append_left _ hmem
  · rw [history, hold] at hr
    rcases List.mem_append.mp hr with hr | hr
    · obtain ⟨r₀, hr₀, hsum⟩ := hcores r hr
      rw [← hsum]
      exact h.sourced r₀ hr₀
    · obtain rfl := List.mem_singleton.mp hr
      intro block key slot' hslot'
      dsimp only at hslot'
      rw [hsummaries, lookup_patchSlot] at hslot'
      split_ifs at hslot' with hkey
      · obtain rfl := Option.some.inj hslot'
        obtain ⟨hsome, hobserved⟩ := h.valued _ hhandled hactor
        refine ⟨_, hhandled, hactor, hkey.1.symm, hkey.2.symm, ?_, hvalue.trans hobserved⟩
        rw [hvalue, hobserved]
        exact hsome
      · cases hprofile : s.current new.actorId with
        | none =>
          rw [hprofile] at hslot'
          cases hslot'
        | some profile =>
          rw [hprofile] at hslot'
          exact h.sourced profile (current_mem hprofile) block key slot' hslot'
  · change getCurrentProfile (upsertCurrentProfile s.rows new) new.actorId = some profile
      at hprofile
    obtain rfl := Option.some.inj (hcurrent.symm.trans hprofile)
    rw [history, hold] at hr
    rcases List.mem_append.mp hr with hr | hr
    · obtain ⟨r₀, hr₀, hsum⟩ := hcores r hr
      have hlast := current_eq_getLast (hinv.lastCurrent new.actorId)
      rw [List.getLast?_eq_some_getLast (List.ne_nil_of_mem hr₀)] at hlast
      refine hkeeps _ hlast block key (h.grows r₀ hr₀ _ hlast block key ?_)
      rw [ProfileRow.slot, hsum]
      exact hslot
    · obtain rfl := List.mem_singleton.mp hr
      exact hslot
  · rcases h.covered o ho hoactor with ⟨p, hp, hslot, hrow⟩ | ⟨profile, hprofile, hslot⟩
    · by_cases htask : o.task = task
      · -- the slot of the task itself
        rw [htask, hphase] at hp
        obtain rfl := Option.some.inj hp
        obtain rfl := Option.some.inj hslot
        refine Or.inr ⟨_, hcurrent, ?_⟩
        rw [ProfileRow.slot, hsummaries, lookup_patchSlot, if_pos ⟨rfl, rfl⟩]
        rfl
      · exact Or.inl ⟨p, (Calls.phase_put_of_ne htask).trans hp, hslot, hrow⟩
    · exact Or.inr ⟨_, hcurrent, hkeeps profile hprofile _ _ hslot⟩

/-- A step that stores nothing for the actor changes nothing for it. -/
theorem Kept.of_history (h : s.Kept actorId) (htasks : s'.tasks = s.tasks)
    (hhandled : s'.handled = s.handled) (hhistory : s'.history actorId = s.history actorId)
    (hreplacements : ∀ x ∈ s'.replacements, x.2.actorId = actorId → x ∈ s.replacements) :
    s'.Kept actorId := by
  have hcurrent : s'.current actorId = s.current actorId := by
    rw [current_eq_find, current_eq_find, hhistory]
  refine ⟨h.versioned.of_history hhistory hreplacements, ?_, ?_, ?_, ?_, fun o ho hactor => ?_⟩
  · rw [hhandled]
    exact h.valued
  · rw [htasks, hhistory]
    exact h.prevs
  · rw [hhandled, hhistory]
    exact h.sourced
  · rw [hcurrent, hhistory]
    exact h.grows
  · rw [hhandled] at ho
    rw [Open, Covered, htasks, hcurrent]
    exact h.covered o ho hactor

theorem Kept.step (h : s.Kept actorId) (hinv : s.Inv)
    (hcareful : s.UpToDate actorId a ∧ s.Valued actorId a)
    (hstep : step pickWinner s a = some s') : s'.Kept actorId := by
  obtain ⟨hcurrent, hvalued⟩ := hcareful
  cases a with
  | start task row envelopeSource =>
    simp only [ProfileEngine.step] at hstep
    split at hstep
    · obtain rfl := Option.some.inj hstep
      exact h
    next hnone =>
    have hnew : ∀ o, s.Open o → o.task ≠ task := by
      rintro o ⟨p, hp, -⟩ rfl
      rw [hnone] at hp
      cases hp
    split at hstep <;> obtain rfl := Option.some.inj hstep
    · exact h.put (List.Subset.refl _) (fun o ho _ => Or.inl ho) (by rintro _ _ _ ⟨⟩)
        fun o hopen _ htask => absurd htask (hnew o hopen)
    · next m hmapped =>
      refine h.put (List.subset_cons_self _ _) (fun o ho hactor => ?_) (by rintro _ _ _ ⟨⟩)
        fun o hopen _ htask => absurd htask (hnew o hopen)
      rcases List.mem_cons.mp ho with rfl | ho
      · obtain ⟨hsome, hslot⟩ := hvalued hactor (by rw [hmapped]; rfl)
        exact Or.inr ⟨rfl, rfl, rfl, hsome, (slotDict_value hmapped).trans hslot⟩
      · exact Or.inl ho
  | read task newId now =>
    simp only [ProfileEngine.step] at hstep
    split at hstep <;> obtain rfl := Option.some.inj hstep
    · next row m hphase =>
      refine h.put (List.Subset.refl _) (fun o ho _ => Or.inl ho) (fun old new hactor hupdate => ?_)
        fun o hopen _ htask => ?_
      · obtain ⟨hold, -⟩ := Prod.mk.inj (Option.some.inj hupdate)
        change row.actorId = actorId at hactor
        rw [hactor] at hold
        exact List.mem_map_of_mem (current_mem hold)
      · obtain ⟨p, hp, hslot, hrow⟩ := hopen
        rw [htask, hphase] at hp
        obtain rfl := Option.some.inj hp
        exact Or.inl ⟨hslot, hrow⟩
    · exact h
  | announce task =>
    simp only [ProfileEngine.step] at hstep
    split at hstep
    · next row m prev new hphase =>
      split_ifs at hstep with hdiffers <;> obtain rfl := Option.some.inj hstep
      · refine h.put (List.Subset.refl _) (fun o ho _ => Or.inl ho)
          (fun old new' hactor hupdate => ?_) fun o hopen _ htask => ?_
        · obtain ⟨rfl, -⟩ := Prod.mk.inj (Option.some.inj hupdate)
          exact h.prevs task _ old new hphase hactor rfl
        · obtain ⟨p, hp, hslot, hrow⟩ := hopen
          rw [htask, hphase] at hp
          obtain rfl := Option.some.inj hp
          exact Or.inl ⟨hslot, hrow⟩
      · refine h.put (List.Subset.refl _) (fun o ho _ => Or.inl ho) (by rintro _ _ _ ⟨⟩)
          fun o hopen hactor htask => Or.inr ?_
        obtain ⟨p, hp, hslot, hrow⟩ := hopen
        rw [htask, hphase] at hp
        obtain rfl := Option.some.inj hp
        obtain rfl := Option.some.inj hslot
        obtain ⟨m', hm', hbuilt⟩ := hinv.updates task _ prev new hphase rfl
        obtain rfl := Option.some.inj hm'
        have hrole : Built row o.mapping prev (withRole pickWinner new) := hbuilt.withRole
        obtain ⟨slot, hvalue, hsummaries⟩ := hrole.summaries
        have hactor' : row.actorId = actorId := (congrArg ObservationRow.actorId hrow).trans hactor
        obtain ⟨hsome, hobserved⟩ := h.valued _ (hinv.handled task _ _ hphase rfl) hactor'
        cases prev with
        | none => exact absurd rfl hdiffers
        | some old =>
          -- the profile that was read has the observed value already
          have hnew : (withRole pickWinner new).slot o.mapping.blockName o.mapping.slotKey =
              some slot := by
            rw [ProfileRow.slot, hsummaries, lookup_patchSlot, if_pos ⟨rfl, rfl⟩]
          have hold := value_of_not_differs (Bool.eq_false_iff.mpr hdiffers) hnew
          rw [← hobserved, ← hvalue, hold] at hsome
          have hslot' := Option.isSome_of_isSome_bind hsome
          exact h.current_of_prev hinv hphase hactor' rfl hslot'
    · obtain rfl := Option.some.inj hstep
      exact h
  | save task =>
    simp only [ProfileEngine.step] at hstep
    split at hstep
    · next row m prev new hphase =>
      obtain rfl := Option.some.inj hstep
      by_cases hactor : row.actorId = actorId
      · exact h.store hinv hphase hactor (hcurrent row m prev new hphase hactor)
      · -- a profile of another actor
        obtain ⟨m', -, hbuilt⟩ := hinv.updates task _ prev new hphase rfl
        have hnew : actorId ≠ new.actorId := fun heq => hactor (hbuilt.actorId.symm.trans heq.symm)
        have hput : Kept actorId { s with tasks := s.tasks.put task (.finished row) } := by
          refine h.put (List.Subset.refl _) (fun o ho _ => Or.inl ho) (by rintro _ _ _ ⟨⟩)
            fun o hopen hoactor htask => ?_
          obtain ⟨p, hp, -, hrow⟩ := hopen
          rw [htask, hphase] at hp
          obtain rfl := Option.some.inj hp
          exact absurd ((congrArg ObservationRow.actorId hrow).trans hoactor) hactor
        refine hput.of_history rfl rfl (history_upsert_of_ne hnew) fun x hx hx' => ?_
        rcases List.mem_cons.mp hx with rfl | hx
        · exact absurd hx'.symm hnew
        · exact hx
    · obtain rfl := Option.some.inj hstep
      exact h

/-- An observation of an actor. -/
def observed (primitive : String) (value : ObservationValue) : ObservationRow :=
  ObservationEnvelope.toRow ⟨primitive, value, some "r", "sensor"⟩ ⟨7, 1, "1", 10, "sensor"⟩

end ProfileEngine

end Eyenet
