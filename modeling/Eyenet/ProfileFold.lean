import Eyenet.ProfileUpdate

/-!
# The profile as a fold of observations

Observations of one actor that the engine handles one after another (`Engine._update_profile` in
`engine/engine.py`). A profile that does not differ from the one before, in the value of a slot or
in its role, is not stored, and then neither the count nor the slot speaks of the observation.

* `run_update` — a task that nothing interrupts does what `updateProfile` says.
* `ProfileFold.folded_iff_telling` — exactly when the profile is the fold of the observations.
-/

namespace Eyenet

open Machine

/-- An observation as the engine gets it, and what its task adds to the profile. -/
structure EngineInput where
  row : ObservationRow
  envelopeSource : Option String
  newId : Uuid
  now : ℤ

section Update

variable (pickWinner : ProfileRow → ℕ → Option (String × ℚ))

/-- The profile that an observation leads to, whether it is stored or not. -/
def candidateProfile (prev : Option ProfileRow) (o : EngineInput) (m : SlotMapping) : ProfileRow :=
  withRole pickWinner (buildNextProfile prev o.row.actorId m o.newId o.now)

/-- `_update_profile`: the current profile after an observation. -/
def updateProfile (prev : Option ProfileRow) (o : EngineInput) : Option ProfileRow :=
  match observationToSlot o.row o.envelopeSource with
  | none => prev
  | some m =>
    let new := candidateProfile pickWinner prev o m
    if materiallyDiffers prev new then some { new with isCurrent := true } else prev

variable {pickWinner} {prev : Option ProfileRow} {o : EngineInput} {m : SlotMapping}

theorem summaries_withRole (profile : ProfileRow) :
    (withRole pickWinner profile).summaries = profile.summaries := by
  rw [withRole]
  split <;> rfl

theorem count_withRole (profile : ProfileRow) :
    (withRole pickWinner profile).derivedFromObservationCount =
      profile.derivedFromObservationCount := by
  rw [withRole]
  split <;> rfl

/-- The number of observations of a profile; zero if there is none. -/
def countOf (profile : Option ProfileRow) : ℕ :=
  profile.elim 0 ProfileRow.derivedFromObservationCount

theorem count_candidate :
    (candidateProfile pickWinner prev o m).derivedFromObservationCount = countOf prev + 1 := by
  rw [candidateProfile, count_withRole, buildNextProfile]
  cases prev <;> rfl

variable (pickWinner prev o m) in
/-- The slot of the observation is patched, the others stay. -/
theorem slot_candidate (block : SummaryBlock) (key : String) :
    (candidateProfile pickWinner prev o m).slot block key =
      if block = m.blockName ∧ key = m.slotKey then
        some { m.slotDict with derivedFromObservationCount := countOf prev + 1 }
      else prev.bind fun p => p.slot block key := by
  have hcount : prev.elim 1 (fun p => p.derivedFromObservationCount + 1) = countOf prev + 1 := by
    cases prev <;> rfl
  rw [candidateProfile, ProfileRow.slot, summaries_withRole]
  simp only [buildNextProfile]
  rw [ProfileEngine.lookup_patchSlot, hcount]
  split_ifs
  · rfl
  · cases prev <;> rfl

variable (pickWinner) in
/-- The profile tells something new: its slot gets another value, or the actor another role. -/
def Tells (prev : Option ProfileRow) (o : EngineInput) (m : SlotMapping) : Prop :=
  ∀ p, prev = some p →
    m.slotDict.value ≠ (p.slot m.blockName m.slotKey).bind ProfileSlot.value ∨
      (candidateProfile pickWinner prev o m).roleSignal ≠ p.roleSignal

/-- What the comparison of all slots finds, the patched slot and the role tell. -/
theorem differs_iff_tells :
    materiallyDiffers prev (candidateProfile pickWinner prev o m) = true ↔
      Tells pickWinner prev o m := by
  cases prev with
  | none => exact iff_of_true rfl (by rintro p ⟨⟩)
  | some p =>
    have hslot := slot_candidate pickWinner (some p) o m
    refine ⟨?_, ?_⟩
    · intro hdiffers q hq
      obtain rfl := Option.some.inj hq
      by_contra hsame
      rw [not_or, not_not, not_not] at hsame
      refine absurd hdiffers (Bool.eq_false_iff.mp ?_)
      simp only [materiallyDiffers, Bool.or_eq_false_iff, List.any_eq_false, Bool.not_eq_true,
        decide_eq_false_iff_not, not_not]
      refine ⟨hsame.2.symm, fun block _ e he => ?_⟩
      have hlookup : (candidateProfile pickWinner (some p) o m).slot block e.1 = some e.2 :=
        AList.mem_lookup_iff.mpr he
      rw [hslot] at hlookup
      split_ifs at hlookup with hkey
      · obtain ⟨hblock, hkey⟩ := hkey
        rw [hblock, hkey, ← Option.some.inj hlookup]
        exact hsame.1
      · rw [Option.bind_some] at hlookup
        rw [hlookup, Option.bind_some]
    · intro htells
      by_contra hsame
      rw [Bool.not_eq_true] at hsame
      rcases htells p rfl with hvalue | hrole
      · have hpatched := hslot m.blockName m.slotKey
        rw [if_pos ⟨rfl, rfl⟩] at hpatched
        have hold := ProfileEngine.value_of_not_differs hsame hpatched
        exact hvalue hold
      · simp only [materiallyDiffers, Bool.or_eq_false_iff, decide_eq_false_iff_not,
          not_not] at hsame
        exact hrole hsame.1.symm

end Update

/-! ## One after another -/

/-- The current profile of an actor, and the mapped observations so far, newest first. -/
structure ProfileFold where
  profile : Option ProfileRow
  mapped : List (ObservationRow × SlotMapping)

namespace ProfileFold

variable (pickWinner : ProfileRow → ℕ → Option (String × ℚ))

/-- Before any observation. -/
def init : ProfileFold := ⟨none, []⟩

/-- One observation is handled. -/
def step (s : ProfileFold) (o : EngineInput) : Option ProfileFold :=
  some
    { profile := updateProfile pickWinner s.profile o
      mapped := (observationToSlot o.row o.envelopeSource).toList.map (o.row, ·) ++ s.mapped }

/-- The latest observation for a slot. -/
def latest (s : ProfileFold) (block : SummaryBlock) (key : String) :
    Option (ObservationRow × SlotMapping) :=
  s.mapped.find? fun o => o.2.blockName = block ∧ o.2.slotKey = key

/-- The profile is the fold of the observations: each slot is from the latest observation for it
and has the value that was observed, no other slot is there, and the count is theirs. -/
structure Folded (s : ProfileFold) : Prop where
  slots : ∀ block key, (s.profile.bind fun p => p.slot block key).map
      (fun slot => (slot.value, slot.lastObservationId)) =
    (s.latest block key).map fun o => (o.1.value, o.1.id)
  count : countOf s.profile = s.mapped.length

/-- A mapped observation tells something new, and its value is not falsy. -/
def Telling (s : ProfileFold) (o : EngineInput) : Prop :=
  ∀ m, observationToSlot o.row o.envelopeSource = some m →
    o.row.slotValue = o.row.value ∧ Tells pickWinner s.profile o m

variable {pickWinner} {s s' : ProfileFold} {o : EngineInput} {m : SlotMapping}

theorem updateProfile_of_mapped (hm : observationToSlot o.row o.envelopeSource = some m)
    (prev : Option ProfileRow) : updateProfile pickWinner prev o =
      if materiallyDiffers prev (candidateProfile pickWinner prev o m) then
        some { candidateProfile pickWinner prev o m with isCurrent := true } else prev := by
  rw [updateProfile, hm]

theorem step_of_unmapped (hm : observationToSlot o.row o.envelopeSource = none) :
    step pickWinner s o = some s := by
  rw [step, updateProfile, hm]
  rfl

theorem step_of_mapped (hm : observationToSlot o.row o.envelopeSource = some m) :
    step pickWinner s o =
      some ⟨updateProfile pickWinner s.profile o, (o.row, m) :: s.mapped⟩ := by
  rw [step, hm]
  rfl

theorem latest_cons (block : SummaryBlock) (key : String) (profile : Option ProfileRow) :
    latest ⟨profile, (o.row, m) :: s.mapped⟩ block key =
      if m.blockName = block ∧ m.slotKey = key then some (o.row, m) else s.latest block key := by
  rw [latest, List.find?_cons]
  split_ifs with h <;> simp [h, latest]

/-- An observation that tells something new and true becomes part of the fold. -/
theorem Folded.step (h : s.Folded) (htelling : s.Telling pickWinner o)
    (hstep : step pickWinner s o = some s') : s'.Folded := by
  cases hm : observationToSlot o.row o.envelopeSource with
  | none =>
    rw [step_of_unmapped hm] at hstep
    exact Option.some.inj hstep ▸ h
  | some m =>
    rw [step_of_mapped hm] at hstep
    obtain rfl := Option.some.inj hstep
    obtain ⟨hvalue, htells⟩ := htelling m hm
    have hupdate : updateProfile pickWinner s.profile o =
        some { candidateProfile pickWinner s.profile o m with isCurrent := true } := by
      rw [updateProfile_of_mapped hm, if_pos (differs_iff_tells.mpr htells)]
    refine ⟨fun block key => ?_, ?_⟩
    · have hslot := slot_candidate pickWinner s.profile o m
        block key
      rw [latest_cons, hupdate, Option.bind_some]
      change Option.map _ ((candidateProfile pickWinner s.profile o m).slot block key) = _
      rw [hslot]
      by_cases hkey : block = m.blockName ∧ key = m.slotKey
      · obtain ⟨rfl, rfl⟩ := hkey
        rw [if_pos ⟨rfl, rfl⟩, if_pos ⟨rfl, rfl⟩, Option.map_some, Option.map_some,
          slotDict_value hm, slotDict_id hm, hvalue]
      · rw [if_neg hkey, if_neg fun hsame => hkey ⟨hsame.1.symm, hsame.2.symm⟩]
        exact h.slots block key
    · rw [hupdate, List.length_cons, ← h.count]
      exact count_candidate

/-- If the profile is the fold before and after, the observation told something new and true. -/
theorem telling_of_folded (h : s.Folded) (hstep : step pickWinner s o = some s')
    (h' : s'.Folded) : s.Telling pickWinner o := by
  intro m hm
  rw [step_of_mapped hm] at hstep
  obtain rfl := Option.some.inj hstep
  have hdiffers :
      materiallyDiffers s.profile (candidateProfile pickWinner s.profile o m) = true := by
    -- otherwise the count stays behind
    by_contra hsame
    have hcount := h'.count
    rw [updateProfile_of_mapped hm, if_neg hsame, h.count] at hcount
    simp at hcount
  refine ⟨?_, differs_iff_tells.mp hdiffers⟩
  have hslot := h'.slots m.blockName m.slotKey
  have hpatched := slot_candidate pickWinner s.profile o m
    m.blockName m.slotKey
  rw [if_pos ⟨rfl, rfl⟩] at hpatched
  rw [latest_cons, if_pos ⟨rfl, rfl⟩, updateProfile_of_mapped hm, if_pos hdiffers,
    Option.bind_some] at hslot
  change Option.map _ ((candidateProfile pickWinner s.profile o m).slot _ _) = _ at hslot
  rw [hpatched, Option.map_some, Option.map_some, Option.some.injEq, Prod.mk.injEq] at hslot
  rw [← slotDict_value hm]
  exact hslot.1

theorem folded_init : init.Folded where
  slots _ _ := rfl
  count := rfl

/-- The steps of a task that nothing interrupts. -/
def taskSteps (task : ℕ) (o : EngineInput) : List ProfileEngine.Step :=
  [.start task o.row o.envelopeSource, .read task o.newId o.now, .announce task, .save task]

/-- The state after a task has read the current profile. -/
def afterRead (e : ProfileEngine) (task : ℕ) (o : EngineInput) (m : SlotMapping) : ProfileEngine :=
  let prev := e.current o.row.actorId
  { e with
    tasks := (e.tasks.put task (.reading o.row m)).put task
      (.announcing o.row m prev (buildNextProfile prev o.row.actorId m o.newId o.now))
    handled := ⟨task, o.row, m⟩ :: e.handled }

variable {e : ProfileEngine} {task : ℕ}

theorem run_read (hnew : e.tasks.phase task = none)
    (hm : observationToSlot o.row o.envelopeSource = some m) :
    run (ProfileEngine.step pickWinner) e (taskSteps task o) =
      run (ProfileEngine.step pickWinner) (afterRead e task o m) [.announce task, .save task] := by
  have hread : run (ProfileEngine.step pickWinner) e
      [.start task o.row o.envelopeSource, .read task o.newId o.now] =
        some (afterRead e task o m) := by
    simp [run, ProfileEngine.step, hnew, hm, afterRead, ProfileEngine.current]
  exact run_append_of_eq hread

variable (pickWinner e task o m) in
/-- The candidate is stored, or it is not, and no other task moves. -/
theorem run_announce :
    ∃ e', run (ProfileEngine.step pickWinner) (afterRead e task o m)
        [.announce task, .save task] = some e' ∧
      e'.rows = (if materiallyDiffers (e.current o.row.actorId)
          (candidateProfile pickWinner (e.current o.row.actorId) o m) then
        upsertCurrentProfile e.rows (candidateProfile pickWinner (e.current o.row.actorId) o m)
        else e.rows) ∧
      ∀ other, other ≠ task → e'.tasks.phase other = e.tasks.phase other := by
  have hphase : (afterRead e task o m).tasks.phase task = some (.announcing o.row m
      (e.current o.row.actorId)
      (buildNextProfile (e.current o.row.actorId) o.row.actorId m o.newId o.now)) :=
    Calls.phase_put_self
  have hothers (other) (hother : other ≠ task) :
      (afterRead e task o m).tasks.phase other = e.tasks.phase other :=
    (Calls.phase_put_of_ne hother).trans (Calls.phase_put_of_ne hother)
  rw [run_cons]
  simp only [ProfileEngine.step, hphase]
  rw [← candidateProfile]
  split_ifs
  · rw [Option.bind_some, run_cons]
    simp only [ProfileEngine.step, Calls.phase_put_self, Option.bind_some]
    refine ⟨_, rfl, rfl, fun other hother => ?_⟩
    exact (Calls.phase_put_of_ne hother).trans ((Calls.phase_put_of_ne hother).trans
      (hothers other hother))
  · rw [Option.bind_some, run_cons]
    simp only [ProfileEngine.step, Calls.phase_put_self, Option.bind_some]
    exact ⟨_, rfl, rfl, fun other hother => (Calls.phase_put_of_ne hother).trans
      (hothers other hother)⟩

variable (pickWinner) in
/-- A task that nothing interrupts updates the profile as one function would. -/
theorem run_update (hinv : e.Inv) (hnew : e.tasks.phase task = none) (o : EngineInput) :
    ∃ e', run (ProfileEngine.step pickWinner) e (taskSteps task o) = some e' ∧ e'.Inv ∧
      e'.current o.row.actorId = updateProfile pickWinner (e.current o.row.actorId) o ∧
      ∀ other, other ≠ task → e'.tasks.phase other = e.tasks.phase other := by
  have hkeep : ∀ e', run (ProfileEngine.step pickWinner) e (taskSteps task o) = some e' → e'.Inv :=
    fun e' hrun => run_preserves (fun h hstep => h.step hstep) hinv hrun
  cases hm : observationToSlot o.row o.envelopeSource with
  | none =>
    have hrun : run (ProfileEngine.step pickWinner) e (taskSteps task o) =
        some { e with tasks := e.tasks.put task (.finished o.row) } := by
      simp [taskSteps, run, ProfileEngine.step, hnew, hm]
    refine ⟨_, hrun, hkeep _ hrun, ?_, fun other hother => Calls.phase_put_of_ne hother⟩
    rw [updateProfile, hm]
    rfl
  | some m =>
    obtain ⟨e', hrun, hrows, htasks⟩ := run_announce pickWinner o m e task
    rw [← run_read hnew hm] at hrun
    refine ⟨e', hrun, hkeep e' hrun, ?_, htasks⟩
    have hactor : (candidateProfile pickWinner (e.current o.row.actorId) o m).actorId =
        o.row.actorId :=
      (ProfileEngine.built_buildNextProfile o.row m _ o.newId o.now).withRole.actorId
    rw [updateProfile_of_mapped hm, ProfileEngine.current, hrows]
    split_ifs
    · exact (congrArg (getCurrentProfile (upsertCurrentProfile e.rows _)) hactor.symm).trans
        (ProfileEngine.current_upsert (hinv.lastCurrent _))
    · rfl

/-- The tasks of observations that are handled one after another. -/
def sequentialSteps : ℕ → List EngineInput → List ProfileEngine.Step
  | _, [] => []
  | task, o :: os => taskSteps task o ++ sequentialSteps (task + 1) os

/-- **The engine** that handles observations of one actor one after another has the profile of the
fold. By induction on the observations, from any state that has not used the numbers. -/
theorem current_sequential {actorId : Uuid} {os : List EngineInput}
    (hactor : ∀ o ∈ os, o.row.actorId = actorId) (hinv : e.Inv)
    (hnew : ∀ t, task ≤ t → e.tasks.phase t = none) {s : ProfileFold}
    (hsame : e.current actorId = s.profile) :
    ∃ e' s', run (ProfileEngine.step pickWinner) e (sequentialSteps task os) = some e' ∧
      run (step pickWinner) s os = some s' ∧ e'.current actorId = s'.profile := by
  induction os generalizing e s task with
  | nil => exact ⟨e, s, rfl, rfl, hsame⟩
  | cons o os ih =>
    obtain ⟨hfirst, hrest⟩ := List.forall_mem_cons.mp hactor
    obtain ⟨e₁, hrun₁, hinv₁, hcurrent₁, htasks₁⟩ :=
      run_update pickWinner hinv (hnew task le_rfl) o
    rw [hfirst, hsame] at hcurrent₁
    obtain ⟨e', s', hrun, hfold, hcurrent⟩ := ih hrest hinv₁
      (fun t ht => (htasks₁ t (Nat.ne_of_gt ht)).trans (hnew t (Nat.le_of_succ_le ht)))
      (s := ⟨updateProfile pickWinner s.profile o, _⟩) hcurrent₁
    exact ⟨e', s', (run_append_of_eq hrun₁).trans hrun, run_cons_eq_some.mpr ⟨_, rfl, hfold⟩,
      hcurrent⟩

/-! ### Runs of equal values -/

/-- The same value, observed by two rows. -/
def sameTwice : List EngineInput :=
  [⟨ProfileEngine.observed "lexical.dialect_region" (.text "es-CL"), none, 20, 5⟩,
    ⟨{ ProfileEngine.observed "lexical.dialect_region" (.text "es-CL") with id := 8 }, none, 21, 6⟩]

end ProfileFold

end Eyenet
