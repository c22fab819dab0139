import Eyenet.Calls
import Eyenet.Machine
import Eyenet.Observation

/-!
# From the sensor to the engine

A dispatch of the stylometric sensor publishes each observation as soon as its primitive has
computed it, and stores the rows of all of them in one transaction at its end
(`sensor/stylometric.py`). The engine gets the published observation and looks for its row by
evidence and primitive, the newest first, and once more if there is none (`engine/engine.py`).
Any number of dispatches and of engine tasks run at the same time, and every step of a dispatch
can fail.

Each publication has a number, by which its row is told from those of other observations.

* `Handoff.run_traced` — what the tables hold was published, under the same key.
* `Handoff.ownRow_iff_timely` — exactly when every observation is applied from its own row.
-/

namespace Eyenet

open Machine

/-- A row, and the publication that it belongs to. -/
abbrev NumberedRow := ℕ × ObservationRow

/-- The newest row; of those of the same time, the first. -/
def newestRow : List NumberedRow → Option NumberedRow
  | [] => none
  | row :: rows =>
    match newestRow rows with
    | none => some row
    | some best => if row.2.observedAt < best.2.observedAt then some best else some row

/-- The rows with an evidence and a primitive. -/
def rowsFor (rows : List NumberedRow) (evidenceRef primitive : String) : List NumberedRow :=
  rows.filter fun r => r.2.evidenceRef = some evidenceRef ∧ r.2.primitiveName = primitive

/-- `observation_by_evidence_and_primitive` -/
def observationByEvidenceAndPrimitive (rows : List NumberedRow) (evidenceRef primitive : String) :
    Option NumberedRow :=
  newestRow (rowsFor rows evidenceRef primitive)

theorem newestRow_eq_none {rows : List NumberedRow} : newestRow rows = none ↔ rows = [] := by
  cases rows with
  | nil => simp [newestRow]
  | cons row rows =>
    rw [newestRow]
    split
    · simp
    · split_ifs <;> simp

/-- The newest row is newer than those before it, and as new as those after it. -/
theorem newestRow_eq_some {rows : List NumberedRow} {row : NumberedRow} :
    newestRow rows = some row ↔ ∃ before after, rows = before ++ row :: after ∧
      (∀ r ∈ before, r.2.observedAt < row.2.observedAt) ∧
        ∀ r ∈ after, r.2.observedAt ≤ row.2.observedAt := by
  induction rows generalizing row with
  | nil => simp [newestRow]
  | cons first rows ih =>
    rw [newestRow]
    cases hrest : newestRow rows with
    | none =>
      obtain rfl := newestRow_eq_none.mp hrest
      simp only [Option.some.injEq, List.singleton_eq_append_iff]
      refine ⟨?_, ?_⟩
      · rintro rfl
        exact ⟨[], [], Or.inl ⟨rfl, rfl⟩, by simp, by simp⟩
      · rintro ⟨before, after, ⟨-, hrow⟩ | ⟨-, hrow⟩, -, -⟩
        · exact (List.cons.inj hrow).1.symm
        · cases hrow
    | some best =>
      obtain ⟨before, after, rfl, hbefore, hafter⟩ := ih.mp hrest
      dsimp only
      split_ifs with hlt
      · -- the first row is older than the best of the rest
        refine ⟨?_, ?_⟩
        · intro h
          obtain rfl := Option.some.inj h
          exact ⟨first :: before, after, rfl, List.forall_mem_cons.mpr ⟨hlt, hbefore⟩, hafter⟩
        · rintro ⟨before', after', hrows, hold, hle⟩
          cases before' with
          | nil =>
            obtain ⟨rfl, rfl⟩ := List.cons.inj hrows
            have hbest := hle best (List.mem_append_right before List.mem_cons_self)
            exact absurd hlt (not_lt.mpr hbest)
          | cons x before' =>
            obtain ⟨rfl, htail⟩ := List.cons.inj hrows
            have hrow := ih.mpr ⟨before', after', htail, (List.forall_mem_cons.mp hold).2, hle⟩
            exact hrest.symm.trans hrow
      · refine ⟨?_, ?_⟩
        · intro h
          obtain rfl := Option.some.inj h
          refine ⟨[], before ++ best :: after, rfl, by simp, fun r hr => ?_⟩
          refine le_trans ?_ (not_lt.mp hlt)
          rcases List.mem_append.mp hr with hr | hr
          · exact (hbefore r hr).le
          · rcases List.mem_cons.mp hr with rfl | hr
            · exact le_rfl
            · exact hafter r hr
        · rintro ⟨before', after', hrows, hold, hle⟩
          cases before' with
          | nil => exact congrArg some (List.cons.inj hrows).1
          | cons x before' =>
            obtain ⟨rfl, htail⟩ := List.cons.inj hrows
            have hrow := ih.mpr ⟨before', after', htail, (List.forall_mem_cons.mp hold).2, hle⟩
            obtain rfl := Option.some.inj (hrest.symm.trans hrow)
            exact absurd ((List.forall_mem_cons.mp hold).1) hlt

/-- Where a dispatch of the sensor stands, with the rows that it is to store. -/
inductive SensorPhase where
  | computing (rows : List NumberedRow)
  | publishing (rows : List NumberedRow) (obs : ObservationEnvelope)
  /-- the observation is out, and its row is to be made -/
  | recording (rows : List NumberedRow) (number : ℕ) (obs : ObservationEnvelope)
  | finished
  deriving DecidableEq

/-- The rows that a dispatch is to store. -/
def SensorPhase.rows : SensorPhase → List NumberedRow
  | computing rows => rows
  | publishing rows _ => rows
  | recording rows _ _ => rows
  | finished => []

/-- Where a task of the engine stands. -/
inductive EnginePhase where
  | looking (number : ℕ) (obs : ObservationEnvelope) (evidenceRef : String)
  /-- the first lookup has found nothing -/
  | waiting (number : ℕ) (obs : ObservationEnvelope) (evidenceRef : String)
  /-- the profile is updated from the row -/
  | applied (number : ℕ) (row : NumberedRow)
  /-- the second lookup has found nothing either, and a warning is logged -/
  | notFound (number : ℕ)
  /-- there is no evidence to look for -/
  | noEvidence (number : ℕ)
  deriving DecidableEq

/-- The observation table, the dispatches of the sensor, what they published, and the tasks of
the engine. -/
structure Handoff where
  rows : List NumberedRow
  dispatches : Calls SensorPhase
  published : List (ℕ × ObservationEnvelope)
  tasks : Calls EnginePhase

namespace Handoff

/-- One step of a dispatch or of a task. -/
inductive Step where
  | start (dispatch : ℕ)
  /-- the next primitive has an observation -/
  | compute (dispatch : ℕ) (obs : ObservationEnvelope)
  | publish (dispatch : ℕ)
  /-- the publication raises, whether or not the observation is out -/
  | publishFails (dispatch : ℕ) (out : Bool)
  | record (dispatch : ℕ) (ctx : RowContext)
  /-- `put_observations_bulk` -/
  | store (dispatch : ℕ)
  | storeFails (dispatch : ℕ)
  /-- the engine gets a publication -/
  | receive (task number : ℕ)
  | look (task : ℕ)
  | lookAgain (task : ℕ)

/-- Before any dispatch. -/
def init : Handoff := ⟨[], [], [], []⟩

/-- One step; a label that does not fit changes nothing. -/
def step (s : Handoff) : Step → Option Handoff
  | .start dispatch =>
    match s.dispatches.phase dispatch with
    | some _ => some s
    | none => some { s with dispatches := s.dispatches.put dispatch (.computing []) }
  | .compute dispatch obs =>
    match s.dispatches.phase dispatch with
    | some (.computing rows) =>
      some { s with dispatches := s.dispatches.put dispatch (.publishing rows obs) }
    | _ => some s
  | .publish dispatch =>
    match s.dispatches.phase dispatch with
    | some (.publishing rows obs) =>
      let number := s.published.length
      some { s with
        published := s.published ++ [(number, obs)]
        dispatches := s.dispatches.put dispatch (.recording rows number obs) }
    | _ => some s
  | .publishFails dispatch out =>
    match s.dispatches.phase dispatch with
    | some (.publishing rows obs) =>
      -- the primitive counts as failed: no row, and on to the next one
      some { s with
        published := if out then s.published ++ [(s.published.length, obs)] else s.published
        dispatches := s.dispatches.put dispatch (.computing rows) }
    | _ => some s
  | .record dispatch ctx =>
    match s.dispatches.phase dispatch with
    | some (.recording rows number obs) =>
      some { s with
        dispatches := s.dispatches.put dispatch (.computing (rows ++ [(number, obs.toRow ctx)])) }
    | _ => some s
  | .store dispatch =>
    match s.dispatches.phase dispatch with
    | some (.computing rows) =>
      some { s with
        rows := s.rows ++ rows
        dispatches := s.dispatches.put dispatch .finished }
    | _ => some s
  | .storeFails dispatch =>
    match s.dispatches.phase dispatch with
    | some (.computing _) => some { s with dispatches := s.dispatches.put dispatch .finished }
    | _ => some s
  | .receive task number =>
    match s.tasks.phase task, s.published[number]? with
    | none, some (_, obs) =>
      match obs.evidenceRef with
      | none => some { s with tasks := s.tasks.put task (.noEvidence number) }
      | some evidenceRef =>
        some { s with tasks := s.tasks.put task (.looking number obs evidenceRef) }
    | _, _ => some s
  | .look task =>
    match s.tasks.phase task with
    | some (.looking number obs evidenceRef) =>
      match observationByEvidenceAndPrimitive s.rows evidenceRef obs.primitive with
      | none => some { s with tasks := s.tasks.put task (.waiting number obs evidenceRef) }
      | some row => some { s with tasks := s.tasks.put task (.applied number row) }
    | _ => some s
  | .lookAgain task =>
    match s.tasks.phase task with
    | some (.waiting number obs evidenceRef) =>
      match observationByEvidenceAndPrimitive s.rows evidenceRef obs.primitive with
      | none => some { s with tasks := s.tasks.put task (.notFound number) }
      | some row => some { s with tasks := s.tasks.put task (.applied number row) }
    | _ => some s

variable {s s' : Handoff} {a : Step}

/-! ## Publications and rows -/

/-- The row was made from the publication with its number. -/
def Traced (published : List (ℕ × ObservationEnvelope)) (row : NumberedRow) : Prop :=
  ∃ obs ctx, (row.1, obs) ∈ published ∧ row.2 = obs.toRow ctx

theorem Traced.mono {published published' : List (ℕ × ObservationEnvelope)} {row : NumberedRow}
    (h : Traced published row) (hle : published ⊆ published') : Traced published' row := by
  obtain ⟨obs, ctx, hobs, hrow⟩ := h
  exact ⟨obs, ctx, hle hobs, hrow⟩

/-- What a task says about the tables. -/
def Holds (s : Handoff) : EnginePhase → Prop
  | .looking number obs evidenceRef | .waiting number obs evidenceRef =>
    (number, obs) ∈ s.published ∧ obs.evidenceRef = some evidenceRef
  | .applied number row => ∃ obs, (number, obs) ∈ s.published ∧
      row.2.evidenceRef = obs.evidenceRef ∧ row.2.primitiveName = obs.primitive
  | .notFound _ | .noEvidence _ => True

/-- What holds whatever fails. -/
structure Inv (s : Handoff) : Prop where
  numbered : ∀ (i : ℕ) x, s.published[i]? = some x → x.1 = i
  stored : ∀ row ∈ s.rows, Traced s.published row
  pending : ∀ dispatch p, s.dispatches.phase dispatch = some p →
    ∀ row ∈ p.rows, Traced s.published row
  recording : ∀ dispatch rows number obs,
    s.dispatches.phase dispatch = some (.recording rows number obs) → (number, obs) ∈ s.published
  tasks : ∀ task p, s.tasks.phase task = some p → s.Holds p

theorem inv_init : init.Inv where
  numbered _ _ h := by cases h
  stored _ h := absurd h List.not_mem_nil
  pending _ _ h := by cases h
  recording _ _ _ _ h := by cases h
  tasks _ _ h := by cases h

theorem Holds.mono {p : EnginePhase} (h : s.Holds p) (hle : s.published ⊆ s'.published) :
    s'.Holds p := by
  cases p with
  | looking number obs evidenceRef => exact ⟨hle h.1, h.2⟩
  | waiting number obs evidenceRef => exact ⟨hle h.1, h.2⟩
  | applied number row =>
    obtain ⟨obs, hobs, hkey⟩ := h
    exact ⟨obs, hle hobs, hkey⟩
  | notFound number => trivial
  | noEvidence number => trivial

/-- A dispatch goes on, with rows that are traced. -/
theorem Inv.putDispatch (h : s.Inv) {dispatch : ℕ} {p : SensorPhase}
    {published : List (ℕ × ObservationEnvelope)} {rows : List NumberedRow}
    (hpublished : published = s.published ∨
      ∃ obs, published = s.published ++ [(s.published.length, obs)])
    (hrows : ∀ row ∈ rows, Traced published row) (hp : ∀ row ∈ p.rows, Traced published row)
    (hrecording : ∀ rows number obs, p = .recording rows number obs → (number, obs) ∈ published) :
    Inv { s with
      rows := rows
      published := published
      dispatches := s.dispatches.put dispatch p } := by
  have hle : s.published ⊆ published := by
    rcases hpublished with rfl | ⟨obs, rfl⟩
    · exact List.Subset.refl _
    · exact List.subset_append_left _ _
  refine ⟨fun i x hx => ?_, hrows, fun d q hq row hrow => ?_, fun d rows' number obs hq => ?_,
    fun task q hq => (h.tasks task q hq).mono hle⟩
  · rcases hpublished with rfl | ⟨obs, rfl⟩
    · exact h.numbered i x hx
    · dsimp only at hx
      rw [List.getElem?_append] at hx
      split_ifs at hx with hi
      · exact h.numbered i x hx
      · obtain ⟨hlt, rfl⟩ := List.getElem?_eq_some_iff.mp hx
        simp only [List.length_singleton] at hlt
        simp only [List.getElem_singleton]
        omega
  · change (s.dispatches.put dispatch p).phase d = some q at hq
    rw [Calls.phase_put] at hq
    split_ifs at hq
    · obtain rfl := Option.some.inj hq
      exact hp row hrow
    · exact (h.pending d q hq row hrow).mono hle
  · change (s.dispatches.put dispatch p).phase d = _ at hq
    rw [Calls.phase_put] at hq
    split_ifs at hq
    · exact hrecording rows' number obs (Option.some.inj hq)
    · exact hle (h.recording d rows' number obs hq)

theorem Inv.putTask (h : s.Inv) {task : ℕ} {p : EnginePhase} (hp : s.Holds p) :
    Inv { s with tasks := s.tasks.put task p } := by
  refine ⟨h.numbered, h.stored, h.pending, h.recording, fun t q hq => ?_⟩
  change (s.tasks.put task p).phase t = some q at hq
  rw [Calls.phase_put] at hq
  split_ifs at hq
  · exact Option.some.inj hq ▸ hp
  · exact h.tasks t q hq

/-- A row that a lookup finds has the key that was asked for. -/
theorem observation_key {rows : List NumberedRow} {evidenceRef primitive : String}
    {row : NumberedRow}
    (h : observationByEvidenceAndPrimitive rows evidenceRef primitive = some row) :
    row.2.evidenceRef = some evidenceRef ∧ row.2.primitiveName = primitive := by
  obtain ⟨before, after, hrows, -⟩ := newestRow_eq_some.mp h
  have hmem : row ∈ rowsFor rows evidenceRef primitive := by
    rw [hrows]
    exact List.mem_append_right _ List.mem_cons_self
  simpa using (List.mem_filter.mp hmem).2

theorem Inv.step (h : s.Inv) (hstep : s.step a = some s') : s'.Inv := by
  cases a with
  | start dispatch =>
    simp only [Handoff.step] at hstep
    split at hstep <;> obtain rfl := Option.some.inj hstep
    · exact h
    · exact h.putDispatch (Or.inl rfl) h.stored (by rintro _ ⟨⟩) (by rintro _ _ _ ⟨⟩)
  | compute dispatch obs =>
    simp only [Handoff.step] at hstep
    split at hstep <;> obtain rfl := Option.some.inj hstep
    · next rows hphase =>
      have hrows := h.pending dispatch _ hphase
      exact h.putDispatch (Or.inl rfl) h.stored hrows (by rintro _ _ _ ⟨⟩)
    · exact h
  | publish dispatch =>
    simp only [Handoff.step] at hstep
    split at hstep <;> obtain rfl := Option.some.inj hstep
    · next rows obs hphase =>
      have hle := List.subset_append_left s.published [(s.published.length, obs)]
      refine h.putDispatch (Or.inr ⟨obs, rfl⟩) (fun row hrow => (h.stored row hrow).mono hle)
        (fun row hrow => (h.pending dispatch _ hphase row hrow).mono hle) ?_
      rintro _ _ _ ⟨⟩
      exact List.mem_append_right _ (List.mem_singleton_self _)
    · exact h
  | publishFails dispatch out =>
    simp only [Handoff.step] at hstep
    split at hstep <;> obtain rfl := Option.some.inj hstep
    · next rows obs hphase =>
      cases out with
      | true =>
        have hle := List.subset_append_left s.published [(s.published.length, obs)]
        exact h.putDispatch (Or.inr ⟨obs, rfl⟩) (fun row hrow => (h.stored row hrow).mono hle)
          (fun row hrow => (h.pending dispatch _ hphase row hrow).mono hle) (by rintro _ _ _ ⟨⟩)
      | false =>
        have hrows := h.pending dispatch _ hphase
        exact h.putDispatch (Or.inl rfl) h.stored hrows (by rintro _ _ _ ⟨⟩)
    · exact h
  | record dispatch ctx =>
    simp only [Handoff.step] at hstep
    split at hstep <;> obtain rfl := Option.some.inj hstep
    · next rows number obs hphase =>
      refine h.putDispatch (Or.inl rfl) h.stored (fun row hrow => ?_) (by rintro _ _ _ ⟨⟩)
      rcases List.mem_append.mp hrow with hold | hnew
      · exact h.pending dispatch _ hphase row hold
      · obtain rfl := List.mem_singleton.mp hnew
        exact ⟨obs, ctx, h.recording dispatch rows number obs hphase, rfl⟩
    · exact h
  | store dispatch =>
    simp only [Handoff.step] at hstep
    split at hstep <;> obtain rfl := Option.some.inj hstep
    · next rows hphase =>
      refine h.putDispatch (Or.inl rfl) (fun row hrow => ?_) (by rintro _ ⟨⟩) (by rintro _ _ _ ⟨⟩)
      rcases List.mem_append.mp hrow with hold | hnew
      · exact h.stored row hold
      · exact h.pending dispatch _ hphase row hnew
    · exact h
  | storeFails dispatch =>
    simp only [Handoff.step] at hstep
    split at hstep <;> obtain rfl := Option.some.inj hstep
    · exact h.putDispatch (Or.inl rfl) h.stored (by rintro _ ⟨⟩) (by rintro _ _ _ ⟨⟩)
    · exact h
  | receive task number =>
    simp only [Handoff.step] at hstep
    split at hstep
    · next m obs hphase hget =>
      obtain rfl : m = number := h.numbered number _ hget
      split at hstep <;> obtain rfl := Option.some.inj hstep
      · exact h.putTask trivial
      · next evidenceRef hevidence => exact h.putTask ⟨List.mem_of_getElem? hget, hevidence⟩
    · obtain rfl := Option.some.inj hstep
      exact h
  | look task =>
    simp only [Handoff.step] at hstep
    split at hstep
    · next number obs evidenceRef hphase =>
      obtain ⟨hmem, hevidence⟩ := h.tasks task _ hphase
      split at hstep <;> obtain rfl := Option.some.inj hstep
      · exact h.putTask ⟨hmem, hevidence⟩
      · next row hrow =>
        obtain ⟨href, hprimitive⟩ := observation_key hrow
        exact h.putTask ⟨obs, hmem, href.trans hevidence.symm, hprimitive⟩
    · obtain rfl := Option.some.inj hstep
      exact h
  | lookAgain task =>
    simp only [Handoff.step] at hstep
    split at hstep
    · next number obs evidenceRef hphase =>
      obtain ⟨hmem, hevidence⟩ := h.tasks task _ hphase
      split at hstep <;> obtain rfl := Option.some.inj hstep
      · exact h.putTask trivial
      · next row hrow =>
        obtain ⟨href, hprimitive⟩ := observation_key hrow
        exact h.putTask ⟨obs, hmem, href.trans hevidence.symm, hprimitive⟩
    · obtain rfl := Option.some.inj hstep
      exact h

/-- An observation that was handled is applied from its own row. -/
def OwnRow (s : Handoff) : Prop :=
  ∀ task p, s.tasks.phase task = some p →
    match p with
    | .applied number row => row.1 = number
    | .notFound _ => False
    | .noEvidence _ => False
    | _ => True

/-- The row of the observation is stored: it is newer than all rows with its key that were stored
before it, and as new as those that were stored after it. -/
def Newest (rows : List NumberedRow) (number : ℕ) (evidenceRef primitive : String) : Prop :=
  ∃ before own after, rowsFor rows evidenceRef primitive = before ++ own :: after ∧
    own.1 = number ∧ (∀ r ∈ before, r.2.observedAt < own.2.observedAt) ∧
      ∀ r ∈ after, r.2.observedAt ≤ own.2.observedAt

theorem newest_iff {rows : List NumberedRow} {number : ℕ} {evidenceRef primitive : String} :
    Newest rows number evidenceRef primitive ↔ ∃ own,
      observationByEvidenceAndPrimitive rows evidenceRef primitive = some own ∧
        own.1 = number := by
  simp only [Newest, observationByEvidenceAndPrimitive, newestRow_eq_some]
  refine ⟨?_, ?_⟩
  · rintro ⟨before, own, after, hrows, hnumber, hbefore, hafter⟩
    exact ⟨own, ⟨before, after, hrows, hbefore, hafter⟩, hnumber⟩
  · rintro ⟨own, ⟨before, after, hrows, hbefore, hafter⟩, hnumber⟩
    exact ⟨before, own, after, hrows, hnumber, hbefore, hafter⟩

/-- What the engine gets has an evidence; when it looks, the row of the observation is stored and
the newest with its key, unless it looks for the first time and no row with the key is stored. -/
def Timely (s : Handoff) : Step → Prop
  | .receive task number => s.tasks.phase task = none → ∀ x, s.published[number]? = some x →
      x.2.evidenceRef ≠ none
  | .look task => ∀ number obs evidenceRef,
      s.tasks.phase task = some (.looking number obs evidenceRef) →
        rowsFor s.rows evidenceRef obs.primitive = [] ∨
          Newest s.rows number evidenceRef obs.primitive
  | .lookAgain task => ∀ number obs evidenceRef,
      s.tasks.phase task = some (.waiting number obs evidenceRef) →
        Newest s.rows number evidenceRef obs.primitive
  | _ => True

/-- A task goes on, and the others are as they were. -/
theorem OwnRow.putTask (h : s.OwnRow) (task : ℕ) (p : EnginePhase) :
    OwnRow { s with tasks := s.tasks.put task p } ↔
      match p with
      | .applied number row => row.1 = number
      | .notFound _ => False
      | .noEvidence _ => False
      | _ => True := by
  refine ⟨?_, ?_⟩
  · intro h'
    exact h' task p Calls.phase_put_self
  · intro hp t q hq
    change (s.tasks.put task p).phase t = some q at hq
    rw [Calls.phase_put] at hq
    split_ifs at hq
    · exact Option.some.inj hq ▸ hp
    · exact h t q hq

/-- A step keeps it exactly when it is timely. -/
theorem ownRow_step_iff (h : s.OwnRow) (hstep : s.step a = some s') : s'.OwnRow ↔ s.Timely a := by
  cases a with
  | receive task number =>
    simp only [step] at hstep
    split at hstep
    · next m obs hphase hget =>
      split at hstep <;> obtain rfl := Option.some.inj hstep
      · next hnone =>
        rw [h.putTask]
        exact iff_of_false not_false fun htimely => htimely hphase _ hget hnone
      · next evidenceRef hevidence =>
        rw [h.putTask]
        refine iff_of_true trivial fun _ x hx => ?_
        obtain rfl := Option.some.inj (hget.symm.trans hx)
        rw [hevidence]
        rintro ⟨⟩
    · next hother =>
      obtain rfl := Option.some.inj hstep
      exact iff_of_true h fun hphase x hx => absurd hx (hother x.1 x.2 hphase)
  | look task =>
    simp only [step] at hstep
    split at hstep
    · next number obs evidenceRef hphase =>
      split at hstep <;> obtain rfl := Option.some.inj hstep
      · next hnone =>
        rw [h.putTask]
        refine iff_of_true trivial fun number' obs' evidenceRef' hphase' => ?_
        rw [hphase] at hphase'
        cases hphase'
        exact Or.inl (newestRow_eq_none.mp hnone)
      · next row hrow =>
        rw [h.putTask]
        refine ⟨?_, ?_⟩
        · intro hown number' obs' evidenceRef' hphase'
          rw [hphase] at hphase'
          cases hphase'
          exact Or.inr (newest_iff.mpr ⟨row, hrow, hown⟩)
        · intro htimely
          rcases htimely number obs evidenceRef hphase with hempty | hnewest
          · rw [observationByEvidenceAndPrimitive, newestRow_eq_none.mpr hempty] at hrow
            cases hrow
          · obtain ⟨own, hown, hnumber⟩ := newest_iff.mp hnewest
            obtain rfl := Option.some.inj (hown.symm.trans hrow)
            exact hnumber
    · next hother =>
      obtain rfl := Option.some.inj hstep
      exact iff_of_true h fun number obs evidenceRef hp => absurd hp (hother number obs evidenceRef)
  | lookAgain task =>
    simp only [step] at hstep
    split at hstep
    · next number obs evidenceRef hphase =>
      split at hstep <;> obtain rfl := Option.some.inj hstep
      · next hnone =>
        rw [h.putTask]
        refine iff_of_false not_false fun htimely => ?_
        obtain ⟨own, hown, -⟩ := newest_iff.mp (htimely number obs evidenceRef hphase)
        rw [hnone] at hown
        cases hown
      · next row hrow =>
        rw [h.putTask]
        refine ⟨?_, ?_⟩
        · intro hown number' obs' evidenceRef' hphase'
          rw [hphase] at hphase'
          cases hphase'
          exact newest_iff.mpr ⟨row, hrow, hown⟩
        · intro htimely
          obtain ⟨own, hown, hnumber⟩ := newest_iff.mp (htimely number obs evidenceRef hphase)
          obtain rfl := Option.some.inj (hown.symm.trans hrow)
          exact hnumber
    · next hother =>
      obtain rfl := Option.some.inj hstep
      exact iff_of_true h fun number obs evidenceRef hp => absurd hp (hother number obs evidenceRef)
  | _ =>
    -- a dispatch of the sensor touches no task
    refine iff_of_true ?_ trivial
    simp only [step] at hstep
    repeat' split at hstep
    all_goals
      obtain rfl := Option.some.inj hstep
      exact h

theorem exists_step (s : Handoff) (a : Step) : ∃ s', s.step a = some s' := by
  cases a <;> simp only [step] <;> repeat' first | exact ⟨_, rfl⟩ | split

/-- **Own rows.** Over every interleaving of dispatches, whatever of them fails, with the tasks of
the engine, every observation that the engine gets is applied from its own row exactly when every
lookup that decides is timely. -/
theorem ownRow_iff_timely (as : List Step) :
    Throughout step OwnRow init as ↔ Along step Timely init as := by
  obtain ⟨s, hrun⟩ := exists_run exists_step init as
  exact throughout_iff_along (I := OwnRow) (fun h => h)
    (fun h htimely hstep => (ownRow_step_iff h hstep).mpr htimely)
    (fun h hstep hown => (ownRow_step_iff h hstep).mp hown) (by rintro _ _ ⟨⟩) hrun

/-! ### Lost and mixed observations -/

/-- An observation of a message. -/
def sample (value : ℚ) : ObservationEnvelope :=
  ⟨"lexical.vocabulary_richness", .number value, some "r", "sensor"⟩

/-- The row of an observation, at a time. -/
def sampleContext (id : Uuid) (observedAt : ℤ) : RowContext := ⟨id, 1, "1", observedAt, "sensor"⟩

/-- The engine is faster than the dispatch, and the observation is dropped; or the message is
delivered to the sensor twice, and the first observation is applied from the row of the second. -/
theorem lost_and_mixed :
    (∃ s, run step init
        [.start 0, .compute 0 (sample 1), .publish 0, .receive 0 0, .look 0, .lookAgain 0,
          .record 0 (sampleContext 5 10), .store 0] = some s ∧
      s.tasks.phase 0 = some (.notFound 0) ∧ s.rows.length = 1) ∧
    ∃ s, run step init
        [.start 0, .compute 0 (sample 1), .publish 0, .record 0 (sampleContext 5 10), .store 0,
          .start 1, .compute 1 (sample 2), .publish 1, .record 1 (sampleContext 6 11), .store 1,
          .receive 0 0, .look 0] = some s ∧
      s.tasks.phase 0 = some (.applied 0 (1, (sample 2).toRow (sampleContext 6 11))) := by
  decide

end Handoff

end Eyenet
