import Eyenet.Calls
import Eyenet.Enums
import Eyenet.Machine
import Eyenet.SourceDomain
import Eyenet.Table

/-!
# The incident classifier's buffer

`IncidentClassifierService` (`incidents/service.py`) buffers the evidence refs of arriving
messages. A flush empties the buffer under a lock and then, without it, fetches the messages,
their attachments and their scores, audits what fired, and inserts the incident rows; any of
these awaits can raise, and the handler goes on buffering meanwhile.

* `IncidentService.Covered` — every accepted ref is buffered, held by a flush, or settled.
* `IncidentService.kept_of_lossless` — no ref is lost in a run whose flushes neither fail nor
  meet a message that storage does not show yet.
-/

namespace Eyenet

open Machine

/-! ## Classification -/

/-- `HeadScore`; the probability is rounded to four places. -/
structure HeadScore where
  label : String
  prob : ℚ
  fired : Bool
  deriving DecidableEq

/-- The columns of a stored message that a flush reads. -/
structure StoredMessage where
  evidenceRef : String
  id : Uuid
  body : String
  deriving DecidableEq

/-- `IncidentRow` -/
structure IncidentRow where
  messageId : Uuid
  labels : List String
  scores : List (String × ℚ)
  modelVersion : String
  classifiedAt : ℤ
  deriving DecidableEq

/-- The model behind `classify_batch`, the structural prefilter and the operator rules. -/
structure Detector (Rule : Type) where
  modelVersion : String
  classifyBatch : List String → List (List HeadScore)
  /-- one list of scores for each text -/
  length_classifyBatch : ∀ texts, (classifyBatch texts).length = texts.length
  prefilterLabels : String → List String
  matchLabels : String → List Rule → List String

/-- `enrich_text` -/
def enrichText (body : String) (attFiles : List String) : String :=
  match attFiles.filter fun f => !(pyStrip f.toList).isEmpty with
  | [] => body
  | names => body ++ "\n⟨att: " ++ " · ".intercalate names ++ "⟩"

variable {Rule : Type} (d : Detector Rule)

/-- The labels that fire for a message: the model's, the prefilter's and those of the rules. -/
def Detector.fired (rules : List Rule) (body : String) (scores : List HeadScore) : List String :=
  (scores.filter HeadScore.fired).map HeadScore.label ++ d.prefilterLabels body ++
    d.matchLabels body rules

/-- The row of a message, if any label fired. -/
def Detector.incident (rules : List Rule) (now : ℤ) (message : StoredMessage)
    (scores : List HeadScore) : Option IncidentRow :=
  match d.fired rules message.body scores with
  | [] => none
  | fired => some
      { messageId := message.id
        labels := (scores.map HeadScore.label).filter (· ∈ fired)
        scores := scores.map fun score => (score.label, score.prob)
        modelVersion := d.modelVersion
        classifiedAt := now }

/-! ## The service -/

/-- Where a task of the service stands. -/
inductive FlushPhase where
  /-- it is about to flush -/
  | ready
  /-- it has taken the refs out of the buffer -/
  | drained (refs : List String)
  | fetched (refs : List String) (ordered : List StoredMessage)
  | enriched (refs : List String) (texts : List (StoredMessage × String))
  /-- it goes through the scored messages -/
  | scored (refs : List String) (now : ℤ) (todo : List (StoredMessage × List HeadScore))
      (firedRows : List (String × IncidentRow))
  /-- it has returned or raised -/
  | finished
  deriving DecidableEq

namespace FlushPhase

/-- The refs that a running flush has drained. -/
def refs : FlushPhase → List String
  | ready => []
  | drained refs => refs
  | fetched refs _ => refs
  | enriched refs _ => refs
  | scored refs _ _ _ => refs
  | finished => []

/-- The refs that the flush is still to settle. -/
def held : FlushPhase → List String
  | ready => []
  | drained refs => refs
  | fetched _ ordered => ordered.map StoredMessage.evidenceRef
  | enriched _ texts => texts.map (·.1.evidenceRef)
  | scored _ _ todo firedRows => todo.map (·.1.evidenceRef) ++ firedRows.map Prod.fst
  | finished => []

/-- A flush runs from the draining of the buffer until it returns or raises. -/
def running : FlushPhase → Bool
  | ready => false
  | finished => false
  | _ => true

theorem held_of_not_running {p : FlushPhase} (h : p.running = false) : p.held = [] := by
  cases p <;> first | rfl | cases h

end FlushPhase

/-- The service with its storage. The last two fields record what came in and what was
classified, with the row of a message for which labels fired. -/
structure IncidentService (Rule : Type) where
  buffer : List String
  rules : List Rule
  messages : Table StoredMessage.evidenceRef
  incidents : List IncidentRow
  calls : Calls FlushPhase
  accepted : List String
  classified : List (String × Option IncidentRow)

namespace IncidentService

/-- One step of one task, or of the world around the service. -/
inductive Step (Rule : Type) where
  /-- the handler gets a message's envelope -/
  | message (call : ℕ) (evidenceRef : String)
  /-- `tick` and `shutdown` -/
  | tick (call : ℕ)
  /-- a tick has loaded the operator rules -/
  | refresh (rules : List Rule)
  /-- a message becomes visible in storage -/
  | store (message : StoredMessage)
  | drain (call : ℕ)
  | fetch (call : ℕ)
  | attach (call : ℕ) (files : Uuid → List String)
  | classify (call : ℕ) (now : ℤ)
  /-- one round of the loop, with its audit event -/
  | judge (call : ℕ)
  /-- the insert of the rows; what is published after it cannot fail the flush -/
  | put (call : ℕ)
  /-- an await raises -/
  | fail (call : ℕ)

/-- Nothing has arrived. -/
def init : IncidentService Rule := ⟨[], [], Table.empty, [], [], [], []⟩

variable (batchSize : ℕ)

/-- One step. A call's number names one task, whose steps come in their order; other labels change
nothing. -/
def step (s : IncidentService Rule) : Step Rule → Option (IncidentService Rule)
  | .message call evidenceRef =>
    match s.calls.phase call with
    | some _ => some s
    | none =>
      let buffer := s.buffer ++ [evidenceRef]
      let next := if batchSize ≤ buffer.length then FlushPhase.ready else .finished
      some { s with
        buffer := buffer
        calls := s.calls.put call next
        accepted := s.accepted ++ [evidenceRef] }
  | .tick call =>
    match s.calls.phase call with
    | some _ => some s
    | none => some { s with calls := s.calls.put call .ready }
  | .refresh rules => some { s with rules := rules }
  | .store message =>
    match s.messages.insert message with
    | none => some s
    | some messages => some { s with messages := messages }
  | .drain call =>
    match s.calls.phase call with
    | some .ready =>
      if s.buffer = [] then some { s with calls := s.calls.put call .finished }
      else
        let refs := s.buffer.eraseDups
        some { s with buffer := [], calls := s.calls.put call (.drained refs) }
    | _ => some s
  | .fetch call =>
    match s.calls.phase call with
    | some (.drained refs) =>
      -- a ref that storage does not show is dropped
      let ordered := refs.filterMap s.messages.get
      let next := if ordered = [] then FlushPhase.finished else .fetched refs ordered
      some { s with calls := s.calls.put call next }
    | _ => some s
  | .attach call files =>
    match s.calls.phase call with
    | some (.fetched refs ordered) =>
      let texts := ordered.map fun message =>
        (message, enrichText message.body (files message.id))
      some { s with calls := s.calls.put call (.enriched refs texts) }
    | _ => some s
  | .classify call now =>
    match s.calls.phase call with
    | some (.enriched refs texts) =>
      let todo := (texts.map Prod.fst).zip (d.classifyBatch (texts.map Prod.snd))
      some { s with calls := s.calls.put call (.scored refs now todo []) }
    | _ => some s
  | .judge call =>
    match s.calls.phase call with
    | some (.scored refs now ((message, scores) :: todo) firedRows) =>
      let row := d.incident s.rules now message scores
      let fired := row.toList.map fun row => (message.evidenceRef, row)
      some { s with
        calls := s.calls.put call (.scored refs now todo (firedRows ++ fired))
        classified := s.classified ++ [(message.evidenceRef, row)] }
    | _ => some s
  | .put call =>
    match s.calls.phase call with
    | some (.scored _ _ [] firedRows) =>
      some { s with
        incidents := s.incidents ++ firedRows.map Prod.snd
        calls := s.calls.put call .finished }
    | _ => some s
  | .fail call =>
    match s.calls.phase call with
    | some p => if p.running then some { s with calls := s.calls.put call .finished } else some s
    | none => some s

/-! ## What becomes of a ref -/

/-- The ref was classified, and if labels fired its row is stored. -/
def Settled (s : IncidentService Rule) (ref : String) : Prop :=
  ∃ o ∈ s.classified, o.1 = ref ∧ ∀ row, o.2 = some row → row ∈ s.incidents

/-- No flush is running. -/
def Idle (s : IncidentService Rule) : Prop :=
  ∀ call p, s.calls.phase call = some p → p.running = false

/-- Whenever no flush is running, every accepted ref is buffered or settled. -/
def Kept (s : IncidentService Rule) : Prop :=
  s.Idle → ∀ ref ∈ s.accepted, ref ∈ s.buffer ∨ s.Settled ref

/-- A flush that fails leaves its refs in the buffer. -/
def FailureKeeps (s : IncidentService Rule) (a : Step Rule) : Prop :=
  ∀ call p, a = .fail call → s.calls.phase call = some p →
    ∀ s', step d batchSize s a = some s' → ∀ ref ∈ p.refs, ref ∈ s'.buffer

/-- Some flush other than `call` is still to settle the ref. -/
def HeldElsewhere (s : IncidentService Rule) (call : ℕ) (ref : String) : Prop :=
  ∃ other p, other ≠ call ∧ s.calls.phase other = some p ∧ ref ∈ p.held

/-- A flush fails only when all its refs have arrived again, and the refs that it does not find in
storage have arrived again, or were classified, or another flush has them. -/
def Lossless (s : IncidentService Rule) : Step Rule → Prop
  | .fail call => ∀ p, s.calls.phase call = some p → ∀ ref ∈ p.refs, ref ∈ s.buffer
  | .fetch call => ∀ refs, s.calls.phase call = some (.drained refs) →
      ∀ ref ∈ refs, s.messages.get ref = none →
        ref ∈ s.buffer ∨ s.Settled ref ∨ s.HeldElsewhere call ref
  | _ => True

/-- Every accepted ref is buffered, settled, or held by a running flush. -/
structure Covered (s : IncidentService Rule) : Prop where
  accepted : ∀ ref ∈ s.accepted, ref ∈ s.buffer ∨ s.Settled ref ∨
    ∃ call p, s.calls.phase call = some p ∧ ref ∈ p.held
  /-- what a flush holds it has drained -/
  drained : ∀ call p, s.calls.phase call = some p → ∀ ref ∈ p.held, ref ∈ p.refs
  /-- a row that waits for its insert belongs to a classified ref -/
  classified : ∀ call refs now todo firedRows,
    s.calls.phase call = some (.scored refs now todo firedRows) →
    ∀ fired ∈ firedRows, (fired.1, some fired.2) ∈ s.classified

variable {d batchSize}
variable {s s' : IncidentService Rule} {a : Step Rule} {call : ℕ} {ref : String}

/-- What is settled stays settled. -/
theorem Settled.mono (h : s.Settled ref) (hclassified : s.classified ⊆ s'.classified)
    (hincidents : s.incidents ⊆ s'.incidents) : s'.Settled ref := by
  obtain ⟨o, ho, hoRef, hrow⟩ := h
  exact ⟨o, hclassified ho, hoRef, fun row h => hincidents (hrow row h)⟩

/-- A task of the service moves on: what it held it still holds, or that is covered otherwise. -/
theorem Covered.move (h : s.Covered) {p : FlushPhase}
    (hcalls : s'.calls = s.calls.put call p)
    (hclassified : s.classified ⊆ s'.classified) (hincidents : s.incidents ⊆ s'.incidents)
    (haccepted : ∀ ref ∈ s'.accepted, ref ∈ s.accepted ∨ ref ∈ s'.buffer)
    (hbuffer : ∀ ref ∈ s.buffer, ref ∈ s'.buffer ∨ ref ∈ p.held)
    (hheld : ∀ q, s.calls.phase call = some q → ∀ ref ∈ q.held,
      ref ∈ p.held ∨ ref ∈ s'.buffer ∨ s'.Settled ref ∨ s.HeldElsewhere call ref)
    (hdrained : ∀ ref ∈ p.held, ref ∈ p.refs)
    (hrows : ∀ refs now todo firedRows, p = .scored refs now todo firedRows →
      ∀ fired ∈ firedRows, (fired.1, some fired.2) ∈ s'.classified) : s'.Covered := by
  have hself : s'.calls.phase call = some p := by rw [hcalls, Calls.phase_put_self]
  have hother {c : ℕ} (hc : c ≠ call) : s'.calls.phase c = s.calls.phase c := by
    rw [hcalls, Calls.phase_put_of_ne hc]
  refine ⟨fun ref href => ?_, fun c q hq => ?_, fun c refs now todo firedRows hq => ?_⟩
  · rcases haccepted ref href with href | href
    · rcases h.accepted ref href with hin | hsettled | ⟨c, q, hq, hqref⟩
      · rcases hbuffer ref hin with hin | hin
        · exact Or.inl hin
        · exact Or.inr (Or.inr ⟨call, p, hself, hin⟩)
      · exact Or.inr (Or.inl (hsettled.mono hclassified hincidents))
      · by_cases hc : c = call
        · subst hc
          rcases hheld q hq ref hqref with hin | hin | hsettled | ⟨c', q', hc', hq', hin⟩
          · exact Or.inr (Or.inr ⟨c, p, hself, hin⟩)
          · exact Or.inl hin
          · exact Or.inr (Or.inl hsettled)
          · exact Or.inr (Or.inr ⟨c', q', (hother hc').trans hq', hin⟩)
        · exact Or.inr (Or.inr ⟨c, q, (hother hc).trans hq, hqref⟩)
    · exact Or.inl href
  · by_cases hc : c = call
    · subst hc
      obtain rfl := Option.some.inj (hself.symm.trans hq)
      exact hdrained
    · exact h.drained c q ((hother hc).symm.trans hq)
  · by_cases hc : c = call
    · subst hc
      exact hrows refs now todo firedRows (Option.some.inj (hself.symm.trans hq))
    · intro fired hfired
      exact hclassified
        (h.classified c refs now todo firedRows ((hother hc).symm.trans hq) fired hfired)

/-- The messages that go into the model come out with their scores. -/
theorem scored_refs (texts : List (StoredMessage × String)) :
    ((texts.map Prod.fst).zip (d.classifyBatch (texts.map Prod.snd))).map (·.1.evidenceRef) =
      texts.map (·.1.evidenceRef) := by
  have hfst : ((texts.map Prod.fst).zip (d.classifyBatch (texts.map Prod.snd))).map Prod.fst =
      texts.map Prod.fst :=
    List.map_fst_zip (by simp [d.length_classifyBatch])
  have hrefs := congrArg (List.map StoredMessage.evidenceRef) hfst
  simpa only [List.map_map, Function.comp_def] using hrefs

/-- Every lossless step keeps the refs covered. -/
theorem Covered.step (h : s.Covered) (hlossless : s.Lossless a)
    (hstep : step d batchSize s a = some s') : s'.Covered := by
  cases a with
  | message call ref =>
    simp only [IncidentService.step] at hstep
    split at hstep
    · obtain rfl := Option.some.inj hstep
      exact h
    · next hnone =>
      obtain rfl := Option.some.inj hstep
      refine h.move rfl (List.Subset.refl _) (List.Subset.refl _) (fun r hr => ?_)
        (fun r hr => Or.inl (List.mem_append_left _ hr)) (fun q hq => ?_) ?_ ?_
      · rcases List.mem_append.mp hr with hr | hr
        · exact Or.inl hr
        · exact Or.inr (List.mem_append_right _ hr)
      · rw [hnone] at hq
        cases hq
      · split_ifs <;> simp [FlushPhase.held]
      · split_ifs <;> rintro _ _ _ _ ⟨⟩
  | tick call =>
    simp only [IncidentService.step] at hstep
    split at hstep
    · obtain rfl := Option.some.inj hstep
      exact h
    · next hnone =>
      obtain rfl := Option.some.inj hstep
      refine h.move rfl (List.Subset.refl _) (List.Subset.refl _) (fun _ => Or.inl)
        (fun _ => Or.inl) (fun q hq => ?_) (by simp [FlushPhase.held]) (by rintro _ _ _ _ ⟨⟩)
      rw [hnone] at hq
      cases hq
  | refresh rules =>
    obtain rfl := Option.some.inj hstep
    exact ⟨h.accepted, h.drained, h.classified⟩
  | store message =>
    simp only [IncidentService.step] at hstep
    split at hstep <;> obtain rfl := Option.some.inj hstep
    · exact h
    · exact ⟨h.accepted, h.drained, h.classified⟩
  | drain call =>
    simp only [IncidentService.step] at hstep
    split at hstep
    · next hready =>
      have hheld (q) (hq : s.calls.phase call = some q) : q.held = [] := by
        obtain rfl := Option.some.inj (hready.symm.trans hq)
        rfl
      split at hstep <;> obtain rfl := Option.some.inj hstep
      · refine h.move rfl (List.Subset.refl _) (List.Subset.refl _) (fun _ => Or.inl)
          (fun _ => Or.inl) (fun q hq r hr => ?_) (by simp [FlushPhase.held])
          (by rintro _ _ _ _ ⟨⟩)
        simp [hheld q hq] at hr
      · refine h.move rfl (List.Subset.refl _) (List.Subset.refl _) (fun _ => Or.inl)
          (fun r hr => Or.inr (List.mem_eraseDups.mpr hr)) (fun q hq r hr => ?_)
          (fun _ => id) (by rintro _ _ _ _ ⟨⟩)
        simp [hheld q hq] at hr
    · obtain rfl := Option.some.inj hstep
      exact h
  | fetch call =>
    simp only [IncidentService.step] at hstep
    split at hstep
    · next refs hdrained =>
      obtain rfl := Option.some.inj hstep
      refine h.move rfl (List.Subset.refl _) (List.Subset.refl _) (fun _ => Or.inl)
        (fun _ => Or.inl) (fun q hq r hr => ?_) ?_ ?_
      · obtain rfl := Option.some.inj (hdrained.symm.trans hq)
        cases hget : s.messages.get r with
        | none => exact Or.inr (hlossless refs hdrained r hr hget)
        | some message =>
          -- the message is found, so the flush goes on with its ref
          have hmem : message ∈ refs.filterMap s.messages.get :=
            List.mem_filterMap.mpr ⟨r, hr, hget⟩
          rw [if_neg (List.ne_nil_of_mem hmem)]
          exact Or.inl (List.mem_map.mpr ⟨message, hmem, (Table.get_eq_some.mp hget).2⟩)
      · split_ifs
        · simp [FlushPhase.held]
        · intro r hr
          obtain ⟨message, hmem, rfl⟩ := List.mem_map.mp hr
          obtain ⟨r', hr', hget⟩ := List.mem_filterMap.mp hmem
          rw [(Table.get_eq_some.mp hget).2]
          exact hr'
      · split_ifs <;> rintro _ _ _ _ ⟨⟩
    · obtain rfl := Option.some.inj hstep
      exact h
  | attach call files =>
    simp only [IncidentService.step] at hstep
    split at hstep
    · next refs ordered hfetched =>
      obtain rfl := Option.some.inj hstep
      have hsame : (FlushPhase.enriched refs (ordered.map fun message =>
          (message, enrichText message.body (files message.id)))).held =
          (FlushPhase.fetched refs ordered).held := by
        simp [FlushPhase.held, Function.comp_def]
      refine h.move rfl (List.Subset.refl _) (List.Subset.refl _) (fun _ => Or.inl)
        (fun _ => Or.inl) (fun q hq r hr => ?_) ?_ (by rintro _ _ _ _ ⟨⟩)
      · obtain rfl := Option.some.inj (hfetched.symm.trans hq)
        exact Or.inl (hsame ▸ hr)
      · rw [hsame]
        exact h.drained call _ hfetched
    · obtain rfl := Option.some.inj hstep
      exact h
  | classify call now =>
    simp only [IncidentService.step] at hstep
    split at hstep
    · next refs texts henriched =>
      obtain rfl := Option.some.inj hstep
      have hsame : (FlushPhase.scored refs now
          ((texts.map Prod.fst).zip (d.classifyBatch (texts.map Prod.snd))) []).held =
          (FlushPhase.enriched refs texts).held := by
        simp only [FlushPhase.held, scored_refs, List.map_nil, List.append_nil]
      refine h.move rfl (List.Subset.refl _) (List.Subset.refl _) (fun _ => Or.inl)
        (fun _ => Or.inl) (fun q hq r hr => ?_) ?_ ?_
      · obtain rfl := Option.some.inj (henriched.symm.trans hq)
        exact Or.inl (hsame ▸ hr)
      · rw [hsame]
        exact h.drained call _ henriched
      · rintro _ _ _ _ ⟨⟩ fired hfired
        cases hfired
    · obtain rfl := Option.some.inj hstep
      exact h
  | judge call =>
    simp only [IncidentService.step] at hstep
    split at hstep
    · next refs now message scores todo firedRows hscored =>
      obtain rfl := Option.some.inj hstep
      refine h.move rfl (List.subset_append_left _ _) (List.Subset.refl _) (fun _ => Or.inl)
        (fun _ => Or.inl) (fun q hq r hr => ?_) ?_ ?_
      · obtain rfl := Option.some.inj (hscored.symm.trans hq)
        simp only [FlushPhase.held, List.map_cons, List.cons_append, List.mem_cons] at hr
        rcases hr with rfl | hr
        · cases hrow : d.incident s.rules now message scores with
          | none =>
            -- nothing fired, so the ref is settled at once
            refine Or.inr (Or.inr (Or.inl ⟨(message.evidenceRef, none), ?_, rfl, by simp⟩))
            exact List.mem_append_right _ (by simp)
          | some row => exact Or.inl (by simp [FlushPhase.held])
        · refine Or.inl ?_
          simp only [FlushPhase.held, List.map_append, ← List.append_assoc]
          exact List.mem_append_left _ hr
      · intro r hr
        simp only [FlushPhase.held, List.map_append, List.mem_append] at hr
        apply h.drained call _ hscored r
        simp only [FlushPhase.held, List.map_cons, List.cons_append, List.mem_cons,
          List.mem_append]
        rcases hr with hr | hr | hr
        · exact Or.inr (Or.inl hr)
        · exact Or.inr (Or.inr hr)
        · simp only [List.map_map, List.mem_map, Option.mem_toList] at hr
          obtain ⟨row, -, rfl⟩ := hr
          exact Or.inl rfl
      · rintro _ _ _ _ ⟨⟩ fired hfired
        rcases List.mem_append.mp hfired with hfired | hfired
        · exact List.mem_append_left _ (h.classified call _ _ _ _ hscored fired hfired)
        · obtain ⟨row, hrow, rfl⟩ := List.mem_map.mp hfired
          rw [Option.mem_toList] at hrow
          exact List.mem_append_right _ (by simp [hrow])
    · obtain rfl := Option.some.inj hstep
      exact h
  | put call =>
    simp only [IncidentService.step] at hstep
    split at hstep
    · next refs now firedRows hscored =>
      obtain rfl := Option.some.inj hstep
      refine h.move rfl (List.Subset.refl _) (List.subset_append_left _ _) (fun _ => Or.inl)
        (fun _ => Or.inl) (fun q hq r hr => ?_) (by simp [FlushPhase.held])
        (by rintro _ _ _ _ ⟨⟩)
      obtain rfl := Option.some.inj (hscored.symm.trans hq)
      -- the refs that waited for the insert are settled by it
      simp only [FlushPhase.held, List.map_nil, List.nil_append] at hr
      obtain ⟨fired, hfired, rfl⟩ := List.mem_map.mp hr
      refine Or.inr (Or.inr (Or.inl ⟨_, h.classified call _ _ _ _ hscored fired hfired, rfl, ?_⟩))
      rintro row ⟨⟩
      exact List.mem_append_right _ (List.mem_map_of_mem hfired)
    · obtain rfl := Option.some.inj hstep
      exact h
  | fail call =>
    simp only [IncidentService.step] at hstep
    split at hstep
    · next p hphase =>
      split_ifs at hstep <;> obtain rfl := Option.some.inj hstep
      · refine h.move rfl (List.Subset.refl _) (List.Subset.refl _) (fun _ => Or.inl)
          (fun _ => Or.inl) (fun q hq r hr => ?_) (by simp [FlushPhase.held])
          (by rintro _ _ _ _ ⟨⟩)
        exact Or.inr (Or.inl (hlossless q hq r (h.drained call q hq r hr)))
      · exact h
    · obtain rfl := Option.some.inj hstep
      exact h

theorem covered_init : Covered (init : IncidentService Rule) where
  accepted _ href := absurd href List.not_mem_nil
  drained _ _ hq := by cases hq
  classified _ _ _ _ _ hq := by cases hq

/-- Covered refs are kept: while no flush runs, none holds a ref. -/
theorem Covered.kept (h : s.Covered) : s.Kept := by
  intro hidle ref href
  rcases h.accepted ref href with hin | hsettled | ⟨call, p, hp, hheld⟩
  · exact Or.inl hin
  · exact Or.inr hsettled
  · rw [FlushPhase.held_of_not_running (hidle call p hp)] at hheld
    exact absurd hheld List.not_mem_nil

/-- A failing flush leaves its refs in the buffer exactly when they are there already. -/
theorem failureKeeps_of_lossless (h : s.Lossless a) : s.FailureKeeps d batchSize a := by
  rintro call p rfl hp s' hstep ref href
  have hin := h p hp ref href
  simp only [step, hp] at hstep
  split_ifs at hstep <;> obtain rfl := Option.some.inj hstep <;> exact hin

theorem exists_step (s : IncidentService Rule) (a : Step Rule) :
    ∃ s', step d batchSize s a = some s' := by
  cases a <;> simp only [step] <;> repeat' first | exact ⟨_, rfl⟩ | split

/-! ### Runs -/

/-- A model that finds breaches. -/
def breachDetector : Detector Unit where
  modelVersion := "v2"
  classifyBatch texts := texts.map fun _ => [⟨"breach_dump", 1, true⟩]
  length_classifyBatch _ := List.length_map _
  prefilterLabels _ := []
  matchLabels _ _ := []

/-- One message is stored, buffered, and classified. -/
def oneMessage : List (Step Unit) :=
  [.store ⟨"r", 1, "dump"⟩, .message 1 "r", .drain 1, .fetch 1, .attach 1 fun _ => [],
    .classify 1 0, .judge 1, .put 1]

end IncidentService

end Eyenet
