import Eyenet.Calls
import Eyenet.Enums
import Eyenet.Machine
import Eyenet.Table
import Mathlib.Logic.Function.Basic

/-!
# Collector processes

`CollectorSupervisor.reconcile_collectors` (`services/collector_supervisor.py`) drives every
collector row toward its desired state: it spawns, reaps and terminates child processes, keeps
their handles in `_procs`, and writes what it observes (`sqlmodel_repo/collectors.py`). Between
its awaits operators change and delete rows, and children exit.

* `reconcileRow` — what a tick decides for one row.
* `SupervisorRun.Supervised` — every living child is tracked, under a row that exists, and is the
  only one of its collector.
* `SupervisorRun.supervised_iff_careful` — exactly when every interleaving keeps it so.
-/

namespace Eyenet

open Machine

/-! ## Rows and processes -/

/-- `CollectorDesiredState` -/
inductive CollectorDesiredState where
  | running
  | stopped
  | disabled
  deriving DecidableEq, Repr

/-- `CollectorObservedState` -/
inductive CollectorObservedState where
  | stopped
  | starting
  | running
  | cooling
  | crashed
  deriving DecidableEq, Repr

/-- The columns of a collector that the reconciler reads or writes. -/
structure CollectorRow where
  id : Uuid
  desiredState : CollectorDesiredState
  observedState : CollectorObservedState
  restartCount : ℕ
  lastHeartbeatAt : Option ℤ
  /-- the type and the message, set together -/
  lastError : Option (String × String)
  deriving DecidableEq

/-- A child process and the collector that it was spawned for; it lives while it has no exit
code. -/
structure Process where
  pid : ℕ
  collectorId : Uuid
  returncode : Option ℤ
  deriving DecidableEq

/-- The arguments of `record_collector_observed_state`. -/
structure ObservedWrite where
  collectorId : Uuid
  observedState : CollectorObservedState
  restartCount : Option ℕ
  lastError : Option (String × String)
  lastHeartbeatAt : Option ℤ
  deriving DecidableEq

/-- `record_collector_observed_state`; `none` where it raises. -/
def recordObserved (rows : Table CollectorRow.id) (w : ObservedWrite) :
    Option (Table CollectorRow.id) :=
  match rows.get w.collectorId with
  | none => none
  | some row =>
    if w.observedState = .crashed ∧ w.lastError = none then none
    else some (rows.put
      { row with
        observedState := w.observedState
        lastHeartbeatAt := w.lastHeartbeatAt.or row.lastHeartbeatAt
        restartCount := w.restartCount.getD row.restartCount
        -- without an error the write clears the last one
        lastError := w.lastError })

/-- `_set_observed`: the write, unless nothing changed. -/
def setObserved (collector : CollectorRow) (newState : CollectorObservedState)
    (restartCount : Option ℕ) (lastError : Option (String × String))
    (lastHeartbeatAt : Option ℤ) : Option ObservedWrite :=
  if collector.observedState = newState ∧ restartCount.getD collector.restartCount =
      collector.restartCount then none
  else some ⟨collector.id, newState, restartCount, lastError, lastHeartbeatAt⟩

/-- `_heartbeat` -/
def heartbeat (collector : CollectorRow) (wallNow : ℤ) : Option ObservedWrite :=
  if collector.observedState ≠ .running then
    setObserved collector .running none none (some wallNow)
  else some ⟨collector.id, .running, none, none, some wallNow⟩

/-- `min(2.0 ** rc, _MAX_COOLING_S)`; the power overflows from `2.0 ** 1024` on. -/
def coolingSeconds (rc : ℕ) : Option ℕ := if rc < 1024 then some (min (2 ^ rc) 600) else none

/-- Nanoseconds of a second, the unit of the monotonic clock here. -/
def second : ℤ := 1000000000

/-! ## One row of a tick -/

/-- What the supervisor keeps in memory: the child of each collector and the deadlines of those
that cool down. -/
structure SupervisorMemory where
  procs : Uuid → Option ℕ
  coolingUntil : Uuid → Option ℤ

/-- Where the reconciler goes after the synchronous part of a row. -/
inductive RowOutcome where
  /-- it awaits a write, if there is one to make -/
  | settle (write : Option ObservedWrite)
  /-- it awaits a spawn -/
  | spawn
  /-- it raises -/
  | raise
  deriving DecidableEq

/-- The write and the deadline of a crash. -/
def crash (m : SupervisorMemory) (collector : CollectorRow) (now : ℤ) (errorType : String)
    (errorMessage : String) : SupervisorMemory × RowOutcome :=
  let rc := collector.restartCount + 1
  match coolingSeconds rc with
  | none => (m, .raise)
  | some seconds =>
    ({ m with
        coolingUntil :=
          Function.update m.coolingUntil collector.id (some (now + seconds * second)) },
      .settle (setObserved collector .crashed (some rc) (some (errorType, errorMessage)) none))

/-- `del self._procs[cid]` -/
def SupervisorMemory.forget (m : SupervisorMemory) (id : Uuid) : SupervisorMemory :=
  { m with procs := Function.update m.procs id none }

/-- `self._cooling_until.pop(cid, None)` -/
def SupervisorMemory.endCooling (m : SupervisorMemory) (id : Uuid) : SupervisorMemory :=
  { m with coolingUntil := Function.update m.coolingUntil id none }

/-- The child of a collector, by its handle. -/
def SupervisorMemory.child (m : SupervisorMemory) (processes : Table Process.pid) (id : Uuid) :
    Option Process :=
  (m.procs id).bind processes.get

/-- The body of the loop in `reconcile_collectors`, from the row to the first await. A terminated
child is forgotten at once, whether or not it has exited. -/
def reconcileRow (m : SupervisorMemory) (processes : Table Process.pid) (now wallNow : ℤ)
    (collector : CollectorRow) : SupervisorMemory × RowOutcome :=
  match m.child processes collector.id with
  | some ⟨_, _, some code⟩ =>
    -- the child has exited
    let m := m.forget collector.id
    match collector.desiredState with
    | .running => crash m collector now "process_exit"
        ("collector process exited with code " ++ toString code)
    | .stopped | .disabled =>
      (m.endCooling collector.id, .settle (setObserved collector .stopped none none none))
  | child =>
    match collector.desiredState with
    | .stopped | .disabled =>
      -- `terminate` asks the child to exit; the process goes on until it does
      let m := if child.isSome then m.forget collector.id else m
      (m.endCooling collector.id, .settle (setObserved collector .stopped none none none))
    | .running =>
      if child.isSome then (m, .settle (heartbeat collector wallNow))
      else
        match m.coolingUntil collector.id with
        | some cool =>
          if now < cool then (m, .settle (setObserved collector .cooling none none none))
          else (m.endCooling collector.id, .spawn)
        | none => (m.endCooling collector.id, .spawn)

section ReconcileRow

variable {m : SupervisorMemory} {processes : Table Process.pid} {now wallNow : ℤ}
variable {collector : CollectorRow} {errorType errorMessage : String}

theorem crash_procs :
    (crash m collector now errorType errorMessage).1.procs = m.procs := by
  rw [crash]
  split <;> rfl

theorem crash_ne_spawn : (crash m collector now errorType errorMessage).2 ≠ .spawn := by
  rw [crash]
  split <;> rintro ⟨⟩

/-- The reconciler forgets a child that has exited, and any child of a collector that is not
wanted. -/
def forgets (m : SupervisorMemory) (processes : Table Process.pid) (collector : CollectorRow) :
    Bool :=
  match m.child processes collector.id with
  | none => false
  | some child => child.returncode.isSome || collector.desiredState ≠ .running

/-- What a tick does to the handles. -/
theorem reconcileRow_procs : (reconcileRow m processes now wallNow collector).1.procs =
    if forgets m processes collector then Function.update m.procs collector.id none
    else m.procs := by
  rw [reconcileRow, forgets]
  split
  · next pid cid code hchild =>
    rw [hchild]
    cases collector.desiredState <;> simp [crash_procs, SupervisorMemory.forget,
      SupervisorMemory.endCooling]
  · next hchild =>
    cases hc : m.child processes collector.id with
    | none =>
      cases collector.desiredState <;> simp [SupervisorMemory.endCooling]
      split
      · split_ifs <;> rfl
      · rfl
    | some child =>
      have hlive : child.returncode = none := by
        obtain ⟨pid, cid, code⟩ := child
        cases code with
        | none => rfl
        | some code => exact absurd hc (hchild pid cid code)
      cases collector.desiredState <;> simp [hlive, SupervisorMemory.forget,
        SupervisorMemory.endCooling]

/-- A spawn is for a collector without a child. -/
theorem child_of_spawn (h : (reconcileRow m processes now wallNow collector).2 = .spawn) :
    m.child processes collector.id = none := by
  rw [reconcileRow] at h
  split at h
  · cases hd : collector.desiredState <;> simp only [hd] at h
    · exact absurd h crash_ne_spawn
    · cases h
    · cases h
  · cases hc : m.child processes collector.id with
    | none => rfl
    | some child =>
      rw [hc] at h
      cases hd : collector.desiredState <;> simp [hd] at h

end ReconcileRow

/-! ## Runs -/

/-- Where the tick in progress stands. -/
inductive TickPhase where
  | idle
  /-- the rows of the snapshot that are still to be visited -/
  | visiting (now : ℤ) (collectors : List CollectorRow)
  | settling (now : ℤ) (collectors : List CollectorRow) (write : ObservedWrite)
  | spawning (now : ℤ) (collectors : List CollectorRow) (collector : CollectorRow)

/-- The tick after the synchronous part of a row. -/
def RowOutcome.phase (now : ℤ) (collectors : List CollectorRow) (collector : CollectorRow) :
    RowOutcome → TickPhase
  | .settle none => .visiting now collectors
  | .settle (some write) => .settling now collectors write
  | .spawn => .spawning now collectors collector
  | .raise => .idle

theorem RowOutcome.phase_spawning {outcome : RowOutcome} {now now' : ℤ}
    {collectors collectors' : List CollectorRow} {collector collector' : CollectorRow}
    (h : outcome.phase now collectors collector = .spawning now' collectors' collector') :
    outcome = .spawn ∧ collector' = collector := by
  cases outcome with
  | settle write => cases write <;> cases h
  | spawn =>
    cases h
    exact ⟨rfl, rfl⟩
  | raise => cases h

/-- Where a `DELETE /v1/collectors/{id}` request stands. -/
inductive DeletePhase where
  /-- the row that it read was observed as stopped -/
  | checked (id : Uuid)
  | finished
  deriving DecidableEq

/-- The rows, the processes, the supervisor, and the requests in progress. -/
structure SupervisorRun where
  rows : Table CollectorRow.id
  processes : Table Process.pid
  memory : SupervisorMemory
  tick : TickPhase
  deletes : Calls DeletePhase

namespace SupervisorRun

/-- One step of the supervisor, an operator, or a child. -/
inductive Step where
  | setDesired (id : Uuid) (desiredState : CollectorDesiredState)
  /-- a delete request reads the row and checks that it is stopped -/
  | checkDelete (call : ℕ) (id : Uuid)
  | delete (call : ℕ)
  | exit (pid : ℕ) (code : ℤ)
  /-- `list_collectors`, at the start of a tick -/
  | beginTick (now : ℤ)
  | visit (wallNow : ℤ)
  | settle
  /-- `_spawn` returns, with a new process unless the identity is missing or the spawn refused -/
  | spawned (pid : Option ℕ) (wallNow : ℤ)
  /-- an await of the tick raises -/
  | abort

/-- Some rows, and no process yet. -/
def init (rows : Table CollectorRow.id) : SupervisorRun :=
  ⟨rows, Table.empty, ⟨fun _ => none, fun _ => none⟩, .idle, []⟩

/-- One step; a label that does not fit the state changes nothing. -/
def step (s : SupervisorRun) : Step → Option SupervisorRun
  | .setDesired id desiredState =>
    match s.rows.get id with
    | none => some s
    | some row => some { s with rows := s.rows.put { row with desiredState := desiredState } }
  | .checkDelete call id =>
    match s.deletes.phase call, s.rows.get id with
    | none, some row =>
      let next := if row.observedState = .stopped then DeletePhase.checked id else .finished
      some { s with deletes := s.deletes.put call next }
    | _, _ => some s
  | .delete call =>
    match s.deletes.phase call with
    | some (.checked id) =>
      some { s with rows := s.rows.erase id, deletes := s.deletes.put call .finished }
    | _ => some s
  | .exit pid code =>
    match s.processes.get pid with
    | some process =>
      if process.returncode = none then
        some { s with processes := s.processes.put { process with returncode := some code } }
      else some s
    | none => some s
  | .beginTick now =>
    match s.tick with
    | .idle => some { s with tick := .visiting now s.rows.rows }
    | _ => some s
  | .visit wallNow =>
    match s.tick with
    | .visiting _ [] => some { s with tick := .idle }
    | .visiting now (collector :: collectors) =>
      let (memory, outcome) := reconcileRow s.memory s.processes now wallNow collector
      some { s with memory := memory, tick := outcome.phase now collectors collector }
    | _ => some s
  | .settle =>
    match s.tick with
    | .settling now collectors write =>
      match recordObserved s.rows write with
      | none => some { s with tick := .idle }
      | some rows => some { s with rows := rows, tick := .visiting now collectors }
    | _ => some s
  | .spawned pid wallNow =>
    match s.tick with
    | .spawning now collectors collector =>
      match pid with
      | some pid =>
        match s.processes.insert ⟨pid, collector.id, none⟩ with
        | none => some s
        | some processes =>
          let memory :=
            { s.memory with procs := Function.update s.memory.procs collector.id (some pid) }
          let outcome :=
            RowOutcome.settle (setObserved collector .running none none (some wallNow))
          some { s with
            processes := processes
            memory := memory
            tick := outcome.phase now collectors collector }
      | none =>
        let (memory, outcome) := crash s.memory collector now "spawn_failed"
          "spawn failed: missing identity or OS refused the process"
        some { s with memory := memory, tick := outcome.phase now collectors collector }
    | _ => some s
  | .abort => some { s with tick := .idle }

/-! ## The law -/

/-- At most one child of a collector lives, and every living child is tracked under a collector
row that exists. -/
structure Supervised (s : SupervisorRun) : Prop where
  one : ∀ p ∈ s.processes, ∀ q ∈ s.processes, p.returncode = none → q.returncode = none →
    p.collectorId = q.collectorId → p = q
  tracked : ∀ p ∈ s.processes, p.returncode = none →
    s.memory.procs p.collectorId = some p.pid ∧ ∃ row ∈ s.rows, row.id = p.collectorId

/-- No child of the collector lives. -/
def NoLiveChild (s : SupervisorRun) (id : Uuid) : Prop :=
  ∀ p ∈ s.processes, p.collectorId = id → p.returncode ≠ none

/-- A tick that finds a collector stopped or disabled finds no living child of it, a row is
deleted only when no child of it lives, and a process is spawned only while its row exists. -/
def Careful (s : SupervisorRun) : Step → Prop
  | .visit _ => ∀ now collector collectors, s.tick = .visiting now (collector :: collectors) →
      collector.desiredState ≠ .running → s.NoLiveChild collector.id
  | .delete call => ∀ id, s.deletes.phase call = some (.checked id) → s.NoLiveChild id
  | .spawned (some pid) _ => ∀ now collector collectors,
      s.tick = .spawning now collectors collector → s.processes.get pid = none →
      ∃ row ∈ s.rows, row.id = collector.id
  | _ => True

variable {s s' : SupervisorRun} {a : Step}

/-- What a tick knows: the handles are of processes of their collectors, and a collector that is
about to be spawned has no handle. -/
structure Inv (s : SupervisorRun) : Prop where
  handles : ∀ id pid, s.memory.procs id = some pid →
    ∃ p ∈ s.processes, p.pid = pid ∧ p.collectorId = id
  spawning : ∀ now collectors collector, s.tick = .spawning now collectors collector →
    s.memory.procs collector.id = none

/-- One child for each collector follows from the handles. -/
theorem supervised_iff : s.Supervised ↔ ∀ p ∈ s.processes, p.returncode = none →
    s.memory.procs p.collectorId = some p.pid ∧ ∃ row ∈ s.rows, row.id = p.collectorId := by
  refine ⟨Supervised.tracked, fun h => ⟨fun p hp q hq hlive hlive' hid => ?_, h⟩⟩
  have hp' := (h p hp hlive).1
  rw [hid, (h q hq hlive').1] at hp'
  exact Table.eq_of_key hp hq (Option.some.inj hp').symm

/-- The living child of a collector is the one that its handle leads to. -/
theorem noLiveChild_iff (hinv : s.Inv) (h : s.Supervised) (id : Uuid) :
    s.NoLiveChild id ↔ ∀ p, s.memory.child s.processes id = some p → p.returncode ≠ none := by
  refine ⟨?_, ?_⟩
  · intro hnone p hp
    obtain ⟨pid, hpid, hget⟩ := Option.bind_eq_some_iff.mp hp
    obtain ⟨hmem, rfl⟩ := Table.get_eq_some.mp hget
    obtain ⟨q, hq, hqpid, hqid⟩ := hinv.handles id _ hpid
    obtain rfl := Table.eq_of_key hq hmem hqpid
    exact hnone q hq hqid
  · rintro hchild p hp rfl hlive
    refine hchild p ?_ hlive
    rw [SupervisorMemory.child, (h.tracked p hp hlive).1]
    exact Table.get_self hp

/-- A tick that forgets the handle of a collector leaves its living children untracked. -/
theorem supervised_forget (h : s.Supervised) {id : Uuid} {memory : SupervisorMemory}
    {tick : TickPhase} (hprocs : memory.procs = Function.update s.memory.procs id none) :
    Supervised { s with memory := memory, tick := tick } ↔ s.NoLiveChild id := by
  rw [supervised_iff]
  dsimp only
  rw [hprocs]
  refine ⟨?_, ?_⟩
  · rintro hs p hp rfl hlive
    have htracked := (hs p hp hlive).1
    rw [Function.update_self] at htracked
    cases htracked
  · intro hnone p hp hlive
    have hne : p.collectorId ≠ id := fun hid => hnone p hp hid hlive
    rw [Function.update_of_ne hne]
    exact h.tracked p hp hlive

/-- A visit keeps the law exactly when it forgets no living child. -/
theorem supervised_visit (hinv : s.Inv) (h : s.Supervised) {now wallNow : ℤ}
    {collector : CollectorRow} {tick : TickPhase} :
    Supervised { s with
        memory := (reconcileRow s.memory s.processes now wallNow collector).1, tick := tick } ↔
      (collector.desiredState ≠ .running → s.NoLiveChild collector.id) := by
  have hprocs : (reconcileRow s.memory s.processes now wallNow collector).1.procs = _ :=
    reconcileRow_procs
  have hchild := noLiveChild_iff hinv h collector.id
  cases hforgets : forgets s.memory s.processes collector with
  | true =>
    rw [hforgets, if_pos rfl] at hprocs
    rw [supervised_forget h hprocs]
    refine ⟨fun hnone _ => hnone, fun hnone => ?_⟩
    by_cases hd : collector.desiredState = .running
    · -- a child of a wanted collector is forgotten only when it has exited
      refine hchild.mpr fun p hp => ?_
      rw [forgets, hp] at hforgets
      simpa [hd, Option.isSome_iff_ne_none] using hforgets
    · exact hnone hd
  | false =>
    rw [hforgets, if_neg (by simp)] at hprocs
    refine iff_of_true ?_ fun hd => hchild.mpr fun p hp => ?_
    · rw [supervised_iff]
      dsimp only
      rw [hprocs]
      exact h.tracked
    · rw [forgets, hp] at hforgets
      simp [hd] at hforgets

/-- A step that touches neither processes nor handles, and no row's id, keeps the law. -/
theorem Supervised.of_rows (h : s.Supervised) (hprocesses : s'.processes = s.processes)
    (hprocs : s'.memory.procs = s.memory.procs)
    (hrows : ∀ row ∈ s.rows, ∃ row' ∈ s'.rows, row'.id = row.id) : s'.Supervised := by
  rw [supervised_iff]
  intro p hp hlive
  rw [hprocesses] at hp
  obtain ⟨hpid, row, hrow, hid⟩ := h.tracked p hp hlive
  obtain ⟨row', hrow', hid'⟩ := hrows row hrow
  exact ⟨hprocs ▸ hpid, row', hrow', hid'.trans hid⟩

/-- An update keeps the ids. -/
theorem exists_mem_put {rows : Table CollectorRow.id} {r r' : CollectorRow} (hr : r ∈ rows)
    (hid : r'.id = r.id) : ∀ row ∈ rows, ∃ row' ∈ rows.put r', row'.id = row.id := by
  intro row hrow
  by_cases heq : row = r
  · exact ⟨r', Table.mem_put_self hr hid, heq ▸ hid⟩
  · exact ⟨row, (Table.mem_put hr hid).mpr (Or.inr ⟨hrow, heq⟩), rfl⟩

theorem exists_mem_recordObserved {rows rows' : Table CollectorRow.id} {w : ObservedWrite}
    (h : recordObserved rows w = some rows') :
    ∀ row ∈ rows, ∃ row' ∈ rows', row'.id = row.id := by
  rw [recordObserved] at h
  split at h
  · cases h
  · next row hget =>
    split_ifs at h
    obtain rfl := Option.some.inj h
    exact exists_mem_put (Table.get_eq_some.mp hget).1 rfl

/-- A row is deleted. -/
theorem supervised_delete (h : s.Supervised) {id : Uuid} {deletes : Calls DeletePhase} :
    Supervised { s with rows := s.rows.erase id, deletes := deletes } ↔ s.NoLiveChild id := by
  rw [supervised_iff]
  refine ⟨?_, ?_⟩
  · rintro hs p hp rfl hlive
    obtain ⟨-, row, hrow, hid⟩ := hs p hp hlive
    exact (Table.mem_erase.mp hrow).2 hid
  · intro hnone p hp hlive
    obtain ⟨hpid, row, hrow, hid⟩ := h.tracked p hp hlive
    refine ⟨hpid, row, Table.mem_erase.mpr ⟨hrow, fun hrowId => ?_⟩, hid⟩
    exact hnone p hp (hid.symm.trans hrowId) hlive

/-- A child exits. -/
theorem supervised_exit (h : s.Supervised) {process : Process} (hp : process ∈ s.processes)
    (code : ℤ) :
    Supervised { s with
      processes := s.processes.put { process with returncode := some code } } := by
  rw [supervised_iff]
  intro p hmem hlive
  rcases (Table.mem_put hp (by rfl)).mp hmem with rfl | ⟨hmem, -⟩
  · cases hlive
  · exact h.tracked p hmem hlive

/-- A process is spawned for a collector without a handle. -/
theorem supervised_spawn (h : s.Supervised) {pid : ℕ} {id : Uuid}
    {processes : Table Process.pid} {memory : SupervisorMemory} {tick : TickPhase}
    (hinsert : s.processes.insert ⟨pid, id, none⟩ = some processes)
    (hnone : s.memory.procs id = none)
    (hprocs : memory.procs = Function.update s.memory.procs id (some pid)) :
    Supervised { s with processes := processes, memory := memory, tick := tick } ↔
      ∃ row ∈ s.rows, row.id = id := by
  rw [supervised_iff]
  dsimp only
  rw [hprocs]
  refine ⟨?_, ?_⟩
  · intro hs
    exact (hs ⟨pid, id, none⟩ ((Table.mem_insert hinsert).mpr (Or.inr rfl)) rfl).2
  · intro hrow p hp hlive
    rcases (Table.mem_insert hinsert).mp hp with hp | rfl
    · have hne : p.collectorId ≠ id := by
        rintro rfl
        rw [(h.tracked p hp hlive).1] at hnone
        cases hnone
      rw [Function.update_of_ne hne]
      exact h.tracked p hp hlive
    · exact ⟨Function.update_self _ _ _, hrow⟩

/-- Steps that touch no handle and no process, and start no spawn. -/
theorem Inv.of_handles (h : s.Inv) (hprocesses : s'.processes = s.processes)
    (hprocs : s'.memory.procs = s.memory.procs)
    (htick : ∀ now collectors collector, s'.tick = .spawning now collectors collector →
      s.tick = .spawning now collectors collector) : s'.Inv where
  handles id pid hpid := by
    rw [hprocesses]
    exact h.handles id pid (hprocs ▸ hpid)
  spawning now collectors collector hspawning := by
    rw [hprocs]
    exact h.spawning now collectors collector (htick now collectors collector hspawning)

/-- A visit leaves no handle for a collector that it is about to spawn. -/
theorem Inv.visit (h : s.Inv) {now wallNow : ℤ} {collectors : List CollectorRow}
    {collector : CollectorRow} :
    let result := reconcileRow s.memory s.processes now wallNow collector
    Inv { s with memory := result.1, tick := result.2.phase now collectors collector } where
  handles id pid hpid := by
    refine h.handles id pid ?_
    dsimp only at hpid
    rw [reconcileRow_procs] at hpid
    split_ifs at hpid
    · rw [Function.update_apply] at hpid
      split_ifs at hpid
      exact hpid
    · exact hpid
  spawning now' collectors' collector' htick := by
    obtain ⟨hspawn, rfl⟩ := RowOutcome.phase_spawning htick
    have hchild := child_of_spawn hspawn
    dsimp only
    rw [reconcileRow_procs, forgets, hchild, if_neg (by simp)]
    cases hprocs : s.memory.procs collector'.id with
    | none => rfl
    | some pid =>
      -- a handle leads to a process
      obtain ⟨p, hp, rfl, -⟩ := h.handles _ _ hprocs
      rw [SupervisorMemory.child, hprocs, Option.bind_some, Table.get_self hp] at hchild
      cases hchild

theorem Inv.exit (h : s.Inv) {process : Process} (hp : process ∈ s.processes) (code : ℤ) :
    Inv { s with processes := s.processes.put { process with returncode := some code } } where
  handles id pid hpid := by
    obtain ⟨p, hmem, hppid, hid⟩ := h.handles id pid hpid
    by_cases heq : p = process
    · exact ⟨_, Table.mem_put_self hp (by rfl), heq ▸ hppid, heq ▸ hid⟩
    · exact ⟨p, (Table.mem_put hp (by rfl)).mpr (Or.inr ⟨hmem, heq⟩), hppid, hid⟩
  spawning := h.spawning

theorem Inv.spawn (h : s.Inv) {pid : ℕ} {now : ℤ} {collectors : List CollectorRow}
    {collector : CollectorRow} {processes : Table Process.pid} {write : Option ObservedWrite}
    (hinsert : s.processes.insert ⟨pid, collector.id, none⟩ = some processes) :
    Inv { s with
      processes := processes
      memory :=
        { s.memory with procs := Function.update s.memory.procs collector.id (some pid) }
      tick := (RowOutcome.settle write).phase now collectors collector } where
  handles id pid' hpid := by
    dsimp only at hpid
    rw [Function.update_apply] at hpid
    split_ifs at hpid with hid
    · obtain rfl := Option.some.inj hpid
      exact ⟨_, (Table.mem_insert hinsert).mpr (Or.inr rfl), rfl, hid.symm⟩
    · obtain ⟨p, hp, hppid, hpcid⟩ := h.handles id pid' hpid
      exact ⟨p, (Table.mem_insert hinsert).mpr (Or.inl hp), hppid, hpcid⟩
  spawning now' collectors' collector' htick := by
    cases (RowOutcome.phase_spawning htick).1

/-- Every step keeps what a tick knows. -/
theorem Inv.step (h : s.Inv) (hstep : s.step a = some s') : s'.Inv := by
  cases a with
  | setDesired id desiredState =>
    simp only [SupervisorRun.step] at hstep
    split at hstep <;> obtain rfl := Option.some.inj hstep <;>
      exact h.of_handles rfl rfl fun _ _ _ hspawning => hspawning
  | checkDelete call id =>
    simp only [SupervisorRun.step] at hstep
    split at hstep <;> obtain rfl := Option.some.inj hstep <;>
      exact h.of_handles rfl rfl fun _ _ _ hspawning => hspawning
  | delete call =>
    simp only [SupervisorRun.step] at hstep
    split at hstep <;> obtain rfl := Option.some.inj hstep <;>
      exact h.of_handles rfl rfl fun _ _ _ hspawning => hspawning
  | exit pid code =>
    simp only [SupervisorRun.step] at hstep
    split at hstep
    · next process hget =>
      split_ifs at hstep <;> obtain rfl := Option.some.inj hstep
      · exact h.exit (Table.get_eq_some.mp hget).1 code
      · exact h
    · obtain rfl := Option.some.inj hstep
      exact h
  | beginTick now =>
    simp only [SupervisorRun.step] at hstep
    split at hstep <;> obtain rfl := Option.some.inj hstep
    · exact h.of_handles rfl rfl (by rintro _ _ _ ⟨⟩)
    · exact h
  | visit wallNow =>
    simp only [SupervisorRun.step] at hstep
    split at hstep <;> obtain rfl := Option.some.inj hstep
    · exact h.of_handles rfl rfl (by rintro _ _ _ ⟨⟩)
    · exact h.visit
    · exact h
  | settle =>
    simp only [SupervisorRun.step] at hstep
    split at hstep
    · split at hstep <;> obtain rfl := Option.some.inj hstep <;>
        exact h.of_handles rfl rfl (by rintro _ _ _ ⟨⟩)
    · obtain rfl := Option.some.inj hstep
      exact h
  | spawned pid wallNow =>
    simp only [SupervisorRun.step] at hstep
    split at hstep
    · next now collectors collector htick =>
      cases pid with
      | none =>
        obtain rfl := Option.some.inj hstep
        refine h.of_handles rfl crash_procs fun now' collectors' collector' hspawning => ?_
        exact absurd (RowOutcome.phase_spawning hspawning).1 crash_ne_spawn
      | some pid =>
        dsimp only at hstep
        split at hstep <;> obtain rfl := Option.some.inj hstep
        · exact h
        · next processes hinsert => exact h.spawn hinsert
    · obtain rfl := Option.some.inj hstep
      exact h
  | abort =>
    obtain rfl := Option.some.inj hstep
    exact h.of_handles rfl rfl (by rintro _ _ _ ⟨⟩)

/-- One step keeps the law exactly when it is careful. -/
theorem supervised_step_iff (hinv : s.Inv) (h : s.Supervised) (hstep : s.step a = some s') :
    s'.Supervised ↔ s.Careful a := by
  cases a with
  | setDesired id desiredState =>
    refine iff_of_true ?_ trivial
    simp only [step] at hstep
    split at hstep <;> obtain rfl := Option.some.inj hstep
    · exact h
    · next row hget =>
      exact h.of_rows rfl rfl (exists_mem_put (Table.get_eq_some.mp hget).1 rfl)
  | checkDelete call id =>
    refine iff_of_true ?_ trivial
    simp only [step] at hstep
    split at hstep <;> obtain rfl := Option.some.inj hstep
    · exact h.of_rows rfl rfl fun row hrow => ⟨row, hrow, rfl⟩
    · exact h
  | delete call =>
    simp only [step] at hstep
    split at hstep <;> obtain rfl := Option.some.inj hstep
    · next id hchecked =>
      rw [supervised_delete h]
      refine ⟨fun hnone id' hid' => ?_, fun hcareful => hcareful id hchecked⟩
      rw [hchecked] at hid'
      cases hid'
      exact hnone
    · next hchecked => exact iff_of_true h fun id hid => absurd hid (hchecked id)
  | exit pid code =>
    refine iff_of_true ?_ trivial
    simp only [step] at hstep
    split at hstep
    · next process hget =>
      split_ifs at hstep <;> obtain rfl := Option.some.inj hstep
      · exact supervised_exit h (Table.get_eq_some.mp hget).1 code
      · exact h
    · obtain rfl := Option.some.inj hstep
      exact h
  | beginTick now =>
    refine iff_of_true ?_ trivial
    simp only [step] at hstep
    split at hstep <;> obtain rfl := Option.some.inj hstep
    · exact h.of_rows rfl rfl fun row hrow => ⟨row, hrow, rfl⟩
    · exact h
  | visit wallNow =>
    simp only [step] at hstep
    split at hstep <;> obtain rfl := Option.some.inj hstep
    · next now htick =>
      refine iff_of_true (h.of_rows rfl rfl fun row hrow => ⟨row, hrow, rfl⟩) ?_
      intro now' collector collectors htick'
      rw [htick] at htick'
      cases htick'
    · next now collector collectors htick =>
      rw [supervised_visit hinv h]
      refine ⟨?_, ?_⟩
      · intro hvisit now' collector' collectors' htick'
        rw [htick] at htick'
        cases htick'
        exact hvisit
      · intro hcareful
        exact hcareful now collector collectors htick
    · next hvisiting =>
      refine iff_of_true h fun now collector collectors htick => ?_
      exact absurd htick (hvisiting now collector collectors)
  | settle =>
    refine iff_of_true ?_ trivial
    simp only [step] at hstep
    split at hstep
    · split at hstep <;> obtain rfl := Option.some.inj hstep
      · exact h.of_rows rfl rfl fun row hrow => ⟨row, hrow, rfl⟩
      · next rows hrecord => exact h.of_rows rfl rfl (exists_mem_recordObserved hrecord)
    · obtain rfl := Option.some.inj hstep
      exact h
  | spawned pid wallNow =>
    simp only [step] at hstep
    split at hstep
    · next now collectors collector htick =>
      cases pid with
      | none =>
        obtain rfl := Option.some.inj hstep
        exact iff_of_true (h.of_rows rfl crash_procs fun row hrow => ⟨row, hrow, rfl⟩) trivial
      | some pid =>
        dsimp only at hstep
        split at hstep <;> obtain rfl := Option.some.inj hstep
        · next hinsert =>
          refine iff_of_true h fun _ _ _ _ hfree => ?_
          exact absurd hfree (Table.get_ne_none_of_insert_eq_none hinsert)
        · next processes hinsert =>
          rw [supervised_spawn h hinsert (hinv.spawning now collectors collector htick) rfl]
          refine ⟨?_, ?_⟩
          · intro hrow now' collector' collectors' htick' _
            rw [htick] at htick'
            cases htick'
            exact hrow
          · intro hcareful
            exact hcareful now collector collectors htick (Table.insert_eq_some hinsert).1
    · next hspawning =>
      obtain rfl := Option.some.inj hstep
      refine iff_of_true h ?_
      cases pid with
      | none => trivial
      | some pid =>
        intro now collector collectors htick
        exact absurd htick (hspawning now collectors collector)
  | abort =>
    obtain rfl := Option.some.inj hstep
    exact iff_of_true (h.of_rows rfl rfl fun row hrow => ⟨row, hrow, rfl⟩) trivial

theorem exists_step (s : SupervisorRun) (a : Step) : ∃ s', s.step a = some s' := by
  cases a <;> simp only [step] <;> repeat' first | exact ⟨_, rfl⟩ | split

/-- **One process for each collector.** Over every interleaving of ticks, operators and exits, at
most one child of a collector lives and every living child is tracked under a row that exists
exactly when no tick forgets a living child, no row is deleted under one, and none is spawned for
a row that is gone. -/
theorem supervised_iff_careful (rows : Table CollectorRow.id) (as : List Step) :
    Throughout step Supervised (init rows) as ↔ Along step Careful (init rows) as := by
  obtain ⟨s, hrun⟩ := exists_run exists_step (init rows) as
  have hinv : (init rows).Inv := ⟨fun _ _ => by rintro ⟨⟩, fun _ _ _ => by rintro ⟨⟩⟩
  have hsupervised : (init rows).Supervised :=
    supervised_iff.mpr fun p hp => absurd hp (Table.not_mem_empty p)
  exact throughout_iff_along (I := fun s => Inv s ∧ Supervised s) (fun h => h.2)
    (fun h hc hstep => ⟨h.1.step hstep, (supervised_step_iff h.1 h.2 hstep).mpr hc⟩)
    (fun h hstep hs => (supervised_step_iff h.1 h.2 hstep).mp hs)
    ⟨hinv, hsupervised⟩ hrun

/-! ### Two collectors on one account -/

/-- One collector that is to run. -/
def oneCollector : Table CollectorRow.id := ⟨[⟨1, .running, .stopped, 0, none, none⟩], by decide⟩

/-- The operator stops the collector and starts it again while the terminated child winds up: two
of its children live, and only one of them is tracked. -/
theorem terminated_child_lives_on :
    ∃ s, run step (init oneCollector)
        [.beginTick 0, .visit 0, .spawned (some 10) 0, .settle, .visit 0,
          .setDesired 1 .stopped, .beginTick 2, .visit 2, .settle, .visit 2,
          .setDesired 1 .running, .beginTick 4, .visit 4, .spawned (some 11) 4] = some s ∧
      ∃ p ∈ s.processes, ∃ q ∈ s.processes, p.returncode = none ∧ q.returncode = none ∧
        p.collectorId = q.collectorId ∧ p ≠ q := by
  decide

end SupervisorRun

end Eyenet
