import Eyenet.Supervisor

/-!
# Collectors that keep failing

A collector whose child exits, or whose spawn fails, is cooled for `min(2^restart_count, 600)`
seconds, and the count only grows. The supervisor computes the power as a float, which overflows
from `2.0 ** 1024` on (`services/collector_supervisor.py`).

* `SupervisorRun.Counted` — what a tick holds of a row is what the table holds.
* `SupervisorRun.AtLeast.step` — the restart count of a collector never falls.
* `SupervisorRun.cools_down_iff` — exactly when every failure is settled and the tick goes on.
-/

namespace Eyenet

open Machine

/-- The documented duration of the cooling window. -/
def coolingDelay (restartCount : ℕ) : ℤ := (min (2 ^ restartCount) 600 : ℕ) * second

theorem coolingDelay_mono {rc rc' : ℕ} (h : rc ≤ rc') : coolingDelay rc ≤ coolingDelay rc' := by
  have hpow : 2 ^ rc ≤ 2 ^ rc' := Nat.pow_le_pow_right (by decide) h
  have hmin : min (2 ^ rc) 600 ≤ min (2 ^ rc') 600 := min_le_min_right _ hpow
  exact Int.mul_le_mul_of_nonneg_right (Int.ofNat_le.mpr hmin) (by decide)

/-- The rows that a tick still holds. -/
def TickPhase.snapshot : TickPhase → List CollectorRow
  | .idle => []
  | .visiting _ collectors => collectors
  | .settling _ collectors _ => collectors
  | .spawning _ collectors collector => collector :: collectors

/-- A collector that fails, the time of the tick, and the rows that are still to be visited. -/
structure Failure where
  now : ℤ
  collector : CollectorRow
  rest : List CollectorRow

namespace SupervisorRun

/-- The failure that a step meets: a child that has exited though it is wanted, or a spawn that is
refused. -/
def failing (s : SupervisorRun) : Step → Option Failure
  | .visit _ =>
    match s.tick with
    | .visiting now (collector :: collectors) =>
      if collector.desiredState = .running ∧
          (s.memory.child s.processes collector.id).any fun child => child.returncode.isSome then
        some ⟨now, collector, collectors⟩
      else none
    | _ => none
  | .spawned none _ =>
    match s.tick with
    | .spawning now collectors collector => some ⟨now, collector, collectors⟩
    | _ => none
  | _ => none

/-- A failure is settled: the collector cools for the documented time, the tick stands at a write
of the crash with all the other collectors to go, and the write of a row that is there is made and
leaves the tick at the next collector. -/
structure Settled (f : Failure) (s' : SupervisorRun) : Prop where
  cooling : s'.memory.coolingUntil f.collector.id =
    some (f.now + coolingDelay (f.collector.restartCount + 1))
  write : ∃ write, s'.tick = .settling f.now f.rest write ∧ write.collectorId = f.collector.id ∧
    write.observedState = .crashed ∧ write.restartCount = some (f.collector.restartCount + 1)
  goesOn : (∃ row ∈ s'.rows, row.id = f.collector.id) → ∃ s'', s'.step .settle = some s'' ∧
    s''.tick = .visiting f.now f.rest ∧ ∃ row ∈ s''.rows, row.id = f.collector.id ∧
      row.observedState = .crashed ∧ row.restartCount = f.collector.restartCount + 1

/-- Every failure that a step meets is settled. -/
def CoolsDown (s : SupervisorRun) (a : Step) : Prop :=
  ∀ f, s.failing a = some f → ∃ s', s.step a = some s' ∧ Settled f s'

/-- A collector that fails again cools no shorter than before. -/
def NeverShorter (rows : Table CollectorRow.id) (as : List Step) : Prop :=
  ∀ bs a cs b, bs ++ a :: cs ++ [b] <+: as → ∀ t u, run step (init rows) bs = some t →
    run step t (a :: cs) = some u → ∀ f g, t.failing a = some f → u.failing b = some g →
      f.collector.id = g.collector.id →
      coolingDelay (f.collector.restartCount + 1) ≤ coolingDelay (g.collector.restartCount + 1)

/-- A collector that fails has not been restarted too often for a float. -/
def PowerFits (s : SupervisorRun) (a : Step) : Prop :=
  ∀ f, s.failing a = some f → f.collector.restartCount < 1023

variable {s s' : SupervisorRun} {a : Step} {f : Failure}

/-! ## One failure -/

/-- The synchronous part of a failure. -/
theorem crash_eq {m : SupervisorMemory} {collector : CollectorRow} {now : ℤ}
    {errorType errorMessage : String} (h : collector.restartCount < 1023) :
    crash m collector now errorType errorMessage =
      ({ m with
          coolingUntil :=
            Function.update m.coolingUntil collector.id
              (some (now + coolingDelay (collector.restartCount + 1))) },
        .settle (some ⟨collector.id, .crashed, some (collector.restartCount + 1),
          some (errorType, errorMessage), none⟩)) := by
  have hlt : collector.restartCount + 1 < 1024 := by omega
  have hcount : ¬ (collector.observedState = .crashed ∧
      (some (collector.restartCount + 1)).getD collector.restartCount =
        collector.restartCount) := by
    rintro ⟨-, hsame⟩
    rw [Option.getD_some] at hsame
    omega
  rw [crash, coolingSeconds, if_pos hlt, setObserved, if_neg hcount]
  rfl

theorem crash_raise {m : SupervisorMemory} {collector : CollectorRow} {now : ℤ}
    {errorType errorMessage : String} (h : ¬ collector.restartCount < 1023) :
    crash m collector now errorType errorMessage = (m, .raise) := by
  have hge : ¬ collector.restartCount + 1 < 1024 := by omega
  rw [crash, coolingSeconds, if_neg hge]

/-- What a step does with a failure: it goes to `crash`. -/
theorem step_of_failing (h : s.failing a = some f) : ∃ m errorType errorMessage,
    s.step a = some { s with
      memory := (crash m f.collector f.now errorType errorMessage).1
      tick := (crash m f.collector f.now errorType errorMessage).2.phase f.now f.rest
        f.collector } := by
  cases a with
  | visit wallNow =>
    rw [failing] at h
    split at h
    · next now collector collectors htick =>
      split_ifs at h with hfails
      obtain rfl := Option.some.inj h
      obtain ⟨hdesired, hexited⟩ := hfails
      cases hchild : s.memory.child s.processes collector.id with
      | none =>
        rw [hchild] at hexited
        cases hexited
      | some child =>
        rw [hchild] at hexited
        obtain ⟨pid, id, code⟩ := child
        obtain ⟨code, rfl⟩ := Option.isSome_iff_exists.mp hexited
        refine ⟨s.memory.forget collector.id, "process_exit",
          "collector process exited with code " ++ toString code, ?_⟩
        simp only [step, htick, reconcileRow, hchild, hdesired]
    · cases h
  | spawned pid wallNow =>
    cases pid with
    | some pid => cases h
    | none =>
      rw [failing] at h
      split at h
      · next now collectors collector htick =>
        obtain rfl := Option.some.inj h
        exact ⟨s.memory, "spawn_failed",
          "spawn failed: missing identity or OS refused the process", by simp only [step, htick]⟩
      · cases h
  | _ => cases h

/-- **One failure** is settled exactly when its power fits. -/
theorem settled_iff (h : s.failing a = some f) :
    (∃ s', s.step a = some s' ∧ Settled f s') ↔ f.collector.restartCount < 1023 := by
  obtain ⟨m, errorType, errorMessage, hstep⟩ := step_of_failing h
  rw [hstep]
  refine ⟨?_, fun hfits => ⟨_, rfl, ?_⟩⟩
  · rintro ⟨s', hs', hsettled⟩
    obtain ⟨write, htick, -⟩ := hsettled.write
    by_contra hlarge
    rw [crash_raise hlarge] at hs'
    rw [← Option.some.inj hs'] at htick
    cases htick
  · rw [crash_eq hfits]
    refine ⟨Function.update_self _ _ _, ⟨_, rfl, rfl, rfl, rfl⟩, ?_⟩
    rintro ⟨row, hrow, hid⟩
    have hget : s.rows.get f.collector.id = some row := Table.get_eq_some.mpr ⟨hrow, hid⟩
    let row' : CollectorRow :=
      { row with
        observedState := .crashed
        lastHeartbeatAt := (none : Option ℤ).or row.lastHeartbeatAt
        restartCount := f.collector.restartCount + 1
        lastError := some (errorType, errorMessage) }
    have hrecord : recordObserved s.rows ⟨f.collector.id, .crashed,
        some (f.collector.restartCount + 1), some (errorType, errorMessage), none⟩ =
          some (s.rows.put row') := by
      rw [recordObserved]
      dsimp only
      rw [hget]
      rfl
    refine ⟨_, by rw [step]; dsimp only [RowOutcome.phase]; rw [hrecord], rfl, row', ?_, hid, rfl,
      rfl⟩
    exact Table.mem_put_self hrow rfl

/-! ## Restart counts -/

/-- What a tick holds of a row is what the table holds, and no write lowers a count. -/
structure Counted (s : SupervisorRun) : Prop where
  nodup : (s.tick.snapshot.map CollectorRow.id).Nodup
  same : ∀ c ∈ s.tick.snapshot, ∀ row ∈ s.rows, row.id = c.id → row.restartCount = c.restartCount
  write : ∀ now collectors w, s.tick = .settling now collectors w →
    w.collectorId ∉ collectors.map CollectorRow.id ∧ ∀ row ∈ s.rows, row.id = w.collectorId →
      row.restartCount ≤ w.restartCount.getD row.restartCount

/-- A collector has been restarted a number of times at least, by the table and by the tick. -/
structure AtLeast (id : Uuid) (n : ℕ) (s : SupervisorRun) : Prop where
  rows : ∀ row ∈ s.rows, row.id = id → n ≤ row.restartCount
  held : ∀ c ∈ s.tick.snapshot, c.id = id → n ≤ c.restartCount

/-- A write that a row may come to: of that row, with its count as it is or one more. -/
def Writes (collector : CollectorRow) (outcome : RowOutcome) : Prop :=
  ∀ w, outcome = .settle (some w) → w.collectorId = collector.id ∧
    ∀ n, w.restartCount = some n → n = collector.restartCount + 1

section Writes

variable {collector : CollectorRow} {state : CollectorObservedState}
  {error : Option (String × String)} {at_ : Option ℤ}

theorem writes_setObserved : Writes collector (.settle (setObserved collector state none error at_))
    := by
  intro w hw
  have hw := RowOutcome.settle.inj hw
  rw [setObserved] at hw
  split_ifs at hw
  obtain rfl := Option.some.inj hw
  exact ⟨rfl, fun n hn => absurd hn (by simp)⟩

theorem writes_crash {m : SupervisorMemory} {now : ℤ} {errorType errorMessage : String} :
    Writes collector (crash m collector now errorType errorMessage).2 := by
  by_cases hfits : collector.restartCount < 1023
  · rw [crash_eq hfits]
    intro w hw
    obtain rfl := Option.some.inj (RowOutcome.settle.inj hw)
    exact ⟨rfl, fun n hn => (Option.some.inj hn).symm⟩
  · rw [crash_raise hfits]
    rintro w ⟨⟩

theorem writes_reconcileRow {m : SupervisorMemory} {processes : Table Process.pid}
    {now wallNow : ℤ} : Writes collector (reconcileRow m processes now wallNow collector).2 := by
  rw [reconcileRow]
  split
  · cases collector.desiredState with
    | running => exact writes_crash
    | stopped => exact writes_setObserved
    | disabled => exact writes_setObserved
  · cases collector.desiredState with
    | stopped => exact writes_setObserved
    | disabled => exact writes_setObserved
    | running =>
      dsimp only
      split_ifs
      · rw [heartbeat]
        split_ifs
        · exact writes_setObserved
        · intro w hw
          obtain rfl := Option.some.inj (RowOutcome.settle.inj hw)
          exact ⟨rfl, fun n hn => absurd hn (by simp)⟩
      · split
        · split_ifs
          · exact writes_setObserved
          · rintro w ⟨⟩
        · rintro w ⟨⟩

end Writes

/-- The counts hold, and none has fallen. -/
structure Keeps (s s' : SupervisorRun) : Prop where
  counted : Counted s'
  atLeast : ∀ id n, AtLeast id n s → AtLeast id n s'

/-- What leaves the tick alone, and of the rows at most takes some away or changes other columns. -/
theorem Counted.of_rows (h : Counted s) (htick : s'.tick = s.tick)
    (hrows : ∀ row' ∈ s'.rows, ∃ row ∈ s.rows, row.id = row'.id ∧
      row.restartCount = row'.restartCount) : Keeps s s' where
  counted :=
    { nodup := by
        rw [htick]
        exact h.nodup
      same := fun c hc row' hrow' hid => by
        obtain ⟨row, hrow, hid', hcount⟩ := hrows row' hrow'
        rw [← hcount]
        exact h.same c (htick ▸ hc) row hrow (hid'.trans hid)
      write := fun now collectors w hsettling => by
        obtain ⟨hnot, hle⟩ := h.write now collectors w (htick ▸ hsettling)
        refine ⟨hnot, fun row' hrow' hid => ?_⟩
        obtain ⟨row, hrow, hid', hcount⟩ := hrows row' hrow'
        rw [← hcount]
        exact hle row hrow (hid'.trans hid) }
  atLeast id n hn :=
    { rows := fun row' hrow' hid => by
        obtain ⟨row, hrow, hid', hcount⟩ := hrows row' hrow'
        rw [← hcount]
        exact hn.rows row hrow (hid'.trans hid)
      held := fun c hc => hn.held c (htick ▸ hc) }

/-- A tick that comes to rows it held before, with no write. -/
theorem Counted.of_snapshot (h : Counted s) (hrows : s'.rows = s.rows)
    (hsub : s'.tick.snapshot.Sublist s.tick.snapshot)
    (hsettling : ∀ now collectors w, s'.tick ≠ .settling now collectors w) : Keeps s s' where
  counted :=
    { nodup := (hsub.map _).nodup h.nodup
      same := fun c hc row hrow => h.same c (hsub.subset hc) row (hrows ▸ hrow)
      write := fun now collectors w htick => absurd htick (hsettling now collectors w) }
  atLeast _ _ hn :=
    { rows := fun row hrow => hn.rows row (hrows ▸ hrow)
      held := fun c hc => hn.held c (hsub.subset hc) }

/-- A tick after the synchronous part of a row. -/
theorem Counted.phase (h : Counted s) (now : ℤ) {collector : CollectorRow}
    {collectors : List CollectorRow} {outcome : RowOutcome}
    (hsnapshot : s.tick.snapshot = collector :: collectors) (hwrites : Writes collector outcome)
    (hrows : s'.rows = s.rows) (htick : s'.tick = outcome.phase now collectors collector) :
    Keeps s s' := by
  cases outcome with
  | spawn =>
    refine h.of_snapshot hrows ?_ fun _ _ _ hsettling => ?_
    · rw [htick, hsnapshot]
      exact List.Sublist.refl _
    · rw [htick] at hsettling
      cases hsettling
  | raise =>
    refine h.of_snapshot hrows ?_ fun _ _ _ hsettling => ?_
    · rw [htick]
      exact List.nil_sublist _
    · rw [htick] at hsettling
      cases hsettling
  | settle write =>
    have hsub : s'.tick.snapshot = collectors := by
      rw [htick]
      cases write <;> rfl
    cases write with
    | none =>
      refine h.of_snapshot hrows ?_ fun _ _ _ hsettling => ?_
      · rw [hsub, hsnapshot]
        exact List.sublist_cons_self _ _
      · rw [htick] at hsettling
        cases hsettling
    | some w =>
      obtain ⟨hid, hcount⟩ := hwrites w rfl
      have hnodup := h.nodup
      rw [hsnapshot, List.map_cons, List.nodup_cons] at hnodup
      refine ⟨⟨?_, fun c hc row hrow => ?_, fun now' collectors' w' hsettling => ?_⟩,
        fun id n hn => ⟨fun row hrow => hn.rows row (hrows ▸ hrow), fun c hc => ?_⟩⟩
      · rw [hsub]
        exact hnodup.2
      · refine h.same c ?_ row (hrows ▸ hrow)
        rw [hsnapshot]
        exact List.mem_cons_of_mem _ (hsub ▸ hc)
      · rw [htick] at hsettling
        obtain ⟨rfl, rfl, rfl⟩ := TickPhase.settling.inj hsettling
        rw [hid]
        refine ⟨hnodup.1, fun row hrow hrowid => ?_⟩
        cases hn : w.restartCount with
        | none => exact le_rfl
        | some n =>
          have hsame := h.same collector (hsnapshot ▸ List.mem_cons_self) row (hrows ▸ hrow) hrowid
          rw [Option.getD_some, hcount n hn, hsame]
          exact Nat.le_succ _
      · refine hn.held c ?_
        rw [hsnapshot]
        exact List.mem_cons_of_mem _ (hsub ▸ hc)

/-- A write of a row, which does not lower its count. -/
theorem Counted.settle (h : Counted s) {now : ℤ} {collectors : List CollectorRow}
    {write : ObservedWrite} {rows : Table CollectorRow.id}
    (htick : s.tick = .settling now collectors write)
    (hrecord : recordObserved s.rows write = some rows) (hrows : s'.rows = rows)
    (htick' : s'.tick = .visiting now collectors) : Keeps s s' := by
  obtain ⟨hnot, hle⟩ := h.write now collectors write htick
  have hsnapshot : s'.tick.snapshot = s.tick.snapshot := by rw [htick, htick']; rfl
  rw [recordObserved] at hrecord
  split at hrecord
  · cases hrecord
  · next row hget =>
    obtain ⟨hrow, hid⟩ := Table.get_eq_some.mp hget
    split_ifs at hrecord
    obtain rfl := Option.some.inj hrecord
    -- each row is the written one, or one that was there
    have hmem {x : CollectorRow} (hx : x ∈ s'.rows) :
        (x.id = write.collectorId ∧ x.restartCount = write.restartCount.getD row.restartCount) ∨
          x ∈ s.rows := by
      rw [hrows] at hx
      rcases (Table.mem_put hrow (by rfl)).mp hx with rfl | ⟨hx, -⟩
      · exact Or.inl ⟨hid, rfl⟩
      · exact Or.inr hx
    refine ⟨⟨?_, fun c hc x hx hxid => ?_, fun _ _ _ hsettling => ?_⟩,
      fun id n hn => ⟨fun x hx hxid => ?_, fun c hc => hn.held c (hsnapshot ▸ hc)⟩⟩
    · rw [hsnapshot]
      exact h.nodup
    · rw [hsnapshot] at hc
      rcases hmem hx with ⟨hwritten, -⟩ | hx
      · rw [htick] at hc
        exact absurd (List.mem_map.mpr ⟨c, hc, hxid.symm.trans hwritten⟩) hnot
      · exact h.same c hc x hx hxid
    · rw [htick'] at hsettling
      cases hsettling
    · rcases hmem hx with ⟨hwritten, hcount⟩ | hx
      · rw [hcount]
        exact (hn.rows row hrow (hid.trans (hwritten.symm.trans hxid))).trans (hle row hrow hid)
      · exact hn.rows x hx hxid

/-- **No step lowers a restart count.** -/
theorem Counted.step (h : Counted s) (hstep : s.step a = some s') : Keeps s s' := by
  have hself (s' : SupervisorRun) (htick : s'.tick = s.tick) (hrows : s'.rows = s.rows) :
      Keeps s s' := h.of_rows htick fun row hrow => ⟨row, hrows ▸ hrow, rfl, rfl⟩
  cases a with
  | setDesired id desiredState =>
    simp only [SupervisorRun.step] at hstep
    split at hstep
    · obtain rfl := Option.some.inj hstep
      exact hself _ rfl rfl
    · next row hget =>
      obtain rfl := Option.some.inj hstep
      obtain ⟨hrow, -⟩ := Table.get_eq_some.mp hget
      refine h.of_rows rfl fun x hx => ?_
      rcases (Table.mem_put hrow (by rfl)).mp hx with rfl | ⟨hx, -⟩
      · exact ⟨row, hrow, rfl, rfl⟩
      · exact ⟨x, hx, rfl, rfl⟩
  | checkDelete call id =>
    simp only [SupervisorRun.step] at hstep
    split at hstep <;> obtain rfl := Option.some.inj hstep <;> exact hself _ rfl rfl
  | delete call =>
    simp only [SupervisorRun.step] at hstep
    split at hstep
    · obtain rfl := Option.some.inj hstep
      exact h.of_rows rfl fun x hx => ⟨x, (Table.mem_erase.mp hx).1, rfl, rfl⟩
    · obtain rfl := Option.some.inj hstep
      exact hself _ rfl rfl
  | exit pid code =>
    simp only [SupervisorRun.step] at hstep
    split at hstep
    · split_ifs at hstep <;> obtain rfl := Option.some.inj hstep <;> exact hself _ rfl rfl
    · obtain rfl := Option.some.inj hstep
      exact hself _ rfl rfl
  | beginTick now =>
    simp only [SupervisorRun.step] at hstep
    split at hstep
    · obtain rfl := Option.some.inj hstep
      refine ⟨⟨s.rows.nodup, fun c hc row hrow hid => ?_, fun _ _ _ hsettling => ?_⟩,
        fun id n hn => ⟨hn.rows, fun c hc => hn.rows c hc⟩⟩
      · rw [Table.eq_of_key hrow hc hid]
      · cases hsettling
    · obtain rfl := Option.some.inj hstep
      exact hself _ rfl rfl
  | visit wallNow =>
    simp only [SupervisorRun.step] at hstep
    split at hstep
    · obtain rfl := Option.some.inj hstep
      refine h.of_snapshot rfl (List.nil_sublist _) ?_
      rintro _ _ _ ⟨⟩
    · next now collector collectors htick =>
      obtain rfl := Option.some.inj hstep
      exact h.phase now (by rw [htick]; rfl) writes_reconcileRow rfl rfl
    · obtain rfl := Option.some.inj hstep
      exact hself _ rfl rfl
  | settle =>
    simp only [SupervisorRun.step] at hstep
    split at hstep
    · next now collectors write htick =>
      split at hstep
      · obtain rfl := Option.some.inj hstep
        refine h.of_snapshot rfl (List.nil_sublist _) ?_
        rintro _ _ _ ⟨⟩
      · next rows hrecord =>
        obtain rfl := Option.some.inj hstep
        exact h.settle htick hrecord rfl rfl
    · obtain rfl := Option.some.inj hstep
      exact hself _ rfl rfl
  | spawned pid wallNow =>
    simp only [SupervisorRun.step] at hstep
    split at hstep
    · next now collectors collector htick =>
      split at hstep
      · split at hstep
        · obtain rfl := Option.some.inj hstep
          exact hself _ rfl rfl
        · obtain rfl := Option.some.inj hstep
          exact h.phase now (by rw [htick]; rfl) writes_setObserved rfl rfl
      · obtain rfl := Option.some.inj hstep
        exact h.phase now (by rw [htick]; rfl) writes_crash rfl rfl
    · obtain rfl := Option.some.inj hstep
      exact hself _ rfl rfl
  | abort =>
    obtain rfl := Option.some.inj hstep
    refine h.of_snapshot rfl (List.nil_sublist _) ?_
    rintro _ _ _ ⟨⟩

/-! ## Runs -/

theorem counted_init (rows : Table CollectorRow.id) : Counted (init rows) where
  nodup := List.nodup_nil
  same c hc := absurd hc List.not_mem_nil
  write := by rintro _ _ _ ⟨⟩

theorem Counted.run {as : List Step} (h : Counted s)
    (hrun : run SupervisorRun.step s as = some s') : Keeps s s' :=
  run_preserves (I := fun t => Keeps s t) (fun hkeeps hstep =>
    have hnext := hkeeps.counted.step hstep
    ⟨hnext.counted, fun id n hn => hnext.atLeast id n (hkeeps.atLeast id n hn)⟩)
    ⟨h, fun _ _ hn => hn⟩ hrun

/-- A collector that fails is one that the tick holds. -/
theorem mem_snapshot_of_failing (h : s.failing a = some f) :
    f.collector ∈ s.tick.snapshot := by
  cases a with
  | visit wallNow =>
    rw [failing] at h
    split at h
    · next now collector collectors htick =>
      split_ifs at h
      obtain rfl := Option.some.inj h
      rw [htick]
      exact List.mem_cons_self
    · cases h
  | spawned pid wallNow =>
    cases pid with
    | some pid => cases h
    | none =>
      rw [failing] at h
      split at h
      · next now collectors collector htick =>
        obtain rfl := Option.some.inj h
        rw [htick]
        exact List.mem_cons_self
      · cases h
  | _ => cases h

/-- A collector that fails has been restarted as often as it has. -/
theorem Counted.atLeast_failing (h : Counted s) (hf : s.failing a = some f) :
    AtLeast f.collector.id f.collector.restartCount s where
  rows row hrow hid := (h.same _ (mem_snapshot_of_failing hf) row hrow hid).ge
  held c hc hid := by
    rw [List.inj_on_of_nodup_map h.nodup hc (mem_snapshot_of_failing hf) hid]

/-- **A collector that fails again** cools no shorter, on every run. -/
theorem never_shorter (rows : Table CollectorRow.id) (as : List Step) : NeverShorter rows as := by
  intro bs a cs b _ t u ht hu f g hf hg hid
  have hkeeps := (counted_init rows).run ht
  have hle := ((hkeeps.counted.run hu).atLeast _ _ (hkeeps.counted.atLeast_failing hf)).held _
    (mem_snapshot_of_failing hg) hid.symm
  exact coolingDelay_mono (Nat.succ_le_succ hle)

/-- **Collectors that keep failing**: on every run of ticks, operators and exits, every failure is
settled, with the documented delay and the tick going on to the other collectors, and no later
failure of a collector is cooled shorter, exactly when every power of two fits a float. -/
theorem cools_down_iff (rows : Table CollectorRow.id) (as : List Step) :
    Along step CoolsDown (init rows) as ∧ NeverShorter rows as ↔
      Along step PowerFits (init rows) as := by
  have hsteps : Along step CoolsDown (init rows) as ↔ Along step PowerFits (init rows) as :=
    along_congr fun s a =>
      ⟨fun h f hf => (settled_iff hf).mp (h f hf), fun h f hf => (settled_iff hf).mpr (h f hf)⟩
  rw [hsteps]
  exact and_iff_left (never_shorter rows as)

/-- A collector that was restarted 1023 times, and one that is to run beside it. -/
def wornCollectors : Table CollectorRow.id :=
  ⟨[⟨1, .running, .crashed, 1023, none, some ("spawn_failed", "refused")⟩,
    ⟨2, .running, .stopped, 0, none, none⟩], by decide⟩

/-- The spawn of the first is refused once more: the tick raises, and the second is not visited. -/
theorem worn_collector_raises : ¬ ∀ (rows : Table CollectorRow.id) (as : List Step),
    Along step CoolsDown (init rows) as ∧ NeverShorter rows as := by
  intro h
  have hbegin := (h wornCollectors [.beginTick 0, .visit 0, .spawned none 0]).1
  have hvisit := (along_cons.mp hbegin).2 _ rfl
  have hspawned := (along_cons.mp ((along_cons.mp hvisit).2 _ rfl)).1
  have hfits := (settled_iff rfl).mp (hspawned _ rfl)
  exact absurd hfits (by decide)

end SupervisorRun

end Eyenet
