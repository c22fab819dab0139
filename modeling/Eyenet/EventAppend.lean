import Eyenet.Calls
import Eyenet.EventLog
import Eyenet.Machine

/-!
# Appending to an event log

`_append_event` (`sqlmodel_repo/event_logs.py`) reads the greatest number of the parent in one
statement and inserts the next in another. The primary key refuses a number that was taken in
between, and the call reads again, five times at most.

* `EventAppend.Numbered` — the rows of each parent are numbered from one on, as they were stored.
* `EventAppend.append_numbered` — they are in every interleaving of calls, and a call that raises
  has stored nothing.
-/

namespace Eyenet

open Machine

namespace EventLogs

/-- The sequence numbers of a parent, as they were stored. -/
def parentSeqs (logs : EventLogs) (log : EventLogTable) (parentId : Uuid) : List ℕ :=
  ((logs.table log).filter fun r => r.parentId = parentId).map EventLogRow.eventSeq

theorem nextSeq_eq (logs : EventLogs) (log : EventLogTable) (parentId : Uuid) :
    logs.nextSeq log parentId = (logs.parentSeqs log parentId).max?.getD 0 + 1 := rfl

/-- An `INSERT`; `none` when the primary key is taken. -/
def insert (logs : EventLogs) (r : EventLogRow) : Option EventLogs :=
  if h : r.key ∈ logs.rows.map EventLogRow.key then none
  else some ⟨logs.rows ++ [r], by
    rw [List.map_append, List.nodup_append]
    refine ⟨logs.keyed, List.nodup_singleton _, fun k hk k' hk' => ?_⟩
    obtain rfl : k' = r.key := by simpa using hk'
    rintro rfl
    exact h hk⟩

variable {logs logs' : EventLogs} {r : EventLogRow}

theorem insert_eq_some (h : logs.insert r = some logs') :
    r.key ∉ logs.rows.map EventLogRow.key ∧ logs'.rows = logs.rows ++ [r] := by
  rw [insert] at h
  split_ifs at h with hkey
  cases h
  exact ⟨hkey, rfl⟩

/-- A row adds its number to those of its parent. -/
theorem parentSeqs_insert (h : logs.insert r = some logs') (log : EventLogTable)
    (parentId : Uuid) : logs'.parentSeqs log parentId =
      logs.parentSeqs log parentId ++ if r.log = log ∧ r.parentId = parentId then [r.eventSeq]
        else [] := by
  rw [parentSeqs, parentSeqs, table, table, (insert_eq_some h).2, List.filter_append,
    List.filter_append, List.map_append]
  congr 1
  by_cases hlog : r.log = log <;> by_cases hparent : r.parentId = parentId <;>
    simp [hlog, hparent]

theorem mem_parentSeqs : r.eventSeq ∈ logs.parentSeqs r.log r.parentId ↔
    r.key ∈ logs.rows.map EventLogRow.key := by
  simp only [parentSeqs, table, List.mem_map, List.mem_filter, decide_eq_true_eq, EventLogRow.key,
    Prod.mk.injEq, and_assoc]

end EventLogs

/-! ## Calls -/

/-- `_SEQ_RETRIES` -/
def seqRetries : ℕ := 5

/-- Where a call of `_append_event` stands. -/
inductive AppendPhase where
  /-- an attempt begins, with the number of those that are left -/
  | reading (row : EventLogRow) (attempts : ℕ)
  /-- the attempt has read the next number -/
  | writing (row : EventLogRow) (attempts : ℕ)
  | returned (row : EventLogRow)
  | raised
  deriving DecidableEq

/-- After an `IntegrityError`. -/
def retryAppend (row : EventLogRow) : ℕ → AppendPhase
  | 0 => .raised
  | 1 => .raised
  | attempts + 2 => .reading row (attempts + 1)

/-- The logs and the calls. The last field records which call stored which row. -/
structure EventAppend where
  logs : EventLogs
  calls : Calls AppendPhase
  stored : List (ℕ × EventLogRow)

namespace EventAppend

/-- One statement of one call. -/
inductive Step where
  /-- a call begins; the number in its row means nothing -/
  | append (call : ℕ) (row : EventLogRow)
  | read (call : ℕ)
  /-- `INSERT` and `COMMIT` -/
  | commit (call : ℕ)
  /-- they raise an `IntegrityError` for another reason -/
  | refuse (call : ℕ)
  /-- a statement raises anything else -/
  | fail (call : ℕ)

/-- Before any call. -/
def init : EventAppend := ⟨EventLogs.empty, [], []⟩

/-- One statement; a label that does not fit changes nothing. -/
def step (s : EventAppend) : Step → Option EventAppend
  | .append call row =>
    match s.calls.phase call with
    | some _ => some s
    | none => some { s with calls := s.calls.put call (.reading row seqRetries) }
  | .read call =>
    match s.calls.phase call with
    | some (.reading row attempts) =>
      let next := { row with eventSeq := s.logs.nextSeq row.log row.parentId }
      some { s with calls := s.calls.put call (.writing next attempts) }
    | _ => some s
  | .commit call =>
    match s.calls.phase call with
    | some (.writing row attempts) =>
      match s.logs.insert row with
      | none => some { s with calls := s.calls.put call (retryAppend row attempts) }
      | some logs =>
        some
          { logs := logs
            calls := s.calls.put call (.returned row)
            stored := s.stored ++ [(call, row)] }
    | _ => some s
  | .refuse call =>
    match s.calls.phase call with
    | some (.writing row attempts) =>
      some { s with calls := s.calls.put call (retryAppend row attempts) }
    | _ => some s
  | .fail call =>
    match s.calls.phase call with
    | some (.reading _ _) => some { s with calls := s.calls.put call .raised }
    | some (.writing _ _) => some { s with calls := s.calls.put call .raised }
    | _ => some s

/-- The rows of each parent are numbered from one on, in the order in which they were stored; the
calls have stored all rows, each call one at most, and none that raised. -/
structure Numbered (s : EventAppend) : Prop where
  seqs : ∀ log parentId, s.logs.parentSeqs log parentId =
    List.range' 1 (s.logs.parentSeqs log parentId).length
  stored : s.stored.map Prod.snd = s.logs.rows
  calls : (s.stored.map Prod.fst).Nodup
  raised : ∀ call, s.calls.phase call = some .raised → ∀ x ∈ s.stored, x.1 ≠ call

/-- What holds in any interleaving. -/
structure Inv (s : EventAppend) : Prop where
  seqs : ∀ log parentId, s.logs.parentSeqs log parentId =
    List.range' 1 (s.logs.parentSeqs log parentId).length
  stored : s.stored.map Prod.snd = s.logs.rows
  calls : (s.stored.map Prod.fst).Nodup
  /-- a call that has stored a row has returned it -/
  returned : ∀ x ∈ s.stored, s.calls.phase x.1 = some (.returned x.2)
  /-- the number that a call has read is not beyond the next one -/
  writing : ∀ call row attempts, s.calls.phase call = some (.writing row attempts) →
    1 ≤ row.eventSeq ∧ row.eventSeq ≤ (s.logs.parentSeqs row.log row.parentId).length + 1

variable {s s' : EventAppend} {a : Step} {call : ℕ} {row : EventLogRow} {attempts : ℕ}

theorem inv_init : init.Inv where
  seqs _ _ := rfl
  stored := rfl
  calls := List.nodup_nil
  returned _ hx := absurd hx List.not_mem_nil
  writing _ _ _ h := by cases h

theorem Inv.numbered (h : s.Inv) : s.Numbered where
  seqs := h.seqs
  stored := h.stored
  calls := h.calls
  raised call hraised x hx heq := by
    have hreturned := h.returned x hx
    rw [heq, hraised] at hreturned
    cases hreturned

/-- The next number of a parent is one more than its rows. -/
theorem Inv.nextSeq (h : s.Inv) (log : EventLogTable) (parentId : Uuid) :
    s.logs.nextSeq log parentId = (s.logs.parentSeqs log parentId).length + 1 := by
  rw [EventLogs.nextSeq_eq, h.seqs log parentId, List.length_range']
  congr 1
  cases (s.logs.parentSeqs log parentId).length with
  | zero => rfl
  | succ n =>
    have hmax : (List.range' 1 (n + 1)).max? = some (n + 1) := by
      rw [List.max?_eq_some_iff]
      simp only [List.mem_range'_1]
      exact ⟨by omega, fun b hb => by omega⟩
    rw [hmax, Option.getD_some]

/-- A call that has not returned has stored nothing. -/
theorem Inv.ne_of_phase (h : s.Inv) (hphase : ∀ row, s.calls.phase call ≠ some (.returned row)) :
    ∀ x ∈ s.stored, x.1 ≠ call := by
  rintro x hx rfl
  exact hphase x.2 (h.returned x hx)

/-- A call goes on without having stored a row. -/
theorem Inv.put (h : s.Inv) {p : AppendPhase}
    (hphase : ∀ row, s.calls.phase call ≠ some (.returned row))
    (hp : ∀ row attempts, p = .writing row attempts → 1 ≤ row.eventSeq ∧
      row.eventSeq ≤ (s.logs.parentSeqs row.log row.parentId).length + 1) :
    Inv { s with calls := s.calls.put call p } := by
  refine ⟨h.seqs, h.stored, h.calls, fun x hx => ?_, fun c row attempts hc => ?_⟩
  · exact (Calls.phase_put_of_ne (h.ne_of_phase hphase x hx)).trans (h.returned x hx)
  · change (s.calls.put call p).phase c = _ at hc
    rw [Calls.phase_put] at hc
    split_ifs at hc
    · exact hp row attempts (Option.some.inj hc)
    · exact h.writing c row attempts hc

/-- A number that is not taken, and not beyond the next one, is the next one. -/
theorem Inv.seq_eq_of_insert (h : s.Inv) {logs : EventLogs}
    (hphase : s.calls.phase call = some (.writing row attempts))
    (hinsert : s.logs.insert row = some logs) :
    row.eventSeq = (s.logs.parentSeqs row.log row.parentId).length + 1 := by
  obtain ⟨hone, hle⟩ := h.writing call row attempts hphase
  have hfree := (EventLogs.insert_eq_some hinsert).1
  rw [← EventLogs.mem_parentSeqs, h.seqs, List.mem_range'_1] at hfree
  omega

theorem Inv.insert (h : s.Inv) {logs : EventLogs}
    (hphase : s.calls.phase call = some (.writing row attempts))
    (hinsert : s.logs.insert row = some logs) :
    Inv
      { logs := logs
        calls := s.calls.put call (.returned row)
        stored := s.stored ++ [(call, row)] } := by
  have hseq := h.seq_eq_of_insert hphase hinsert
  have hnew : ∀ x ∈ s.stored, x.1 ≠ call := h.ne_of_phase (by simp [hphase])
  refine ⟨fun log parentId => ?_, ?_, ?_, fun x hx => ?_, fun c row' attempts' hc => ?_⟩
  · rw [EventLogs.parentSeqs_insert hinsert]
    split_ifs with hparent
    · obtain ⟨rfl, rfl⟩ := hparent
      rw [List.length_append, List.length_singleton, List.range'_concat, ← h.seqs, hseq,
        Nat.one_mul, Nat.add_comm 1]
    · rw [List.append_nil]
      exact h.seqs log parentId
  · rw [List.map_append, h.stored, (EventLogs.insert_eq_some hinsert).2]
    rfl
  · rw [List.map_append]
    refine h.calls.append (List.nodup_singleton _) (List.disjoint_singleton.mpr fun hmem => ?_)
    obtain ⟨x, hx, hcall⟩ := List.mem_map.mp hmem
    exact hnew x hx hcall
  · rcases List.mem_append.mp hx with hold | hlast
    · exact (Calls.phase_put_of_ne (hnew x hold)).trans (h.returned x hold)
    · obtain rfl := List.mem_singleton.mp hlast
      exact Calls.phase_put_self
  · change (s.calls.put call _).phase c = _ at hc
    rw [Calls.phase_put] at hc
    split_ifs at hc
    · cases hc
    · obtain ⟨hone, hle⟩ := h.writing c row' attempts' hc
      refine ⟨hone, hle.trans ?_⟩
      rw [EventLogs.parentSeqs_insert hinsert, List.length_append]
      omega

theorem retryAppend_ne_writing (row row' : EventLogRow) (attempts attempts' : ℕ) :
    retryAppend row attempts ≠ .writing row' attempts' := by
  unfold retryAppend
  split <;> rintro ⟨⟩

theorem Inv.step (h : s.Inv) (hstep : s.step a = some s') : s'.Inv := by
  cases a with
  | append call row =>
    simp only [EventAppend.step] at hstep
    split at hstep
    · obtain rfl := Option.some.inj hstep
      exact h
    · next hnone =>
      obtain rfl := Option.some.inj hstep
      exact h.put (by simp [hnone]) (by rintro _ _ ⟨⟩)
  | read call =>
    simp only [EventAppend.step] at hstep
    split at hstep
    · next row attempts hphase =>
      obtain rfl := Option.some.inj hstep
      refine h.put (by simp [hphase]) ?_
      rintro _ _ ⟨⟩
      exact ⟨Nat.le_add_left 1 _, (h.nextSeq row.log row.parentId).le⟩
    · obtain rfl := Option.some.inj hstep
      exact h
  | commit call =>
    simp only [EventAppend.step] at hstep
    split at hstep
    · next row attempts hphase =>
      split at hstep
      · obtain rfl := Option.some.inj hstep
        exact h.put (by simp [hphase]) fun row' attempts' hq =>
          absurd hq (retryAppend_ne_writing row row' attempts attempts')
      · next logs hinsert =>
        obtain rfl := Option.some.inj hstep
        exact h.insert hphase hinsert
    · obtain rfl := Option.some.inj hstep
      exact h
  | refuse call =>
    simp only [EventAppend.step] at hstep
    split at hstep
    · next row attempts hphase =>
      obtain rfl := Option.some.inj hstep
      exact h.put (by simp [hphase]) fun row' attempts' hq =>
        absurd hq (retryAppend_ne_writing row row' attempts attempts')
    · obtain rfl := Option.some.inj hstep
      exact h
  | fail call =>
    simp only [EventAppend.step] at hstep
    split at hstep
    · next row attempts hphase =>
      obtain rfl := Option.some.inj hstep
      exact h.put (by simp [hphase]) (by rintro _ _ ⟨⟩)
    · next row attempts hphase =>
      obtain rfl := Option.some.inj hstep
      exact h.put (by simp [hphase]) (by rintro _ _ ⟨⟩)
    · obtain rfl := Option.some.inj hstep
      exact h

/-- **Numbers without gaps.** In every interleaving of calls the rows of each parent are numbered
1, 2, 3, .. in the order of their commits, and a call that raises has stored nothing. -/
theorem append_numbered (as : List Step) : Throughout step Numbered init as :=
  throughout_of_along (I := Inv) (C := fun _ _ => True) Inv.numbered
    (fun h _ hstep => h.step hstep) inv_init (along_of_forall fun _ _ _ => trivial)

/-- Two calls that read the same number; the one that loses reads again. -/
example : ∃ s, run step init [.append 1 (EventLogs.sampleEvent .linkage 7 "a"),
    .append 2 (EventLogs.sampleEvent .linkage 7 "b"), .read 1, .read 2, .commit 2, .commit 1,
    .read 1, .commit 1] = some s ∧
      s.stored.map (fun x => (x.1, x.2.eventSeq)) = [(2, 1), (1, 2)] := by
  decide

end EventAppend

end Eyenet
