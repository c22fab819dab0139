import Eyenet.AdvisoryRepair
import Eyenet.Sha256
import Eyenet.Utf8

/-!
# The extraction sandbox

`classifier/sandbox`: a parser runs in a jail, and its parent reads what it writes on two pipes, in
whatever pieces they come, until both are at their end, there is too much, or it is too late. How
it ended decides whether its output is looked at.

* `Sandbox.run_judged` — whatever the pieces, the outcome is that of the bytes that were written.
* `Sandbox.clean_iff_run` — when it is a success, and what was printed then.
-/

namespace Eyenet

open Framing

/-! ## Outcomes -/

/-- `SandboxStatus` -/
inductive SandboxStatus where
  | ok
  | nonzeroExit
  | killedSignal
  | timeout
  | outputOverflow
  | launchFailed
  deriving DecidableEq

/-- The member's value. -/
def SandboxStatus.value : SandboxStatus → String
  | ok => "ok"
  | nonzeroExit => "nonzero_exit"
  | killedSignal => "killed_signal"
  | timeout => "timeout"
  | outputOverflow => "output_overflow"
  | launchFailed => "launch_failed"

/-- `SandboxOutcome`, without how long it took. -/
structure SandboxOutcome where
  status : SandboxStatus
  exitCode : Option ℤ
  signal : Option ℤ
  stdout : Bytes
  stderrTail : String
  truncated : Bool
  deriving DecidableEq

/-- `launched` -/
def SandboxOutcome.launched (outcome : SandboxOutcome) : Bool := outcome.status ≠ .launchFailed

/-- `SandboxLimits`, as `__post_init__` lets it be built. -/
structure SandboxLimits where
  rlimitAsMb : ℤ
  timeLimitS : ℤ
  parentTimeoutS : ℤ
  maxStdoutBytes : ℕ
  maxStderrBytes : ℕ
  backstop : timeLimitS < parentTimeoutS
  positive : 0 < maxStdoutBytes ∧ 0 < rlimitAsMb

/-- `DEFAULT_LIMITS` -/
def defaultLimits : SandboxLimits where
  rlimitAsMb := 1024
  timeLimitS := 30
  parentTimeoutS := 40
  maxStdoutBytes := 8 * 1024 * 1024
  maxStderrBytes := 4 * 1024
  backstop := by decide
  positive := by decide

/-- `PRESIDIO_LIMITS` -/
def presidioLimits : SandboxLimits :=
  { defaultLimits with
    rlimitAsMb := 2048
    timeLimitS := 60
    parentTimeoutS := 75
    backstop := by decide
    positive := by decide }

namespace Sandbox

/-- `_SIGNAL_EXIT_BASE` -/
def signalExitBase : ℤ := 128

/-- `_LAUNCH_FAIL_MARKERS` -/
def launchFailMarkers : List String :=
  ["Couldn't launch the child process", "Failed to build mount tree",
    "Couldn't prepare sandboxing policy", "Couldn't parse cmdline options", "Couldn't mount",
    "Couldn't initialize"]

/-- `marker in text` -/
def contains (text marker : String) : Bool := decide (marker.toList <:+: text.toList)

/-- `classify_returncode` -/
def classifyReturncode (returncode : ℤ) (stderrTail : String) :
    SandboxStatus × Option ℤ × Option ℤ :=
  if launchFailMarkers.any fun marker => contains stderrTail marker then (.launchFailed, none, none)
  else if returncode = 0 then (.ok, some 0, none)
  else if returncode < 0 then (.killedSignal, none, some (-returncode))
  else if signalExitBase ≤ returncode then (.killedSignal, none, some (returncode - signalExitBase))
  else (.nonzeroExit, some returncode, none)

/-! ## Reading -/

inductive Stream where
  | out
  | err
  deriving DecidableEq

/-- `_READ_CHUNK` -/
def readChunk : ℕ := 65536

/-- What `os.read` makes of a stream that was ready: nothing (`BlockingIOError`), or a piece, which
is empty at the end of the stream. -/
structure Read where
  stream : Stream
  chunk : Option Bytes
  length_le : ∀ c ∈ chunk, c.length ≤ readChunk
  deriving DecidableEq

/-- One turn of the loop: the clock, in microseconds, and the streams that `select` finds ready. -/
structure Turn where
  now : ℤ
  ready : List Read
  deriving DecidableEq

/-- The state of `_drain_bounded`. -/
structure Buffers where
  out : Bytes
  err : Bytes
  outOpen : Bool
  errOpen : Bool
  overflowed : Bool
  deriving DecidableEq

/-- Both streams are registered. -/
def Buffers.empty : Buffers := ⟨[], [], true, true, false⟩

/-- The stream is registered. -/
def Buffers.isOpen (b : Buffers) : Stream → Bool
  | .out => b.outOpen
  | .err => b.errOpen

section Limits

variable (limits : SandboxLimits)

/-- The bytes that are kept of the errors. -/
def tailOf (err : Bytes) : Bytes := err.drop (err.length - limits.maxStderrBytes)

/-- `_read_ready_fd`, and what the `for` loop does about its result: an overflow breaks it off.
`select` gives no stream that is not registered. -/
def Buffers.read (b : Buffers) (r : Read) : Buffers :=
  if b.overflowed = false ∧ b.isOpen r.stream then
    match r.chunk with
    | none => b
    | some [] =>
      match r.stream with
      | .out => { b with outOpen := false }
      | .err => { b with errOpen := false }
    | some (c :: chunk) =>
      match r.stream with
      | .out =>
        { b with
          out := b.out ++ c :: chunk
          overflowed := decide (limits.maxStdoutBytes < (b.out ++ c :: chunk).length) }
      | .err => { b with err := tailOf limits (b.err ++ c :: chunk) }
  else b

/-- The `for` loop of a turn. -/
def Buffers.readAll (b : Buffers) (reads : List Read) : Buffers :=
  reads.foldl (fun b r => b.read limits r) b

/-- `streams and not overflowed` -/
def Buffers.goesOn (b : Buffers) : Bool := !b.overflowed && (b.outOpen || b.errOpen)

/-- `while streams and not overflowed`, over the turns that it takes, with whether it timed out;
`none` while it goes on. -/
def drain (deadline : ℤ) (b : Buffers) : List Turn → Option (Buffers × Bool)
  | [] => if b.goesOn then none else some (b, false)
  | turn :: turns =>
    if b.goesOn then
      if deadline ≤ turn.now then some (b, true)
      else drain deadline (b.readAll limits turn.ready) turns
    else some (b, false)

/-- `_drain_bounded` -/
def drainBounded (deadline : ℤ) (turns : List Turn) : Option (Bytes × Bytes × Bool × Bool) :=
  (drain limits deadline .empty turns).map fun x =>
    (x.1.out.take limits.maxStdoutBytes, tailOf limits x.1.err, x.2, x.1.overflowed)

/-- What becomes of the process: `Popen` raises, or the parent reads its streams from a moment on
and waits for its exit, in vain (`TimeoutExpired`) or not. -/
inductive Jail where
  | unlaunchable (error : String)
  | launched (started : ℤ) (turns : List Turn) (exit : Option ℤ)
  deriving DecidableEq

/-- The moment the parent gives up. -/
def deadlineOf (started : ℤ) : ℤ := started + limits.parentTimeoutS * 1000000

/-- What `run_sandboxed` returns, from the exit and what `_drain_bounded` returned. -/
def outcomeOf (exit : Option ℤ) (stdout stderr : Bytes) (timedOut overflowed : Bool) :
    SandboxOutcome :=
  let stderrTail := String.ofList (Utf8.decodeReplace stderr)
  let ended :=
    if timedOut then (.timeout, none, none)
    else if overflowed then (.outputOverflow, none, none)
    else
      match exit with
      | none => (.timeout, none, none)
      | some returncode => classifyReturncode returncode stderrTail
  ⟨ended.1, ended.2.1, ended.2.2, stdout, stderrTail, overflowed⟩

/-- `run_sandboxed`; `none` while it reads. -/
def runSandboxed : Jail → Option SandboxOutcome
  | .unlaunchable error => some ⟨.launchFailed, none, none, [], error, false⟩
  | .launched started turns exit =>
    (drainBounded limits (deadlineOf limits started) turns).map fun x =>
      outcomeOf exit x.1 x.2.1 x.2.2.1 x.2.2.2

end Limits

/-! ## What was written -/

/-- What a stream gave up to its end, in order. -/
def written (s : Stream) (reads : List Read) : Bytes :=
  ((reads.filter fun r => r.stream = s).takeWhile fun r => r.chunk ≠ some []).flatMap
    fun r => r.chunk.getD []

/-- The stream came to its end. -/
def Ends (s : Stream) (reads : List Read) : Prop := ∃ r ∈ reads, r.stream = s ∧ r.chunk = some []

section Tail

variable {limits : SandboxLimits} {err more : Bytes}

theorem tailOf_eq_self (h : err.length ≤ limits.maxStderrBytes) : tailOf limits err = err := by
  rw [tailOf, Nat.sub_eq_zero_of_le h, List.drop_zero]

theorem length_tailOf_le : (tailOf limits err).length ≤ limits.maxStderrBytes := by
  rw [tailOf, List.length_drop]
  omega

/-- What was dropped before does not count. -/
theorem tailOf_append (h : limits.maxStderrBytes ≤ more.length) :
    tailOf limits (err ++ more) = tailOf limits more := by
  rw [tailOf, tailOf, List.length_append, List.drop_append, List.drop_eq_nil_of_le (by omega),
    List.nil_append]
  congr 1
  omega

/-- The tail of the tail and more is the tail of all. -/
theorem tailOf_tailOf :
    tailOf limits (tailOf limits err ++ more) = tailOf limits (err ++ more) := by
  rcases le_total err.length limits.maxStderrBytes with hle | hge
  · rw [tailOf_eq_self hle]
  · have hsplit : err = err.take (err.length - limits.maxStderrBytes) ++ tailOf limits err :=
      (List.take_append_drop _ _).symm
    have hlength : (tailOf limits err).length = limits.maxStderrBytes := by
      rw [tailOf, List.length_drop]
      omega
    have hle : limits.maxStderrBytes ≤ (tailOf limits err ++ more).length := by
      rw [List.length_append]
      omega
    conv_rhs => rw [hsplit, List.append_assoc]
    rw [tailOf_append hle]

end Tail

section Written

variable {s : Stream} {reads : List Read} {r : Read}

theorem written_append_of_ends (h : Ends s reads) (r : Read) :
    written s (reads ++ [r]) = written s reads := by
  obtain ⟨e, he, hs, hend⟩ := h
  rw [written, written, List.filter_append, List.takeWhile_append, if_neg]
  intro hlength
  have hall := List.takeWhile_eq_self_iff.mp
    ((List.takeWhile_prefix _).eq_of_length hlength) e
    (List.mem_filter.mpr ⟨he, decide_eq_true hs⟩)
  exact of_decide_eq_true hall hend

theorem written_append_of_ne (h : r.stream ≠ s) : written s (reads ++ [r]) = written s reads := by
  rw [written, written, List.filter_append, List.filter_singleton, decide_eq_false h]
  simp

theorem written_append (hs : r.stream = s) (h : ¬ Ends s reads) :
    written s (reads ++ [r]) = written s reads ++ r.chunk.getD [] := by
  have hall : (reads.filter fun r => r.stream = s).takeWhile (fun r => r.chunk ≠ some []) =
      reads.filter fun r => r.stream = s := by
    refine List.takeWhile_eq_self_iff.mpr fun e he => decide_eq_true fun hend => h ?_
    obtain ⟨hmem, hstream⟩ := List.mem_filter.mp he
    exact ⟨e, hmem, of_decide_eq_true hstream, hend⟩
  rw [written, written, List.filter_append, List.takeWhile_append, if_pos (by rw [hall]), hall,
    List.filter_singleton, decide_eq_true hs, List.flatMap_append]
  congr 1
  by_cases hend : r.chunk = some []
  · simp [hend]
  · simp [hend]

theorem ends_append :
    Ends s (reads ++ [r]) ↔ Ends s reads ∨ (r.stream = s ∧ r.chunk = some []) := by
  simp [Ends, or_and_right, exists_or]

end Written

/-- The state after some reads, by what was written. -/
structure HasRead (limits : SandboxLimits) (b : Buffers) (reads : List Read) : Prop where
  overflow : b.overflowed = true ↔ limits.maxStdoutBytes < (written .out reads).length
  out_prefix : b.out <+: written .out reads
  exceeds : b.overflowed = true → limits.maxStdoutBytes < b.out.length
  out : b.overflowed = false → b.out = written .out reads
  err : b.overflowed = false → b.err = tailOf limits (written .err reads)
  opens : b.overflowed = false → ∀ s, b.isOpen s = true ↔ ¬ Ends s reads

namespace HasRead

variable {limits : SandboxLimits} {b : Buffers} {reads : List Read} {r : Read}

theorem empty (limits : SandboxLimits) : HasRead limits .empty [] where
  overflow := iff_of_false Bool.false_ne_true (Nat.not_lt_zero _)
  out_prefix := List.prefix_refl _
  exceeds h := absurd h Bool.false_ne_true
  out _ := rfl
  err _ := (tailOf_eq_self (Nat.zero_le _)).symm
  opens _ s := by cases s <;> simp [Buffers.isOpen, Buffers.empty, Ends]

/-- The loop is broken off, or the stream is not registered. -/
theorem skip (h : HasRead limits b reads)
    (hskip : b.overflowed = true ∨ Ends r.stream reads) : HasRead limits b (reads ++ [r]) := by
  have hgrows : ∀ s, written s reads <+: written s (reads ++ [r]) := by
    intro s
    by_cases hs : r.stream = s
    · by_cases hends : Ends s reads
      · rw [written_append_of_ends hends]
      · rw [written_append hs hends]
        exact List.prefix_append _ _
    · rw [written_append_of_ne hs]
  have hsame : b.overflowed = false → ∀ s, written s (reads ++ [r]) = written s reads ∧
      (Ends s (reads ++ [r]) ↔ Ends s reads) := by
    intro hnot s
    have hends := hskip.resolve_left (Bool.eq_false_iff.mp hnot)
    by_cases hs : r.stream = s
    · subst hs
      exact ⟨written_append_of_ends hends r, iff_of_true (ends_append.mpr (Or.inl hends)) hends⟩
    · refine ⟨written_append_of_ne hs, ?_⟩
      rw [ends_append, or_iff_left fun hr => hs hr.1]
  constructor
  case overflow =>
    cases hb : b.overflowed with
    | true =>
      exact iff_of_true rfl ((h.overflow.mp hb).trans_le (hgrows .out).length_le)
    | false =>
      rw [(hsame hb .out).1, ← h.overflow, hb]
  case out_prefix => exact h.out_prefix.trans (hgrows .out)
  case exceeds => exact h.exceeds
  case out => exact fun hb => (h.out hb).trans (hsame hb .out).1.symm
  case err => exact fun hb => by rw [(hsame hb .err).1, h.err hb]
  case opens => exact fun hb s => (h.opens hb s).trans (not_congr (hsame hb s).2.symm)

/-- A stream that is registered is read. -/
theorem take (h : HasRead limits b reads) (hb : b.overflowed = false)
    (hopen : b.isOpen r.stream = true) : HasRead limits (b.read limits r) (reads ++ [r]) := by
  have hends : ¬ Ends r.stream reads := (h.opens hb _).mp hopen
  have hwritten := written_append rfl hends
  have hother : ∀ s, r.stream ≠ s → written s (reads ++ [r]) = written s reads :=
    fun s hs => written_append_of_ne hs
  have hwithin : ¬ limits.maxStdoutBytes < (written .out reads).length := by
    rw [← h.overflow, hb]
    exact Bool.false_ne_true
  obtain ⟨s, chunk, hle⟩ := r
  rw [Buffers.read, if_pos ⟨hb, hopen⟩]
  dsimp only at hends hwritten hother hopen ⊢
  have hunchanged : chunk.getD [] = [] → ∀ s', written s' (reads ++ [⟨s, chunk, hle⟩]) =
      written s' reads := by
    intro hnil s'
    by_cases hs : s = s'
    · subst hs
      rw [hwritten, hnil, List.append_nil]
    · exact hother s' hs
  rcases chunk with _ | _ | ⟨c, chunk⟩
  · have hsame := hunchanged rfl
    refine ⟨?_, ?_, h.exceeds, ?_, ?_, ?_⟩
    · rw [hsame, h.overflow]
    · rw [hsame]
      exact h.out_prefix
    · rw [hsame]
      exact h.out
    · rw [hsame]
      exact h.err
    · refine fun hb' s' => (h.opens hb' s').trans (not_congr ?_)
      simp [ends_append]
  · have hsame := hunchanged rfl
    have hend : ∀ s', Ends s' (reads ++ [⟨s, some [], hle⟩]) ↔ Ends s' reads ∨ s = s' := by
      intro s'
      simp [ends_append]
    cases s with
    | out =>
      refine ⟨?_, ?_, h.exceeds, ?_, ?_, ?_⟩
      · rw [hsame, h.overflow]
      · rw [hsame]
        exact h.out_prefix
      · rw [hsame]
        exact h.out
      · rw [hsame]
        exact h.err
      · rintro hb' (_ | _)
        · simp [Buffers.isOpen, hend]
        · simpa [Buffers.isOpen, hend] using h.opens hb .err
    | err =>
      refine ⟨?_, ?_, h.exceeds, ?_, ?_, ?_⟩
      · rw [hsame, h.overflow]
      · rw [hsame]
        exact h.out_prefix
      · rw [hsame]
        exact h.out
      · rw [hsame]
        exact h.err
      · rintro hb' (_ | _)
        · simpa [Buffers.isOpen, hend] using h.opens hb .out
        · simp [Buffers.isOpen, hend]
  · have hend : ∀ s', Ends s' (reads ++ [⟨s, some (c :: chunk), hle⟩]) ↔ Ends s' reads := by
      intro s'
      simp [ends_append]
    cases s with
    | out =>
      have hout : b.out ++ c :: chunk =
          written .out (reads ++ [⟨.out, some (c :: chunk), hle⟩]) := by
        rw [hwritten, h.out hb]
        rfl
      have herr := hother .err (by decide)
      refine ⟨?_, ?_, ?_, ?_, ?_, ?_⟩
      · dsimp only
        rw [hout, decide_eq_true_iff]
      · dsimp only
        rw [hout]
      · exact of_decide_eq_true
      · exact fun _ => hout
      · rw [herr]
        exact fun _ => h.err hb
      · intro _ s'
        rw [hend]
        exact h.opens hb s'
    | err =>
      have hout := hother .out (by decide)
      refine ⟨?_, ?_, h.exceeds, ?_, ?_, ?_⟩
      · rw [hout, h.overflow]
      · rw [hout]
        exact h.out_prefix
      · rw [hout]
        exact h.out
      · intro _
        dsimp only
        rw [h.err hb, tailOf_tailOf, hwritten]
        rfl
      · intro _ s'
        rw [hend]
        exact h.opens hb s'

theorem read (h : HasRead limits b reads) (r : Read) :
    HasRead limits (b.read limits r) (reads ++ [r]) := by
  by_cases htake : b.overflowed = false ∧ b.isOpen r.stream = true
  · exact h.take htake.1 htake.2
  · rw [Buffers.read, if_neg htake]
    refine h.skip ?_
    by_cases hb : b.overflowed = false
    · refine Or.inr (not_not.mp fun hends => htake ⟨hb, ?_⟩)
      exact (h.opens hb _).mpr hends
    · exact Or.inl ((Bool.not_eq_false _).mp hb)

/-- By induction on the reads. -/
theorem readAll (h : HasRead limits b reads) (more : List Read) :
    HasRead limits (b.readAll limits more) (reads ++ more) := by
  induction more generalizing b reads with
  | nil =>
    rw [List.append_nil]
    exact h
  | cons r more ih =>
    rw [List.append_cons]
    exact ih (h.read r)

end HasRead

/-! ## The outcome -/

/-- What the streams gave in time. -/
def early (deadline : ℤ) (turns : List Turn) : List Read :=
  (turns.takeWhile fun t => t.now < deadline).flatMap Turn.ready

section Drain

variable {limits : SandboxLimits} {deadline : ℤ} {b : Buffers} {turns : List Turn} {turn : Turn}

theorem early_cons_late (h : deadline ≤ turn.now) : early deadline (turn :: turns) = [] := by
  rw [early, List.takeWhile_cons_of_neg (by simpa using h), List.flatMap_nil]

theorem early_cons (h : ¬ deadline ≤ turn.now) :
    early deadline (turn :: turns) = turn.ready ++ early deadline turns := by
  rw [early, List.takeWhile_cons_of_pos (by simpa using h), List.flatMap_cons, early]

theorem readAll_append (more more' : List Read) :
    b.readAll limits (more ++ more') = (b.readAll limits more).readAll limits more' :=
  List.foldl_append

/-- A loop that is over reads nothing more. -/
theorem readAll_of_stopped (h : b.goesOn = false) (more : List Read) :
    b.readAll limits more = b := by
  induction more with
  | nil => rfl
  | cons r more ih =>
    have hread : b.read limits r = b := by
      rw [Buffers.read, if_neg]
      rintro ⟨hover, hopen⟩
      cases hr : r.stream <;> simp_all [Buffers.goesOn, Buffers.isOpen]
    rw [Buffers.readAll, List.foldl_cons, hread]
    exact ih

/-- **The loop** ends with all that was read in time, unless it goes on with no turn too late. By
induction on the turns. -/
theorem drain_eq : drain limits deadline b turns =
    if (b.readAll limits (early deadline turns)).goesOn = true ∧ ∀ t ∈ turns, ¬ deadline ≤ t.now
    then none
    else some (b.readAll limits (early deadline turns),
      (b.readAll limits (early deadline turns)).goesOn) := by
  induction turns generalizing b with
  | nil =>
    rw [drain, show b.readAll limits (early deadline []) = b from rfl]
    cases hb : b.goesOn <;> simp
  | cons turn turns ih =>
    rw [drain]
    cases hb : b.goesOn with
    | false =>
      rw [if_neg Bool.false_ne_true, readAll_of_stopped hb, hb, if_neg fun h =>
        Bool.false_ne_true h.1]
    | true =>
      rw [if_pos rfl]
      by_cases hlate : deadline ≤ turn.now
      · rw [if_pos hlate, early_cons_late hlate, show b.readAll limits [] = b from rfl, hb,
          if_neg fun h => h.2 turn List.mem_cons_self hlate]
      · rw [if_neg hlate, ih, early_cons hlate, readAll_append]
        simp only [List.forall_mem_cons, hlate, not_false_eq_true, true_and]

end Drain

section Judged

variable (limits : SandboxLimits) (started : ℤ) (turns : List Turn)

/-- What a stream gave in time. -/
def gave (s : Stream) : Bytes := written s (early (deadlineOf limits started) turns)

/-- Both streams came to their end in time. -/
def Closed : Prop :=
  Ends .out (early (deadlineOf limits started) turns) ∧
    Ends .err (early (deadlineOf limits started) turns)

/-- There was too much. -/
def Overflows : Prop := limits.maxStdoutBytes < (gave limits started turns .out).length

/-- The end of the errors. -/
def errorText : String :=
  String.ofList (Utf8.decodeReplace (tailOf limits (gave limits started turns .err)))

/-- The outcome is that of what the streams gave in time. -/
structure Judged (exit : Option ℤ) (o : SandboxOutcome) : Prop where
  overflow : o.status = .outputOverflow ↔ Overflows limits started turns
  timeout : o.status = .timeout ↔ ¬ Overflows limits started turns ∧
    (Closed limits started turns → exit = none)
  exited : ¬ Overflows limits started turns → Closed limits started turns → ∀ code ∈ exit,
    (o.status, o.exitCode, o.signal) = classifyReturncode code (errorText limits started turns)
  stdout : o.stdout = (gave limits started turns .out).take limits.maxStdoutBytes
  stderrTail : ¬ Overflows limits started turns → o.stderrTail = errorText limits started turns
  truncated : o.truncated = true ↔ Overflows limits started turns

variable {limits started turns}

/-- The loop goes on while there is not too much and a stream is not at its end. -/
theorem goesOn_iff : (Buffers.empty.readAll limits
      (early (deadlineOf limits started) turns)).goesOn = true ↔
    ¬ Overflows limits started turns ∧ ¬ Closed limits started turns := by
  have hread := (HasRead.empty limits).readAll (early (deadlineOf limits started) turns)
  rw [List.nil_append] at hread
  generalize Buffers.empty.readAll limits (early (deadlineOf limits started) turns) = b at hread ⊢
  have hover : b.overflowed = true ↔ Overflows limits started turns := hread.overflow
  rw [← hover, Buffers.goesOn, Bool.and_eq_true, Bool.or_eq_true, Bool.not_eq_true',
    Bool.not_eq_true]
  refine and_congr_right fun hb => ?_
  have hout := hread.opens hb .out
  have herr := hread.opens hb .err
  rw [show b.isOpen .out = b.outOpen from rfl] at hout
  rw [show b.isOpen .err = b.errOpen from rfl] at herr
  rw [hout, herr, Closed, not_and_or]

/-- A run has an outcome when its loop ends. -/
theorem exists_run_iff {exit : Option ℤ} :
    (∃ o, runSandboxed limits (.launched started turns exit) = some o) ↔
      Overflows limits started turns ∨ Closed limits started turns ∨
        ∃ t ∈ turns, deadlineOf limits started ≤ t.now := by
  rw [runSandboxed, drainBounded, drain_eq]
  split_ifs with hon
  · refine iff_of_false (fun ⟨o, ho⟩ => nomatch ho) ?_
    obtain ⟨hgoes, hearly⟩ := hon
    obtain ⟨hover, hclosed⟩ := goesOn_iff.mp hgoes
    rintro (h | h | ⟨t, ht, hlate⟩)
    · exact hover h
    · exact hclosed h
    · exact hearly t ht hlate
  · refine iff_of_true ⟨_, rfl⟩ ?_
    by_contra hnone
    obtain ⟨hover, hclosed, hearly⟩ := by simpa only [not_or] using hnone
    exact hon ⟨goesOn_iff.mpr ⟨hover, hclosed⟩, fun t ht hlate => hearly ⟨t, ht, hlate⟩⟩

/-- An exit code is not taken for a lack of time, nor for too much. -/
theorem classifyReturncode_status (code : ℤ) (stderrTail : String) :
    (classifyReturncode code stderrTail).1 ≠ .timeout ∧
      (classifyReturncode code stderrTail).1 ≠ .outputOverflow := by
  rw [classifyReturncode]
  split_ifs <;> exact ⟨(nomatch ·), (nomatch ·)⟩

/-- The child is taken for a success with the code 0 alone. -/
theorem classifyReturncode_ok_iff {code : ℤ} {stderrTail : String} :
    (classifyReturncode code stderrTail).1 = .ok ↔
      code = 0 ∧ ∀ marker ∈ launchFailMarkers, contains stderrTail marker = false := by
  rw [classifyReturncode]
  have hmarkers : (launchFailMarkers.any fun marker => contains stderrTail marker) = true ↔
      ¬ ∀ marker ∈ launchFailMarkers, contains stderrTail marker = false := by
    simp
  split_ifs with hfail hzero hneg hsignal
  · exact iff_of_false (by decide) fun h => hmarkers.mp hfail h.2
  · exact iff_of_true rfl ⟨hzero, not_not.mp (hmarkers.not.mp hfail)⟩
  · exact iff_of_false (fun h => nomatch h) fun h => hzero h.1
  · exact iff_of_false (fun h => nomatch h) fun h => hzero h.1
  · exact iff_of_false (fun h => nomatch h) fun h => hzero h.1

/-- Of a loop that ended, the outcome is that of the bytes. -/
theorem judged_of_run {exit : Option ℤ} {o : SandboxOutcome}
    (h : runSandboxed limits (.launched started turns exit) = some o) :
    Judged limits started turns exit o := by
  have hread := (HasRead.empty limits).readAll (early (deadlineOf limits started) turns)
  have hgoes := @goesOn_iff limits started turns
  rw [List.nil_append] at hread
  rw [runSandboxed, drainBounded, drain_eq] at h
  rw [if_neg fun hon => by rw [if_pos hon] at h; cases h] at h
  generalize Buffers.empty.readAll limits (early (deadlineOf limits started) turns) = b
    at hread hgoes h
  rw [Option.map_some, Option.map_some, Option.some.injEq] at h
  dsimp only at h
  have hover : b.overflowed = true ↔ Overflows limits started turns := hread.overflow
  have hstdout : b.out.take limits.maxStdoutBytes =
      (gave limits started turns .out).take limits.maxStdoutBytes := by
    by_cases hb : b.overflowed = false
    · rw [hread.out hb, gave]
    · obtain ⟨rest, hrest⟩ := hread.out_prefix
      have hlength := hread.exceeds ((Bool.not_eq_false _).mp hb)
      rw [gave, ← hrest, List.take_append_of_le_length hlength.le]
  have htail : ¬ Overflows limits started turns →
      String.ofList (Utf8.decodeReplace (tailOf limits b.err)) =
        errorText limits started turns := by
    intro hnot
    rw [hread.err (Bool.eq_false_iff.mpr fun hb => hnot (hover.mp hb)),
      tailOf_eq_self length_tailOf_le, errorText, gave]
  by_cases hoverflows : Overflows limits started turns
  · have hb : b.overflowed = true := hover.mpr hoverflows
    have hstop : b.goesOn = false := Bool.eq_false_iff.mpr fun h => (hgoes.mp h).1 hoverflows
    rw [hstop, hb] at h
    subst h
    exact ⟨iff_of_true rfl hoverflows, iff_of_false (nomatch ·) fun h => h.1 hoverflows,
      fun hnot => absurd hoverflows hnot, hstdout, fun hnot => absurd hoverflows hnot,
      iff_of_true rfl hoverflows⟩
  · have hb : b.overflowed = false := Bool.eq_false_iff.mpr fun hb => hoverflows (hover.mp hb)
    by_cases hclosed : Closed limits started turns
    · have hstop : b.goesOn = false := Bool.eq_false_iff.mpr fun h => (hgoes.mp h).2 hclosed
      rw [hstop, hb] at h
      unfold outcomeOf at h
      rw [htail hoverflows] at h
      cases exit with
      | none =>
        subst h
        exact ⟨iff_of_false (nomatch ·) hoverflows, iff_of_true rfl ⟨hoverflows, fun _ => rfl⟩,
          fun _ _ code hcode => absurd hcode (Option.not_mem_none code), hstdout, fun _ => rfl,
          iff_of_false Bool.false_ne_true hoverflows⟩
      | some code =>
        subst h
        obtain ⟨hintime, hfits⟩ :=
          classifyReturncode_status code (errorText limits started turns)
        refine ⟨iff_of_false hfits hoverflows,
          iff_of_false hintime fun h => Option.some_ne_none code (h.2 hclosed), ?_, hstdout,
          fun _ => rfl, iff_of_false Bool.false_ne_true hoverflows⟩
        rintro - - code' ⟨⟩
        rfl
    · have hlate : b.goesOn = true := hgoes.mpr ⟨hoverflows, hclosed⟩
      rw [hlate, hb] at h
      unfold outcomeOf at h
      rw [htail hoverflows] at h
      subst h
      exact ⟨iff_of_false (nomatch ·) hoverflows,
        iff_of_true rfl ⟨hoverflows, fun h => absurd h hclosed⟩, fun _ h => absurd h hclosed,
        hstdout, fun _ => rfl, iff_of_false Bool.false_ne_true hoverflows⟩

/-- An outcome is a success exactly if the streams ended in time, within the limit, and the child
exited with 0 from a jail that was built. Then nothing of its output is missing. -/
theorem Judged.ok_iff {exit : Option ℤ} {o : SandboxOutcome}
    (h : Judged limits started turns exit o) : o.status = .ok ↔
      ¬ Overflows limits started turns ∧ Closed limits started turns ∧ exit = some 0 ∧
        ∀ marker ∈ launchFailMarkers, contains (errorText limits started turns) marker = false := by
  by_cases hoverflows : Overflows limits started turns
  · refine iff_of_false (fun hok => ?_) fun hall => hall.1 hoverflows
    have hover := h.overflow.mpr hoverflows
    rw [hok] at hover
    cases hover
  · rw [and_iff_right hoverflows]
    by_cases hexited : Closed limits started turns → exit = none
    · refine iff_of_false (fun hok => ?_) ?_
      · have htimeout := h.timeout.mpr ⟨hoverflows, hexited⟩
        rw [hok] at htimeout
        cases htimeout
      · rintro ⟨hclosed, hzero, -⟩
        rw [hexited hclosed] at hzero
        cases hzero
    · obtain ⟨hclosed, hsome⟩ := Classical.not_imp.mp hexited
      obtain ⟨code, rfl⟩ := Option.ne_none_iff_exists'.mp hsome
      have hstatus := congrArg Prod.fst (h.exited hoverflows hclosed code rfl)
      dsimp only at hstatus
      rw [and_iff_right hclosed, hstatus, classifyReturncode_ok_iff, Option.some_inj]

theorem Judged.stdout_eq {exit : Option ℤ} {o : SandboxOutcome}
    (h : Judged limits started turns exit o) (hok : o.status = .ok) :
    o.stdout = gave limits started turns .out := by
  rw [h.stdout, List.take_of_length_le (not_lt.mp (h.ok_iff.mp hok).1)]

variable (limits started turns)

end Judged

/-- A jail that ended well, and what it printed: both streams came to their end in time and within
the limit, and the child exited with 0 from a jail that was built. -/
def Clean (limits : SandboxLimits) (jail : Jail) (stdout : Bytes) : Prop :=
  ∃ started turns, jail = .launched started turns (some 0) ∧
    ¬ Overflows limits started turns ∧ Closed limits started turns ∧
    (∀ marker ∈ launchFailMarkers, contains (errorText limits started turns) marker = false) ∧
    stdout = gave limits started turns .out

/-- A success is a jail that ended well. -/
theorem clean_iff_run {limits : SandboxLimits} {jail : Jail} {stdout : Bytes} :
    Clean limits jail stdout ↔ ∃ outcome, runSandboxed limits jail = some outcome ∧
      outcome.status = .ok ∧ outcome.stdout = stdout := by
  constructor
  · rintro ⟨started, turns, rfl, hfits, hclosed, hmarkers, rfl⟩
    obtain ⟨outcome, hrun⟩ := exists_run_iff.mpr (Or.inr (Or.inl hclosed))
    have hjudged := judged_of_run hrun
    have hok := hjudged.ok_iff.mpr ⟨hfits, hclosed, rfl, hmarkers⟩
    exact ⟨outcome, hrun, hok, hjudged.stdout_eq hok⟩
  · rintro ⟨outcome, hrun, hok, rfl⟩
    cases jail with
    | unlaunchable error =>
      obtain rfl := Option.some.inj hrun
      cases hok
    | launched started turns exit =>
      have hjudged := judged_of_run hrun
      obtain ⟨hfits, hclosed, rfl, hmarkers⟩ := hjudged.ok_iff.mp hok
      exact ⟨started, turns, rfl, hfits, hclosed, hmarkers, hjudged.stdout_eq hok⟩

/-- The reads of what is printed, in pieces of one byte, and the ends of the streams. -/
def printed : Bytes → List Read
  | [] => [⟨.out, some [], by simp⟩, ⟨.err, some [], by simp⟩]
  | b :: bytes => ⟨.out, some [b], by simp [readChunk]⟩ :: printed bytes

/-- A jail that prints some bytes and is done. -/
def Jail.printing (stdout : Bytes) : Jail :=
  .launched 0 ((printed stdout).map fun r => ⟨0, [r]⟩) (some 0)

theorem written_printed (stdout : Bytes) :
    written .out (printed stdout) = stdout ∧ written .err (printed stdout) = [] := by
  induction stdout with
  | nil => exact ⟨rfl, rfl⟩
  | cons b bytes ih => exact ⟨congrArg (b :: ·) ih.1, ih.2⟩

theorem ends_printed (stdout : Bytes) (s : Stream) : Ends s (printed stdout) := by
  induction stdout with
  | nil => cases s <;> simp [Ends, printed]
  | cons b bytes ih =>
    obtain ⟨r, hr, hend⟩ := ih
    exact ⟨r, List.mem_cons_of_mem _ hr, hend⟩

/-- What is printed comes through, if it is within the limit. -/
theorem clean_printing {limits : SandboxLimits} {stdout : Bytes}
    (htime : 0 < limits.parentTimeoutS) (h : stdout.length ≤ limits.maxStdoutBytes) :
    Clean limits (.printing stdout) stdout := by
  have hearly : early (deadlineOf limits 0) ((printed stdout).map fun r => ⟨0, [r]⟩) =
      printed stdout := by
    rw [early, List.takeWhile_eq_self_iff.mpr, List.flatMap_map]
    · exact List.flatMap_singleton' _
    · intro t ht
      obtain ⟨r, -, rfl⟩ := List.mem_map.mp ht
      rw [decide_eq_true_iff, deadlineOf]
      dsimp only
      omega
  refine ⟨0, _, rfl, ?_, ?_, ?_, ?_⟩
  · rw [Overflows, gave, hearly, (written_printed stdout).1]
    exact not_lt.mpr h
  · rw [Closed, hearly]
    exact ⟨ends_printed stdout .out, ends_printed stdout .err⟩
  · rw [errorText, gave, hearly, (written_printed stdout).2, tailOf_eq_self (Nat.zero_le _)]
    decide
  · rw [gave, hearly, (written_printed stdout).1]

end Sandbox

end Eyenet
