import Eyenet.PyDumps
import Eyenet.Sandbox

/-!
# The chokepoint

Every document is parsed behind one gate (`classifier/sandbox/_chokepoint.py`). It is armed when
hostile probes, run in the jail, were all contained and a benign control came through
(`_canary.py`); otherwise nothing is extracted. What a parser prints is looked at after a clean exit
alone.

* `verified_iff` — when a proof of containment is accepted.
* `Gate.Sound` — a gate that is armed has such a proof, whatever it went through.
* `Gate.extracted_iff` — when something is extracted.
-/

namespace Eyenet

open Framing PyJson Sandbox

/-! ## The canary -/

/-- `CANARY_PROBES` -/
def canaryProbes : List String := ["network", "spawn", "filesystem", "memory"]

/-- `_ESCAPED` -/
def escapedMarker : Bytes := utf8 "VERDICT=ESCAPED"

/-- `_BENIGN_MARKER` -/
def benignMarker : String := "BENIGN_OK "

/-- `_BENIGN_INPUT` -/
def benignInput : Bytes := utf8 "eyenet-sandbox-canary-control-input"

/-- `CanaryProbeResult` -/
structure CanaryProbeResult where
  probe : String
  contained : Bool
  detail : String
  deriving DecidableEq

/-- `text[:n]` -/
def clip (n : ℕ) (text : String) : String := String.ofList (text.toList.take n)

/-- `str` of a number that may be missing. -/
def pyOptional : Option ℤ → String
  | none => "None"
  | some n => toString n

/-- `outcome.stdout.decode("utf-8", "replace")` -/
def SandboxOutcome.stdoutText (outcome : SandboxOutcome) : String :=
  String.ofList (Utf8.decodeReplace outcome.stdout)

/-- `_interpret_probe` -/
def interpretProbe (probe : String) (outcome : SandboxOutcome) : CanaryProbeResult :=
  if outcome.launched = false then
    ⟨probe, false, "jail launch failed: " ++ clip 200 outcome.stderrTail⟩
  else if escapedMarker <:+: outcome.stdout then
    ⟨probe, false, "ESCAPED via " ++ probe ++ ": " ++ clip 200 outcome.stdoutText⟩
  else if outcome.status = .ok then
    match pyStrip outcome.stdoutText.toList with
    | [] => ⟨probe, true, "denied (clean exit)"⟩
    | c :: cs => ⟨probe, true, String.ofList (c :: cs)⟩
  else
    ⟨probe, true, "killed by jail: status=" ++ outcome.status.value ++ " signal=" ++
      pyOptional outcome.signal⟩

/-- `_benign_ok` -/
def benignOk (outcome : SandboxOutcome) : Bool :=
  outcome.status = .ok &&
    contains outcome.stdoutText (benignMarker ++ hex (Sha256.digest benignInput))

/-- `SandboxVerification`, without the version. -/
structure SandboxVerification where
  ok : Bool
  nsjailPath : Option String
  benignOk : Bool
  probes : List CanaryProbeResult
  failureReason : Option String
  deriving DecidableEq

/-- What a canary finds: where `nsjail` is, and what becomes of each probe and of the control. -/
structure Boot where
  nsjailPath : Option String
  probe : String → Jail
  benign : Jail

section Limits

variable (limits : SandboxLimits)

/-- The loop over the probes. -/
def Boot.probeResults (boot : Boot) : List String → Option (List CanaryProbeResult)
  | [] => some []
  | probe :: probes =>
    (runSandboxed limits (boot.probe probe)).bind fun outcome =>
    (boot.probeResults probes).map (interpretProbe probe outcome :: ·)

/-- The end of `verify_sandbox`. -/
def verdictOf (path : String) (probes : List CanaryProbeResult) (benignOk : Bool) :
    SandboxVerification :=
  let ok := probes.all (·.contained) && benignOk
  let uncontained := (probes.filter fun p => !p.contained).map (·.probe)
  let parts :=
    (if uncontained = [] then [] else ["uncontained probes: " ++ ", ".intercalate uncontained]) ++
      if benignOk then [] else ["benign control extraction failed"]
  ⟨ok, some path, benignOk, probes, if ok then none else some ("; ".intercalate parts)⟩

/-- `verify_sandbox`; `none` while a jail runs. -/
def verifySandbox (boot : Boot) : Option SandboxVerification :=
  match boot.nsjailPath with
  | none => some ⟨false, none, false, [], some "nsjail not found on PATH"⟩
  | some path =>
    (boot.probeResults limits canaryProbes).bind fun probes =>
    (runSandboxed limits boot.benign).map fun outcome => verdictOf path probes (benignOk outcome)

/-! ## The gate -/

/-- `SandboxState` -/
inductive SandboxState where
  | unarmed
  | healthy
  | degraded
  deriving DecidableEq

/-- The member's value. -/
def SandboxState.value : SandboxState → String
  | unarmed => "unarmed"
  | healthy => "healthy"
  | degraded => "degraded"

/-- `_Gate` -/
structure Gate where
  state : SandboxState
  nsjailPath : Option String
  verification : Option SandboxVerification
  deriving DecidableEq

/-- `_GATE`, and the gate after `reset_sandbox`. -/
def Gate.unarmed : Gate := ⟨.unarmed, none, none⟩

/-- The gate after a proof. -/
def Gate.proved (verification : SandboxVerification) : Gate :=
  if verification.ok then ⟨.healthy, verification.nsjailPath, some verification⟩
  else ⟨.degraded, none, some verification⟩

/-- `arm_sandbox`, with what the canary would find. -/
def Gate.arm (gate : Gate) (force : Bool) (boot : Boot) : Option Gate :=
  if !force && gate.verification.isSome then some gate
  else (verifySandbox limits boot).map Gate.proved

/-! ## Extracting -/

/-- `ExtractResult` -/
structure ExtractResult where
  text : PyStr
  meta_ : List (PyStr × PyValue)

/-- `ExtractResult | FailedClosed` -/
inductive Extracted where
  | result (result : ExtractResult)
  | failedClosed (reason : FailReason) (detail : String)

/-- `SandboxProfile`, by its name and whether it has an entrypoint of its own. -/
structure SandboxProfile where
  name : String
  entrypoint : Bool
  deriving DecidableEq

/-- How the output is read. -/
inductive Interpret where
  | envelope
  | rawText
  deriving DecidableEq

/-- `_STATUS_TO_REASON.get(status, FailReason.PARSER_CRASH)` -/
def statusToReason : SandboxStatus → FailReason
  | .launchFailed => .launchFailed
  | .nonzeroExit => .parserCrash
  | .killedSignal => .parserKilled
  | .timeout => .timeout
  | .outputOverflow => .outputOverflow
  | .ok => .parserCrash

/-- `_parse_envelope`; `json.loads` may raise something else than `JSONDecodeError`. -/
def parseEnvelope (json : PyJson.Limits) (stdout : Bytes) : Except Raised (Option ExtractResult) :=
  match Utf8.decode stdout with
  | none => .ok none
  | some cs =>
    match AdvisoryRepair.caught (loads json (chars cs)) with
    | .error e => .error e
    | .ok (some (.dict obj)) =>
      match obj.lookup (py "text"), (obj.lookup (py "meta")).getD (.dict []) with
      | some (.str text), .dict meta_ => .ok (some ⟨text, meta_⟩)
      | _, _ => .ok none
    | .ok _ => .ok none

/-- `_interpret_extraction` -/
def interpretExtraction (json : PyJson.Limits) (interpret : Interpret) (outcome : SandboxOutcome) :
    Except Raised Extracted :=
  if outcome.status = .ok then
    match interpret with
    | .rawText => .ok (.result ⟨chars (Utf8.decodeReplace outcome.stdout), []⟩)
    | .envelope =>
      (parseEnvelope json outcome.stdout).map fun result =>
        match result with
        | none =>
          .failedClosed .badOutput "worker exited 0 but emitted an unparseable envelope"
        | some result => .result result
  else
    let detail := "status=" ++ outcome.status.value ++ " exit=" ++ pyOptional outcome.exitCode ++
      " signal=" ++ pyOptional outcome.signal ++ " " ++ clip 200 outcome.stderrTail
    .ok (.failedClosed (statusToReason outcome.status) (String.ofList (pyStrip detail.toList)))

/-- `extract_sandboxed`, with or without a worker; `none` while the jail runs. -/
def Gate.extractSandboxed (gate : Gate) (json : PyJson.Limits) (worker : Option String)
    (profile : SandboxProfile) (interpret : Interpret) (jail : Jail) :
    Option (Except Raised Extracted) :=
  if !profile.entrypoint && worker.isNone then some (.error .valueError)
  else if gate.state ≠ .healthy ∨ gate.nsjailPath = none then
    some (.ok (.failedClosed .sandboxDegraded
      ("chokepoint not armed (state=" ++ gate.state.value ++ ")")))
  else (runSandboxed limits jail).map (interpretExtraction json interpret)

/-! ## What is proved, and what is extracted -/

/-- The workload was started and did not escape. -/
def Contained (outcome : SandboxOutcome) : Prop :=
  outcome.status ≠ .launchFailed ∧ ¬ escapedMarker <:+: outcome.stdout

/-- The jail held every probe, and let the control through. -/
structure Boot.Holds (boot : Boot) : Prop where
  found : boot.nsjailPath ≠ none
  contained : ∀ probe ∈ canaryProbes, ∃ outcome,
    runSandboxed limits (boot.probe probe) = some outcome ∧ Contained outcome
  benign : ∃ outcome, runSandboxed limits boot.benign = some outcome ∧ benignOk outcome = true

section Lemmas

variable {limits} {boot : Boot} {gate gate' : Gate} {v : SandboxVerification}

theorem contained_interpretProbe (probe : String) (outcome : SandboxOutcome) :
    (interpretProbe probe outcome).contained = true ↔ Contained outcome := by
  have hlaunched : outcome.launched = false ↔ outcome.status = .launchFailed := by
    simp [SandboxOutcome.launched]
  rw [interpretProbe, Contained]
  split_ifs with hlaunch hescaped hok
  · exact iff_of_false (fun h => nomatch h) fun h => h.1 (hlaunched.mp hlaunch)
  · exact iff_of_false (fun h => nomatch h) fun h => h.2 hescaped
  · refine iff_of_true ?_ ⟨hlaunch ∘ hlaunched.mpr, hescaped⟩
    split <;> rfl
  · exact iff_of_true rfl ⟨hlaunch ∘ hlaunched.mpr, hescaped⟩

/-- By induction on the probes. -/
theorem all_probeResults_iff {probes : List String} {results : List CanaryProbeResult}
    (h : boot.probeResults limits probes = some results) :
    (∀ r ∈ results, r.contained = true) ↔ ∀ probe ∈ probes, ∃ outcome,
      runSandboxed limits (boot.probe probe) = some outcome ∧ Contained outcome := by
  induction probes generalizing results with
  | nil =>
    obtain rfl := Option.some.inj h
    exact iff_of_true (List.forall_mem_nil _) (List.forall_mem_nil _)
  | cons probe probes ih =>
    obtain ⟨outcome, hrun, hrest⟩ := Option.bind_eq_some_iff.mp h
    obtain ⟨results, hresults, rfl⟩ := Option.map_eq_some_iff.mp hrest
    rw [List.forall_mem_cons, List.forall_mem_cons, ih hresults, contained_interpretProbe]
    refine and_congr_left fun _ => ⟨fun hcontained => ⟨outcome, hrun, hcontained⟩, ?_⟩
    rintro ⟨outcome', hrun', hcontained⟩
    rwa [Option.some.inj (hrun.symm.trans hrun')]

/-- **The proof** is accepted exactly if the jail holds. -/
theorem verified_iff (h : verifySandbox limits boot = some v) :
    v.ok = true ↔ boot.Holds limits := by
  rw [verifySandbox] at h
  split at h
  · next hpath =>
    obtain rfl := Option.some.inj h
    exact iff_of_false Bool.false_ne_true fun hholds => hholds.found hpath
  · next path hpath =>
    obtain ⟨probes, hprobes, hrest⟩ := Option.bind_eq_some_iff.mp h
    obtain ⟨benign, hbenign, rfl⟩ := Option.map_eq_some_iff.mp hrest
    simp only [verdictOf, Bool.and_eq_true, List.all_eq_true]
    rw [all_probeResults_iff hprobes]
    constructor
    · rintro ⟨hall, hok⟩
      exact ⟨hpath ▸ Option.some_ne_none path, hall, benign, hbenign, hok⟩
    · rintro ⟨-, hall, benign', hbenign', hok⟩
      rw [Option.some.inj (hbenign.symm.trans hbenign')]
      exact ⟨hall, hok⟩

/-- A jail that holds gives a proof, and it is accepted. -/
theorem verifySandbox_of_holds (h : boot.Holds limits) :
    ∃ v, verifySandbox limits boot = some v ∧ v.ok = true ∧ v.nsjailPath ≠ none := by
  have hprobes : ∀ probes ⊆ canaryProbes, ∃ results,
      boot.probeResults limits probes = some results := by
    intro probes hsub
    induction probes with
    | nil => exact ⟨[], rfl⟩
    | cons probe probes ih =>
      obtain ⟨hprobe, hprobes⟩ := List.cons_subset.mp hsub
      obtain ⟨outcome, hrun, -⟩ := h.contained probe hprobe
      obtain ⟨results, hresults⟩ := ih hprobes
      exact ⟨_, by rw [Boot.probeResults, hrun, Option.bind_some, hresults, Option.map_some]⟩
  obtain ⟨path, hpath⟩ := Option.ne_none_iff_exists'.mp h.found
  obtain ⟨results, hresults⟩ := hprobes canaryProbes (List.Subset.refl _)
  obtain ⟨outcome, hrun, -⟩ := h.benign
  have hverify : verifySandbox limits boot =
      some (verdictOf path results (benignOk outcome)) := by
    rw [verifySandbox, hpath]
    dsimp only
    rw [hresults, Option.bind_some, hrun, Option.map_some]
  exact ⟨_, hverify, (verified_iff hverify).mpr h, Option.some_ne_none path⟩

/-- A gate that is armed has a proof. -/
def Gate.Sound (gate : Gate) : Prop :=
  gate.state = .healthy → ∃ v ∈ gate.verification, v.ok = true

theorem Gate.sound_proved (v : SandboxVerification) : (Gate.proved v).Sound := by
  rw [Gate.Sound, Gate.proved]
  split_ifs with hok
  · exact fun _ => ⟨v, rfl, hok⟩
  · exact fun h => nomatch h

/-- A jail that holds arms the gate. -/
theorem Gate.arm_of_holds (gate : Gate) (h : boot.Holds limits) :
    ∃ gate', gate.arm limits true boot = some gate' ∧ gate'.state = .healthy ∧
      gate'.nsjailPath ≠ none := by
  obtain ⟨v, hverify, hok, hpath⟩ := verifySandbox_of_holds h
  refine ⟨Gate.proved v, ?_, ?_, ?_⟩
  · rw [Gate.arm, Bool.not_true, Bool.false_and, if_neg Bool.false_ne_true, hverify,
      Option.map_some]
  · rw [Gate.proved, if_pos hok]
  · rw [Gate.proved, if_pos hok]
    exact hpath

/-- What a gate is after it was to be armed. -/
theorem Gate.arm_eq_some {force : Bool} (h : gate.arm limits force boot = some gate') :
    gate' = gate ∨ ∃ v, verifySandbox limits boot = some v ∧ gate' = Gate.proved v := by
  rw [Gate.arm] at h
  split_ifs at h
  · exact Or.inl (Option.some.inj h).symm
  · obtain ⟨v, hv, hgate⟩ := Option.map_eq_some_iff.mp h
    exact Or.inr ⟨v, hv, hgate.symm⟩

/-- What is read of an output. -/
def Reads (json : PyJson.Limits) (interpret : Interpret) (stdout : Bytes) (r : ExtractResult) :
    Prop :=
  match interpret with
  | .envelope => parseEnvelope json stdout = .ok (some r)
  | .rawText => r = ⟨chars (Utf8.decodeReplace stdout), []⟩

theorem interpretExtraction_eq_result {json : PyJson.Limits} {interpret : Interpret}
    {outcome : SandboxOutcome} {r : ExtractResult} :
    interpretExtraction json interpret outcome = .ok (.result r) ↔
      outcome.status = .ok ∧ Reads json interpret outcome.stdout r := by
  unfold interpretExtraction
  split_ifs with hok
  · rw [and_iff_right hok]
    cases interpret with
    | rawText => simp [Reads, eq_comm]
    | envelope =>
      dsimp only [Reads]
      rcases parseEnvelope json outcome.stdout with e | _ | result
      · simp [Except.map]
      · simp [Except.map]
      · simp [Except.map]
  · simp [hok]

/-- **Something is extracted** behind an armed gate alone, from a jail that ended well. -/
theorem Gate.extracted_iff {json : PyJson.Limits} {worker : Option String}
    {profile : SandboxProfile} {interpret : Interpret} {jail : Jail} {r : ExtractResult} :
    gate.extractSandboxed limits json worker profile interpret jail = some (.ok (.result r)) ↔
      (profile.entrypoint = true ∨ worker.isSome = true) ∧
      (gate.state = .healthy ∧ gate.nsjailPath ≠ none) ∧
      ∃ stdout, Clean limits jail stdout ∧ Reads json interpret stdout r := by
  rw [Gate.extractSandboxed]
  split_ifs with hworker hgate
  · refine iff_of_false (fun h => nomatch h) fun h => ?_
    cases hentry : profile.entrypoint <;> cases hw : worker <;> simp_all
  · refine iff_of_false (fun h => nomatch h) fun h => ?_
    exact hgate.elim (fun hstate => hstate h.2.1.1) h.2.1.2
  · obtain ⟨hstate, hpath⟩ := not_or.mp hgate
    have hruns : profile.entrypoint = true ∨ worker.isSome = true := by
      cases hentry : profile.entrypoint <;> cases hw : worker <;> simp_all
    rw [and_iff_right hruns, and_iff_right ⟨not_not.mp hstate, hpath⟩, Option.map_eq_some_iff]
    simp only [interpretExtraction_eq_result, clean_iff_run]
    constructor
    · rintro ⟨outcome, hrun, hok, hreads⟩
      exact ⟨_, ⟨outcome, hrun, hok, rfl⟩, hreads⟩
    · rintro ⟨_, ⟨outcome, hrun, hok, rfl⟩, hreads⟩
      exact ⟨outcome, hrun, hok, hreads⟩

/-- **What a worker dumps is read**, whatever text and metadata it has. -/
theorem parseEnvelope_text {floats : Floats} (layout : Layout) {text : PyStr}
    {meta_ : List (PyStr × PyValue)}
    (h : Readable floats (.dict [(py "text", .str text), (py "meta", .dict meta_)])) :
    parseEnvelope unlimited (utf8 (String.ofList
      (PyJson.text layout 0 (.dict [(py "text", .str text), (py "meta", .dict meta_)])))) =
      .ok (some ⟨text, meta_⟩) := by
  have hread : loads unlimited (chars (PyJson.text layout 0
      (.dict [(py "text", .str text), (py "meta", .dict meta_)])) ++ chars []) = .ok _ :=
    loads_text layout h fun c hc => absurd hc List.not_mem_nil
  rw [chars_nil, List.append_nil] at hread
  rw [parseEnvelope, utf8_eq_flatMap, String.toList_ofList, Utf8.decode_encode]
  dsimp only
  rw [hread]
  rfl

end Lemmas

end Limits

end Eyenet
