import Eyenet.AuditChain
import Eyenet.CandidateJoin
import Eyenet.StampText
import Eyenet.Table
import Mathlib.Algebra.Order.Field.Rat
import Mathlib.Data.List.DropRight
import Mathlib.Data.Finset.Card
import Mathlib.Data.Nat.Cast.Order.Ring
import Mathlib.Order.Bounds.Basic
import Mathlib.Tactic.NormNum

/-!
# The mentions and the score of a candidate

`record_candidate_mention` and `score_candidate` (`sqlmodel_repo/candidates.py`), in any order and
with any repetition, for one `(source_id, platform_groupid)`. The one adds a mention under its
evidence ref and moves `last_observed_at_ingest`; the other counts the groups and the actors of the
mentions that are there.

* `CandidateFile.Reflects` — what a candidate tells of the calls so far.
* `CandidateFile.run_reflects` — it holds after any calls.
-/

namespace Eyenet

open AuditChain

/-! ## The score -/

/-- Rounding of a real to a floating-point number. -/
structure FloatRounding where
  round : ℚ → ℚ
  /-- a greater number is not rounded to a smaller one -/
  monotone : Monotone round
  round_zero : round 0 = 0

/-- `_SCORE_FUNCTION_VERSION` -/
def scoreFunctionVersion : ℕ := 1

/-- `_W_GROUPS` -/
def weightGroups : ℚ := 3 / 10

/-- `_W_ACTORS` -/
def weightActors : ℚ := 2 / 10

/-- The breakdown of a score. -/
structure ScoreBreakdown where
  distinctMentioningGroups : ℕ
  distinctMentioningActors : ℕ
  scoreFunctionVersion : ℕ
  deriving DecidableEq

section Score

variable (fl : FloatRounding)

/-- A product of a weight with a count. -/
def FloatRounding.weigh (weight : ℚ) (count : ℕ) : ℚ :=
  fl.round (fl.round weight * fl.round count)

/-- `_score_candidate` -/
def scoreOfCounts (distinctGroups distinctActors : ℕ) : ℚ × ScoreBreakdown :=
  let raw := fl.round (fl.weigh weightGroups distinctGroups + fl.weigh weightActors distinctActors)
  (min 1 raw, ⟨distinctGroups, distinctActors, scoreFunctionVersion⟩)

variable {fl}

theorem FloatRounding.round_nonneg {q : ℚ} (h : 0 ≤ q) : 0 ≤ fl.round q :=
  fl.round_zero.symm.trans_le (fl.monotone h)

theorem FloatRounding.weigh_nonneg {weight : ℚ} (h : 0 ≤ weight) (count : ℕ) :
    0 ≤ fl.weigh weight count :=
  round_nonneg (mul_nonneg (round_nonneg h) (round_nonneg (Nat.cast_nonneg count)))

theorem FloatRounding.weigh_mono {weight : ℚ} (h : 0 ≤ weight) {m n : ℕ} (hmn : m ≤ n) :
    fl.weigh weight m ≤ fl.weigh weight n := by
  apply fl.monotone
  apply mul_le_mul_of_nonneg_left _ (round_nonneg h)
  exact fl.monotone (Nat.cast_le.mpr hmn)

theorem weightGroups_nonneg : 0 ≤ weightGroups := by norm_num [weightGroups]

theorem weightActors_nonneg : 0 ≤ weightActors := by norm_num [weightActors]

theorem score_mem_Icc (groups actors : ℕ) :
    (scoreOfCounts fl groups actors).1 ∈ Set.Icc (0 : ℚ) 1 := by
  refine ⟨le_min zero_le_one ?_, min_le_left _ _⟩
  exact FloatRounding.round_nonneg (add_nonneg
    (FloatRounding.weigh_nonneg weightGroups_nonneg groups)
    (FloatRounding.weigh_nonneg weightActors_nonneg actors))

/-- More groups and more actors do not lower the score. -/
theorem score_mono {groups groups' actors actors' : ℕ} (hgroups : groups ≤ groups')
    (hactors : actors ≤ actors') :
    (scoreOfCounts fl groups actors).1 ≤ (scoreOfCounts fl groups' actors').1 := by
  refine min_le_min_left 1 (fl.monotone ?_)
  exact add_le_add (FloatRounding.weigh_mono weightGroups_nonneg hgroups)
    (FloatRounding.weigh_mono weightActors_nonneg hactors)

theorem score_zero : (scoreOfCounts fl 0 0).1 = 0 := by
  simp [scoreOfCounts, FloatRounding.weigh, fl.round_zero]

end Score

/-! ## Candidates and mentions -/

/-- `MentionKind` -/
inductive MentionKind where
  | inviteLink
  | usernameMention
  | forwardOrigin
  | linkPreview
  | bioLink
  | other
  deriving DecidableEq, Repr

/-- A row of `group_candidate_mention`, but for its ids. -/
structure GroupCandidateMention where
  observedByCollectorId : Uuid
  observedInGroupId : Uuid
  seedRootId : Option Uuid
  depthFromRoot : ℕ
  mentionEvidenceRef : String
  mentionKind : MentionKind
  mentionedAtSource : Datetime
  mentionedAtIngest : Datetime
  mentioningActorId : Uuid
  mentioningActorRoleSignal : Option String
  deriving DecidableEq

/-- The arguments of `record_candidate_mention`, but for the candidate's key. -/
structure MentionArgs extends GroupCandidateMention where
  kindHint : Option GroupKind
  displayNameHint : Option String
  deriving DecidableEq

/-- The columns of a `GroupCandidate` that the two calls read or write. -/
structure ScoredCandidate where
  kindHint : Option GroupKind
  displayNameHint : Option String
  row : CandidateRow
  score : ℚ
  scoreBreakdown : Option ScoreBreakdown
  scoreFunctionVersion : ℕ
  firstObservedAtIngest : Datetime
  lastObservedAtIngest : Datetime
  deriving DecidableEq

/-- A candidate with its mentions, one for each evidence ref. -/
structure CandidateFile where
  candidate : ScoredCandidate
  mentions : Table GroupCandidateMention.mentionEvidenceRef

/-- What a column without time zone keeps of a timestamp. -/
def storedTime (d : Datetime) : Datetime := { d with utcoffset := none }

/-- The mention as it is stored. -/
def GroupCandidateMention.stored (m : GroupCandidateMention) : GroupCandidateMention :=
  { m with
    mentionedAtSource := storedTime m.mentionedAtSource
    mentionedAtIngest := storedTime m.mentionedAtIngest }

/-- The candidate that a first mention creates. -/
def newCandidate (args : MentionArgs) : ScoredCandidate where
  kindHint := args.kindHint
  displayNameHint := args.displayNameHint
  row := ⟨.discovered, none, none, none, none, none⟩
  score := 0
  scoreBreakdown := none
  scoreFunctionVersion := 1
  firstObservedAtIngest := storedTime args.mentionedAtIngest
  lastObservedAtIngest := storedTime args.mentionedAtIngest

namespace CandidateFile

/-- The candidate after the comparison of the times. -/
def bump (candidate : ScoredCandidate) (mentionedAtIngest : Datetime) : ScoredCandidate :=
  if (ensureUtc candidate.lastObservedAtIngest).instant < mentionedAtIngest.instant then
    { candidate with lastObservedAtIngest := storedTime mentionedAtIngest }
  else candidate

/-- The mentions after the insert, which an existing one prevents. -/
def addMention (mentions : Table GroupCandidateMention.mentionEvidenceRef)
    (m : GroupCandidateMention) : Option (Table GroupCandidateMention.mentionEvidenceRef) :=
  match mentions.get m.mentionEvidenceRef with
  | some _ => some mentions
  | none => mentions.insert m.stored

/-- `record_candidate_mention`; `none` when it raises. -/
def record (file : Option CandidateFile) (args : MentionArgs) : Option CandidateFile :=
  match file with
  | none =>
    (addMention Table.empty args.toGroupCandidateMention).map fun mentions =>
      ⟨newCandidate args, mentions⟩
  | some file =>
    -- a time without an offset does not compare with one that has one
    if args.mentionedAtIngest.utcoffset = none then none
    else
      (addMention file.mentions args.toGroupCandidateMention).map fun mentions =>
        ⟨bump file.candidate args.mentionedAtIngest, mentions⟩

/-- The arguments of the automatic transition. -/
def toQueued : CandidateTransition := ⟨.queued, none, none, none, none, none⟩

variable (fl : FloatRounding)

/-- The score of some mentions. -/
def scoreMentions (mentions : List GroupCandidateMention) : ℚ × ScoreBreakdown :=
  scoreOfCounts fl (mentions.map GroupCandidateMention.observedInGroupId).toFinset.card
    (mentions.map GroupCandidateMention.mentioningActorId).toFinset.card

/-- `score_candidate`, where the candidate's case, if any, has the threshold. -/
def rescore (threshold : Option ℚ) (file : CandidateFile) : CandidateFile :=
  let (score, breakdown) := scoreMentions fl file.mentions.rows
  let candidate :=
    { file.candidate with
      score := score
      scoreBreakdown := some breakdown
      scoreFunctionVersion := scoreFunctionVersion }
  let crossed := candidate.row.state = .discovered ∧ ∃ t ∈ threshold, t ≤ score
  let row := if crossed then applyTransition candidate.row toQueued candidate.row else candidate.row
  { file with candidate := { candidate with row := row } }

/-- A call for the key. -/
inductive Call where
  | record (args : MentionArgs)
  | score (threshold : Option ℚ)

/-- One call; one that raises is rolled back. -/
def step (file : Option CandidateFile) : Call → Option CandidateFile
  | .record args => (record file args).or file
  | .score threshold => file.map (rescore fl threshold)

/-- The candidate after some calls, if there is one. -/
def run (calls : List Call) : Option CandidateFile := calls.foldl (step fl) none

/-! ## What the calls leave -/

/-- The mention that a call records. -/
def Call.mention : Call → Option GroupCandidateMention
  | .record args => some args.toGroupCandidateMention
  | .score _ => none

/-- The mentions of some calls, with their repetitions. -/
def recorded (calls : List Call) : List GroupCandidateMention := calls.filterMap Call.mention

/-- The calls up to the last that scores. -/
def scoredPart (calls : List Call) : List Call := calls.rdropWhile fun call => call.mention.isSome

/-- A mention more, unless its evidence ref is there. -/
def keepFirst (rows : List GroupCandidateMention) (m : GroupCandidateMention) :
    List GroupCandidateMention :=
  if m.mentionEvidenceRef ∈ rows.map GroupCandidateMention.mentionEvidenceRef then rows
  else rows ++ [m.stored]

/-- The first mention of each evidence ref, as it is stored. -/
def firstMentions (ms : List GroupCandidateMention) : List GroupCandidateMention :=
  ms.foldl keepFirst []

/-- Every ingest time is in UTC, as the timestamps of the system are. -/
def InUtc (calls : List Call) : Prop :=
  ∀ m ∈ recorded calls, m.mentionedAtIngest.utcoffset = some utc

instance (calls : List Call) : Decidable (InUtc calls) := List.decidableBAll _ _

/-- What a candidate tells of the calls so far. -/
structure Reflects (calls : List Call) (file : CandidateFile) : Prop where
  mentions : file.mentions.rows = firstMentions (recorded calls)
  last : IsGreatest {t | ∃ m ∈ recorded calls, m.mentionedAtIngest.instant = t}
    file.candidate.lastObservedAtIngest.instant
  score : file.candidate.score =
    (scoreMentions fl (firstMentions (recorded (scoredPart calls)))).1

section Calls

variable {fl} {calls : List Call} {file : CandidateFile} {m : GroupCandidateMention}
  {ms : List GroupCandidateMention}

theorem instant_ensureUtc (d : Datetime) : (ensureUtc d).instant = d.instant := by
  have hwall : (ensureUtc d).wall = d.wall := rfl
  rw [d.instant_eq, (ensureUtc d).instant_eq, hwall, ensureUtc, Datetime.offsetMicros,
    Datetime.offsetMicros]
  cases d.utcoffset <;> rfl

/-- A time in UTC is stored as it is. -/
theorem instant_storedTime {d : Datetime} (h : d.utcoffset = some utc) :
    (storedTime d).instant = d.instant := by
  have hwall : (storedTime d).wall = d.wall := rfl
  rw [d.instant_eq, (storedTime d).instant_eq, hwall, Datetime.offsetMicros,
    Datetime.offsetMicros, h]
  rfl

theorem recorded_append (calls more : List Call) :
    recorded (calls ++ more) = recorded calls ++ recorded more :=
  List.filterMap_append

theorem run_append (calls more : List Call) :
    run fl (calls ++ more) = more.foldl (step fl) (run fl calls) :=
  List.foldl_append

theorem firstMentions_append_singleton (ms : List GroupCandidateMention)
    (m : GroupCandidateMention) : firstMentions (ms ++ [m]) = keepFirst (firstMentions ms) m := by
  rw [firstMentions, List.foldl_append]
  rfl

/-- A table without the evidence ref gets the mention, another stays as it is. -/
theorem addMention_eq (mentions : Table GroupCandidateMention.mentionEvidenceRef)
    (m : GroupCandidateMention) :
    ∃ mentions', addMention mentions m = some mentions' ∧
      mentions'.rows = keepFirst mentions.rows m := by
  rw [addMention, keepFirst]
  cases hget : mentions.get m.mentionEvidenceRef with
  | some row =>
    obtain ⟨hrow, hkey⟩ := Table.get_eq_some.mp hget
    refine ⟨mentions, rfl, ?_⟩
    rw [if_pos (List.mem_map.mpr ⟨row, hrow, hkey⟩)]
  | none =>
    obtain ⟨mentions', hinsert⟩ := Table.insert_isSome (r := m.stored) hget
    refine ⟨mentions', hinsert, ?_⟩
    rw [(Table.insert_eq_some hinsert).2, if_neg]
    intro hmem
    obtain ⟨row, hrow, hkey⟩ := List.mem_map.mp hmem
    exact Table.get_eq_none.mp hget row hrow hkey

/-- The row of an evidence ref is that of its first mention. -/
theorem find?_firstMentions (ms : List GroupCandidateMention) (ref : String) :
    (firstMentions ms).find? (fun row => row.mentionEvidenceRef = ref) =
      (ms.find? fun m => m.mentionEvidenceRef = ref).map GroupCandidateMention.stored := by
  induction ms using List.reverseRecOn with
  | nil => rfl
  | append_singleton ms m ih =>
    rw [firstMentions_append_singleton, keepFirst, List.find?_append]
    split_ifs with hin
    · rw [ih]
      by_cases href : m.mentionEvidenceRef = ref
      · -- the ref is there already, so there was a mention of it before
        have hfound : (ms.find? fun m => m.mentionEvidenceRef = ref).isSome := by
          rw [← Option.isSome_map (f := GroupCandidateMention.stored), ← ih, List.find?_isSome]
          obtain ⟨row, hrow, hkey⟩ := List.mem_map.mp hin
          exact ⟨row, hrow, by simpa using hkey.trans href⟩
        rw [Option.or_of_isSome hfound]
      · rw [List.find?_cons_of_neg (by simpa using href), List.find?_nil, Option.or_none]
    · have hstored : m.stored.mentionEvidenceRef = m.mentionEvidenceRef := rfl
      rw [List.find?_append, ih, Option.map_or, List.find?_singleton, List.find?_singleton, hstored]
      split_ifs <;> rfl

theorem rescore_mentions (threshold : Option ℚ) :
    (rescore fl threshold file).mentions = file.mentions := rfl

theorem rescore_last (threshold : Option ℚ) :
    (rescore fl threshold file).candidate.lastObservedAtIngest =
      file.candidate.lastObservedAtIngest := rfl

theorem rescore_score (threshold : Option ℚ) :
    (rescore fl threshold file).candidate.score = (scoreMentions fl file.mentions.rows).1 := rfl

theorem bump_score (candidate : ScoredCandidate) (t : Datetime) :
    (bump candidate t).score = candidate.score := by
  rw [bump]
  split_ifs <;> rfl

/-- The later of the time so far and the mention's. -/
theorem bump_last (candidate : ScoredCandidate) {t : Datetime} (h : t.utcoffset = some utc) :
    (bump candidate t).lastObservedAtIngest.instant =
      max candidate.lastObservedAtIngest.instant t.instant := by
  rw [bump, instant_ensureUtc]
  split_ifs with hlt
  · rw [instant_storedTime h, max_eq_right hlt.le]
  · exact (max_eq_left (not_lt.mp hlt)).symm

theorem Reflects.record (h : Reflects fl calls file) (args : MentionArgs)
    (hutc : args.mentionedAtIngest.utcoffset = some utc) :
    ∃ file', step fl (some file) (.record args) = some file' ∧
      Reflects fl (calls ++ [.record args]) file' := by
  obtain ⟨mentions, hadd, hrows⟩ := addMention_eq file.mentions args.toGroupCandidateMention
  have hrecorded : recorded (calls ++ [.record args]) =
      recorded calls ++ [args.toGroupCandidateMention] := recorded_append _ _
  refine ⟨⟨bump file.candidate args.mentionedAtIngest, mentions⟩, ?_, ?_, ?_, ?_⟩
  · rw [step, CandidateFile.record, if_neg (by simp [hutc]), hadd]
    rfl
  · rw [hrecorded, firstMentions_append_singleton, ← h.mentions, hrows]
  · rw [bump_last _ hutc, hrecorded]
    have hset : {t | ∃ m ∈ recorded calls ++ [args.toGroupCandidateMention],
        m.mentionedAtIngest.instant = t} =
        {t | ∃ m ∈ recorded calls, m.mentionedAtIngest.instant = t} ∪
          {args.mentionedAtIngest.instant} := by
      ext t
      simp only [List.mem_append, List.mem_singleton, Set.mem_ofPred_eq, Set.mem_union,
        Set.mem_singleton_iff, or_and_right, exists_or, exists_eq_left, eq_comm]
    rw [hset]
    exact h.last.union isGreatest_singleton
  · have hpart : scoredPart (calls ++ [.record args]) = scoredPart calls :=
      List.rdropWhile_concat_pos _ _ _ rfl
    rw [bump_score, hpart, h.score]

theorem Reflects.score_call (h : Reflects fl calls file) (threshold : Option ℚ) :
    Reflects fl (calls ++ [.score threshold]) (rescore fl threshold file) := by
  have hrecorded : recorded (calls ++ [.score threshold]) = recorded calls :=
    (recorded_append _ _).trans (List.append_nil _)
  have hpart : scoredPart (calls ++ [.score threshold]) = calls ++ [.score threshold] :=
    List.rdropWhile_concat_neg _ _ _ (by simp [Call.mention])
  refine ⟨?_, ?_, ?_⟩
  · rw [hrecorded, rescore_mentions, h.mentions]
  · rw [hrecorded, rescore_last]
    exact h.last
  · rw [hpart, hrecorded, rescore_score, h.mentions]

/-- The first mention creates the candidate. -/
theorem reflects_first (hnone : recorded calls = []) (args : MentionArgs)
    (hutc : args.mentionedAtIngest.utcoffset = some utc) :
    ∃ file, step fl none (.record args) = some file ∧
      Reflects fl (calls ++ [.record args]) file := by
  obtain ⟨mentions, hadd, hrows⟩ := addMention_eq Table.empty args.toGroupCandidateMention
  have hrecorded : recorded (calls ++ [.record args]) = [args.toGroupCandidateMention] := by
    rw [recorded_append, hnone]
    rfl
  refine ⟨⟨newCandidate args, mentions⟩, ?_, ?_, ?_, ?_⟩
  · rw [step, CandidateFile.record, hadd]
    rfl
  · rw [hrecorded]
    exact hrows
  · rw [hrecorded, newCandidate, instant_storedTime hutc]
    simp [isGreatest_singleton]
  · have hpart : recorded (scoredPart (calls ++ [.record args])) = [] := by
      rw [scoredPart, List.rdropWhile_concat_pos _ _ _ rfl, ← List.sublist_nil, ← hnone]
      exact (List.rdropWhile_prefix _ _).sublist.filterMap _
    rw [hpart]
    exact score_zero.symm

/-- **After any calls** with times in UTC the candidate tells of all of them; by induction on the
calls, from the last one back. -/
theorem run_reflects (hutc : InUtc calls) :
    (recorded calls = [] ∧ run fl calls = none) ∨
      ∃ file, run fl calls = some file ∧ Reflects fl calls file := by
  induction calls using List.reverseRecOn with
  | nil => exact Or.inl ⟨rfl, rfl⟩
  | append_singleton calls call ih =>
    have hbefore : InUtc calls := fun m hm =>
      hutc m (recorded_append calls [call] ▸ List.mem_append_left _ hm)
    rw [run_append, List.foldl_cons, List.foldl_nil]
    cases call with
    | record args =>
      have hargs : args.mentionedAtIngest.utcoffset = some utc :=
        hutc args.toGroupCandidateMention
          (recorded_append calls _ ▸ List.mem_append_right _ (List.mem_singleton_self _))
      rcases ih hbefore with ⟨hnone, hrun⟩ | ⟨file, hrun, hfile⟩
      · rw [hrun]
        exact Or.inr (reflects_first hnone args hargs)
      · rw [hrun]
        exact Or.inr (hfile.record args hargs)
    | score threshold =>
      rcases ih hbefore with ⟨hnone, hrun⟩ | ⟨file, hrun, hfile⟩
      · refine Or.inl ⟨?_, by rw [hrun]; rfl⟩
        rw [recorded_append, hnone]
        rfl
      · exact Or.inr ⟨_, by rw [hrun]; rfl, hfile.score_call threshold⟩

theorem scoreMentions_mem_Icc (rows : List GroupCandidateMention) :
    (scoreMentions fl rows).1 ∈ Set.Icc (0 : ℚ) 1 :=
  score_mem_Icc _ _

theorem scoreMentions_mono {rows rows' : List GroupCandidateMention} (h : rows ⊆ rows') :
    (scoreMentions fl rows).1 ≤ (scoreMentions fl rows').1 := by
  have hsub {α : Type} [DecidableEq α] (f : GroupCandidateMention → α) :
      (rows.map f).toFinset.card ≤ (rows'.map f).toFinset.card := by
    refine Finset.card_le_card fun x hx => ?_
    rw [List.mem_toFinset] at hx ⊢
    exact List.map_subset f h hx
  exact score_mono (hsub _) (hsub _)

theorem firstMentions_isPrefix (ms more : List GroupCandidateMention) :
    firstMentions ms <+: firstMentions (ms ++ more) := by
  induction more using List.reverseRecOn with
  | nil => rw [List.append_nil]
  | append_singleton more m ih =>
    rw [← List.append_assoc, firstMentions_append_singleton, keepFirst]
    split_ifs
    · exact ih
    · exact ih.trans (List.prefix_append _ _)

/-- What was scored is scored after further calls too. -/
theorem scoredPart_prefix (calls more : List Call) :
    scoredPart calls <+: scoredPart (calls ++ more) := by
  induction more using List.reverseRecOn with
  | nil => rw [List.append_nil]
  | append_singleton more call ih =>
    rw [← List.append_assoc]
    rw [scoredPart, scoredPart] at ih ⊢
    rw [List.rdropWhile_concat]
    split_ifs
    · exact ih
    · exact (List.rdropWhile_prefix _ _).trans
        ((List.prefix_append _ _).trans (List.prefix_append _ _))

theorem firstMentions_scoredPart_subset (calls more : List Call) :
    firstMentions (recorded (scoredPart calls)) ⊆
      firstMentions (recorded (scoredPart (calls ++ more))) := by
  obtain ⟨rest, hrest⟩ := scoredPart_prefix calls more
  rw [← hrest, recorded_append]
  exact (firstMentions_isPrefix _ _).subset

theorem exists_of_mem_firstMentions {row : GroupCandidateMention} (h : row ∈ firstMentions ms) :
    ∃ m ∈ ms, m.stored = row := by
  induction ms using List.reverseRecOn with
  | nil => exact absurd h List.not_mem_nil
  | append_singleton ms m ih =>
    rw [firstMentions_append_singleton, keepFirst] at h
    split_ifs at h
    · obtain ⟨m', hm', heq⟩ := ih h
      exact ⟨m', List.mem_append_left _ hm', heq⟩
    · rcases List.mem_append.mp h with hold | hnew
      · obtain ⟨m', hm', heq⟩ := ih hold
        exact ⟨m', List.mem_append_left _ hm', heq⟩
      · exact ⟨m, List.mem_append_right _ (List.mem_singleton_self m),
          (List.mem_singleton.mp hnew).symm⟩

/-- An evidence ref is that of one mention only. -/
def Coherent (ms : List GroupCandidateMention) : Prop :=
  ∀ m ∈ ms, ∀ m' ∈ ms, m.mentionEvidenceRef = m'.mentionEvidenceRef → m = m'

/-- Then every mention is stored. -/
theorem Coherent.mem_firstMentions (h : Coherent ms) {row : GroupCandidateMention} :
    row ∈ firstMentions ms ↔ ∃ m ∈ ms, m.stored = row := by
  refine ⟨exists_of_mem_firstMentions, ?_⟩
  rintro ⟨m, hm, rfl⟩
  have hfind := find?_firstMentions ms m.mentionEvidenceRef
  cases hfirst : ms.find? fun m' => m'.mentionEvidenceRef = m.mentionEvidenceRef with
  | none => exact absurd (List.find?_eq_none.mp hfirst m hm) (by simp)
  | some m' =>
    have hkey : m'.mentionEvidenceRef = m.mentionEvidenceRef := by
      simpa using List.find?_some hfirst
    obtain rfl := h m' (List.mem_of_find?_eq_some hfirst) m hm hkey
    rw [hfirst] at hfind
    exact List.mem_of_find?_eq_some hfind

/-- The same mentions, in whatever order and number, leave the same rows, the same latest time and,
once all are scored, the same score. -/
theorem Reflects.confluent {calls' : List Call} {file' : CandidateFile}
    (h : Reflects fl calls file) (h' : Reflects fl calls' file')
    (hsame : ∀ m, m ∈ recorded calls' ↔ m ∈ recorded calls)
    (hcoherent : Coherent (recorded calls)) :
    file'.mentions.rows.Perm file.mentions.rows ∧
      file'.candidate.lastObservedAtIngest.instant = file.candidate.lastObservedAtIngest.instant ∧
      (scoredPart calls = calls → scoredPart calls' = calls' →
        file'.candidate.score = file.candidate.score) := by
  have hcoherent' : Coherent (recorded calls') := fun m hm m' hm' =>
    hcoherent m ((hsame m).mp hm) m' ((hsame m').mp hm')
  have hrows : ∀ row, row ∈ file'.mentions.rows ↔ row ∈ file.mentions.rows := by
    intro row
    rw [h.mentions, h'.mentions, hcoherent.mem_firstMentions, hcoherent'.mem_firstMentions]
    simp only [hsame]
  refine ⟨?_, ?_, fun hscored hscored' => ?_⟩
  · exact (List.perm_ext_iff_of_nodup (file'.mentions.nodup.of_map _)
      (file.mentions.nodup.of_map _)).mpr hrows
  · have hlast := h'.last
    simp only [hsame] at hlast
    exact hlast.unique h.last
  · rw [h.score, h'.score, hscored, hscored', ← h.mentions, ← h'.mentions]
    exact le_antisymm (scoreMentions_mono fun row => (hrows row).mp)
      (scoreMentions_mono fun row => (hrows row).mpr)

end Calls

/-! ### What goes wrong -/

/-- Arithmetic without rounding. -/
def exactArithmetic : FloatRounding := ⟨id, monotone_id, rfl⟩

/-- A mention by one actor in one group. -/
def sampleArgs (ref : String) (group actor : Uuid) (ingest : Datetime) : MentionArgs where
  observedByCollectorId := 1
  observedInGroupId := group
  seedRootId := none
  depthFromRoot := 1
  mentionEvidenceRef := ref
  mentionKind := .usernameMention
  mentionedAtSource := ingest
  mentionedAtIngest := ingest
  mentioningActorId := actor
  mentioningActorRoleSignal := none
  kindHint := none
  displayNameHint := none

/-- Five in the morning two hours ahead of UTC, an hour and five minutes before `sampleAt`. -/
def sampleAhead : Datetime :=
  (Datetime.ofFields 2025 3 2 5 0 0 0 (UtcOffset.ofMicros false 7200000000)).get (by decide)

/-- A second mention in another group. -/
def sampleCalls : List Call :=
  [.record (sampleArgs "e" 1 1 sampleAt), .score none, .record (sampleArgs "f" 2 2 sampleAt)]

end CandidateFile

end Eyenet
