import Eyenet.Case
import Eyenet.JoinDispatch
import Eyenet.Membership

/-!
# Eligibility of collectors

Which collectors may join the group of a candidate (`services/discovery/eligibility.py`): not one
whose group is covered already, as far as the redundancy policy of the case says so, nor one that
reaches none of the roots from which the candidate was found, or only from too far away, nor any
when the source has no available scout.

* `evaluate_skip_iff` — when a group counts as covered.
* `DiscoveryTables.verdict_skip_iff` — the same over the tables.
* `DiscoveryTables.mem_eligibilityForCandidate` — the fleet's verdicts are those of its members.
-/

namespace Eyenet

/-! ## The gates -/

/-- `CollectorEligibilityResult` -/
inductive CollectorEligibilityResult where
  | ok
  | skipDualCover
  | noReachableRoot
  | overDepth
  | noScoutAvailable
  | deferredToRuntime
  deriving DecidableEq, Repr

/-- `CollectorEligibility` -/
structure CollectorEligibility where
  collectorId : Uuid
  result : CollectorEligibilityResult
  reason : String
  deriving DecidableEq

/-- `_DEFAULT_MAX_AUTO_JOIN_DEPTH` -/
def defaultMaxAutoJoinDepth : ℤ := 2

/-- `_DUAL_COVER_LIMIT` -/
def dualCoverLimit : ℕ := 2

/-- `_max_auto_join_depth` -/
def maxAutoJoinDepth (collector : FleetCollector) : ℤ :=
  (collector.configDepth.getD (some defaultMaxAutoJoinDepth)).getD defaultMaxAutoJoinDepth

/-- A mention, and the collector that observed it. -/
structure ObservedMention extends CandidateMention where
  observedByCollectorId : Uuid
  deriving DecidableEq

/-- The redundancy policy of the case, if there is one. -/
def redundancyPolicyOf : Option CaseRow → RedundancyPolicy
  | none => .preferSingle
  | some resolved => resolved.redundancyPolicy

/-- The second gate of `_evaluate`, on the depth. -/
def evaluateDepth (mentions : List ObservedMention) (collector : FleetCollector)
    (reachableRoots : List Uuid) : CollectorEligibilityResult × String :=
  let reachable := mentions.filter fun m => m.seedRootId.any (· ∈ reachableRoots)
  match (reachable.map (·.depthFromRoot)).min? with
  | none => (.noReachableRoot, "collector reaches none of the candidate's mention seed roots")
  | some minDepth =>
    if maxAutoJoinDepth collector ≤ minDepth then
      (.overDepth, "min reachable depth " ++ toString minDepth ++ " >= max_auto_join_depth " ++
        toString (maxAutoJoinDepth collector))
    else (.ok, "eligible")

/-- `_evaluate` -/
def evaluate (mentions : List ObservedMention) (collector : FleetCollector)
    (resolved : Option CaseRow) (activeMembershipCount : ℕ) (reachableRoots : List Uuid) :
    CollectorEligibilityResult × String :=
  let policy := redundancyPolicyOf resolved
  if 0 < activeMembershipCount ∧ policy = .preferSingle then
    (.skipDualCover, "group already covered and case redundancy_policy=prefer_single")
  else if 0 < activeMembershipCount ∧ policy = .preferDual ∧
      dualCoverLimit ≤ activeMembershipCount then
    (.skipDualCover, "group already has dual coverage (redundancy_policy=prefer_dual)")
  else evaluateDepth mentions collector reachableRoots

theorem evaluateDepth_ne_skip (mentions : List ObservedMention) (collector : FleetCollector)
    (reachableRoots : List Uuid) :
    (evaluateDepth mentions collector reachableRoots).1 ≠ .skipDualCover := by
  simp only [evaluateDepth]
  split
  · simp
  · split_ifs <;> simp

/-- A group counts as covered by one membership, or by two where the policy prefers two. -/
theorem evaluate_skip_iff {mentions : List ObservedMention} {collector : FleetCollector}
    {resolved : Option CaseRow} {n : ℕ} {reachableRoots : List Uuid} :
    (evaluate mentions collector resolved n reachableRoots).1 = .skipDualCover ↔
      0 < n ∧ redundancyPolicyOf resolved = .preferSingle ∨
        redundancyPolicyOf resolved = .preferDual ∧ dualCoverLimit ≤ n := by
  have hlimit (h : dualCoverLimit ≤ n) : 0 < n := lt_of_lt_of_le (by decide) h
  rw [evaluate]
  split_ifs with hsingle hdual
  · exact iff_of_true rfl (Or.inl hsingle)
  · exact iff_of_true rfl (Or.inr hdual.2)
  · refine iff_of_false (evaluateDepth_ne_skip mentions collector reachableRoots) ?_
    rintro (h | h)
    · exact hsingle h
    · exact hdual ⟨hlimit h.2, h⟩

/-! ## The tables -/

/-- The tables that discovery reads. -/
structure DiscoveryTables where
  identities : IdentityStore
  /-- in the order of their creation -/
  collectors : Table FleetCollector.id
  memberships : Memberships
  candidates : Table GroupCandidate.id
  mentions : List ObservedMention
  cases : List CaseRow

namespace DiscoveryTables

variable (s : DiscoveryTables)

/-- `resolve_case_for_candidate` -/
def resolveCaseForCandidate (candidateId : Uuid) : Option CaseRow :=
  let mentions := s.mentions.filter fun m => m.candidateId = candidateId
  let seedRoots := mentions.filterMap (·.seedRootId)
  (s.cases.insertionSort fun a b => a.createdAt ≤ b.createdAt).find? fun c =>
    c.seedRootGroupIds.any (· ∈ seedRoots)

/-- `reachable_roots_for_collector` -/
def reachableRootsForCollector (collectorId : Uuid) : List Uuid :=
  let observed := s.mentions.filter fun m => m.observedByCollectorId = collectorId
  let memberGroupIds :=
    (s.memberships.listActiveMemberships (some collectorId) none).map (·.groupId)
  observed.filterMap (·.seedRootId) ++
    memberGroupIds.filter fun g => s.cases.any fun c => g ∈ c.seedRootGroupIds

/-- `has_available_scout` -/
def hasAvailableScout (sourceId : Uuid) : Bool :=
  s.identities.identities.rows.any (IdentityStore.availableScout sourceId)

/-- The active memberships of the group to which the candidate led. -/
def coverage (candidate : GroupCandidate) : List GroupMembership :=
  match candidate.row.resultingGroupId with
  | none => []
  | some groupId => s.memberships.listActiveMemberships none (some groupId)

/-- The verdict on one collector. -/
def verdict (candidate : GroupCandidate) (collector : FleetCollector) : CollectorEligibility :=
  let mentions := s.mentions.filter fun m => m.candidateId = candidate.id
  let gates := evaluate mentions collector (s.resolveCaseForCandidate candidate.id)
    (s.coverage candidate).length (s.reachableRootsForCollector collector.id)
  if gates.1 = .ok ∧ s.hasAvailableScout candidate.sourceId = false then
    ⟨collector.id, .noScoutAvailable, "no available scout identity for the source"⟩
  else ⟨collector.id, gates.1, gates.2⟩

/-- `collector_eligibility`; `none` is its `ValueError`. -/
def collectorEligibility (candidateId collectorId : Uuid) : Option CollectorEligibility :=
  match s.candidates.get candidateId, s.collectors.get collectorId with
  | some candidate, some collector => some (s.verdict candidate collector)
  | _, _ => none

/-- `eligibility_for_candidate` -/
def eligibilityForCandidate (candidateId : Uuid) : Option (List CollectorEligibility) :=
  (s.candidates.get candidateId).map fun candidate => s.collectors.rows.map (s.verdict candidate)

variable {s}

theorem verdict_collectorId (candidate : GroupCandidate) (collector : FleetCollector) :
    (s.verdict candidate collector).collectorId = collector.id := by
  simp only [verdict]
  split_ifs <;> rfl

theorem verdict_skip_iff {candidate : GroupCandidate} {collector : FleetCollector} :
    (s.verdict candidate collector).result = .skipDualCover ↔
      0 < (s.coverage candidate).length ∧
          redundancyPolicyOf (s.resolveCaseForCandidate candidate.id) = .preferSingle ∨
        redundancyPolicyOf (s.resolveCaseForCandidate candidate.id) = .preferDual ∧
          dualCoverLimit ≤ (s.coverage candidate).length := by
  rw [← evaluate_skip_iff]
  simp only [verdict]
  split_ifs with hok
  · rw [hok.1]
    simp
  · exact Iff.rfl

theorem collectorEligibility_eq_some {candidateId collectorId : Uuid} {v : CollectorEligibility} :
    s.collectorEligibility candidateId collectorId = some v ↔ ∃ candidate collector,
      s.candidates.get candidateId = some candidate ∧
        s.collectors.get collectorId = some collector ∧ s.verdict candidate collector = v := by
  rw [collectorEligibility]
  cases s.candidates.get candidateId <;> cases s.collectors.get collectorId <;> simp

/-- The verdicts on the fleet are the verdicts on its collectors. -/
theorem mem_eligibilityForCandidate {candidateId : Uuid} {vs : List CollectorEligibility}
    (h : s.eligibilityForCandidate candidateId = some vs) {v : CollectorEligibility} :
    v ∈ vs ↔ s.collectorEligibility candidateId v.collectorId = some v := by
  obtain ⟨candidate, hcandidate, rfl⟩ := Option.map_eq_some_iff.mp h
  rw [List.mem_map, collectorEligibility_eq_some]
  refine ⟨?_, ?_⟩
  · rintro ⟨collector, hcollector, rfl⟩
    refine ⟨candidate, collector, hcandidate, ?_, rfl⟩
    rw [verdict_collectorId]
    exact Table.get_self hcollector
  · rintro ⟨candidate', collector, hcandidate', hcollector, hv⟩
    obtain rfl := Option.some.inj (hcandidate.symm.trans hcandidate')
    exact ⟨collector, (Table.get_eq_some.mp hcollector).1, hv⟩

end DiscoveryTables

end Eyenet
