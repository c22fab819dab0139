import Eyenet.BreadthFirst
import Eyenet.CandidateJoin
import Eyenet.ForumThread

/-!
# The forums of a board

`enumerate_visible_groups` (`collectors/forum/real.py`) lists the forums on the index of a board and
descends into their subforums, up to the configured depth. A page that cannot be fetched is logged
and has no subforums.

* `ForumBoard.enumerateLoop_eq` — the walk is a breadth-first search to a depth.
* `ForumBoard.enumerate_visible_groups` — it ends, and lists the forums within the depth, each once.
-/

namespace Eyenet

/-- `VisibleGroup` -/
structure VisibleGroup where
  platformGroupid : String
  kind : GroupKind
  title : Option String
  isMember : Bool
  memberCount : Option ℤ
  deriving DecidableEq

/-- What the pages of a board list: `parse_forum_links` of the index, and `parse_subforum_links` of
the page of a forum, unless the fetch of that page fails. -/
structure ForumBoard where
  forumLinks : List String
  subforumLinks : String → Option (List String)

namespace ForumBoard

/-- The slug of a link. -/
def slugOf (url : String) : String := String.ofList (lastSegment url)

/-- The group that a forum is listed as. -/
def visibleForum (slug : String) : VisibleGroup where
  platformGroupid := slug
  kind := .forumCategory
  title := some ((slug.replace "Forum-" "").replace "-" " ")
  isMember := true
  memberCount := none

/-- The loop over the frontier. -/
def enumerateLoop (board : ForumBoard) (discoveryDepth : ℤ) :
    ℕ → List (String × ℕ) → List String → List VisibleGroup → Option (List VisibleGroup)
  | _, [], _, out => some out
  | 0, _ :: _, _, _ => none
  | fuel + 1, (slug, depth) :: frontier, seen, out =>
    if slug ∈ seen then board.enumerateLoop discoveryDepth fuel frontier seen out
    else if discoveryDepth ≤ depth then
      board.enumerateLoop discoveryDepth fuel frontier (seen ++ [slug]) (out ++ [visibleForum slug])
    else
      match board.subforumLinks slug with
      | none =>
        board.enumerateLoop discoveryDepth fuel frontier (seen ++ [slug])
          (out ++ [visibleForum slug])
      | some urls =>
        let children := (urls.map slugOf).filter (· ∉ seen ++ [slug])
        board.enumerateLoop discoveryDepth fuel (frontier ++ children.map fun c => (c, depth + 1))
          (seen ++ [slug]) (out ++ [visibleForum slug])

/-- `enumerate_visible_groups` -/
def enumerateVisibleGroups (board : ForumBoard) (discoveryDepth : ℤ) (fuel : ℕ) :
    Option (List VisibleGroup) :=
  board.enumerateLoop discoveryDepth fuel ((board.forumLinks.map slugOf).map fun s => (s, 0)) [] []

/-! ## The link graph -/

variable (board : ForumBoard)

/-- The forums on the index. -/
def forums : List String := board.forumLinks.map slugOf

/-- The forums that the page of a forum links to. -/
def subforums (slug : String) : List String := ((board.subforumLinks slug).getD []).map slugOf

/-- How many links a forum is away from the index's forums. -/
noncomputable def linkDistance (slug : String) : ℕ∞ :=
  BreadthFirst.distance board.forums board.subforums slug

/-- The walk is a breadth-first search, from any state of it. -/
theorem enumerateLoop_eq (discoveryDepth : ℤ) (fuel : ℕ) (frontier visited : List (String × ℕ)) :
    board.enumerateLoop discoveryDepth fuel frontier (visited.map Prod.fst)
        (visited.map fun p => visibleForum p.1) =
      (BreadthFirst.loop board.subforums discoveryDepth.toNat fuel frontier visited).map
        fun found => found.map fun p => visibleForum p.1 := by
  induction fuel generalizing frontier visited with
  | zero => cases frontier <;> rfl
  | succ fuel ih =>
    cases frontier with
    | nil => rfl
    | cons entry frontier =>
      obtain ⟨slug, depth⟩ := entry
      have hlimit : discoveryDepth ≤ depth ↔ discoveryDepth.toNat ≤ depth := by omega
      have hvisit (frontier : List (String × ℕ)) :
          board.enumerateLoop discoveryDepth fuel frontier (visited.map Prod.fst ++ [slug])
            (visited.map (fun p => visibleForum p.1) ++ [visibleForum slug]) =
          (BreadthFirst.loop board.subforums discoveryDepth.toNat fuel frontier
            (visited ++ [(slug, depth)])).map fun found => found.map fun p => visibleForum p.1 := by
        have happend := ih frontier (visited ++ [(slug, depth)])
        rw [List.map_append, List.map_append] at happend
        exact happend
      rw [enumerateLoop, BreadthFirst.loop]
      split_ifs with hseen hdepth hdepth' hdepth'
      · exact ih frontier visited
      · exact hvisit frontier
      · exact absurd (hlimit.mp hdepth) hdepth'
      · exact absurd (hlimit.mpr hdepth') hdepth
      · cases hlinks : board.subforumLinks slug with
        | none =>
          have hnone : board.subforums slug = [] := by rw [subforums, hlinks]; rfl
          dsimp only
          rw [hnone, List.filter_nil, List.map_nil, List.append_nil]
          exact hvisit frontier
        | some urls =>
          have hsome : board.subforums slug = urls.map slugOf := by rw [subforums, hlinks]; rfl
          rw [hsome, List.map_append]
          exact hvisit _

/-- **The forums of a board**: the walk ends, and lists each forum once, those whose distance from
the index is within the depth. -/
theorem enumerate_visible_groups (discoveryDepth : ℕ) : ∃ fuel groups,
    (∀ fuel' ≥ fuel, board.enumerateVisibleGroups discoveryDepth fuel' = some groups) ∧
    (groups.map VisibleGroup.platformGroupid).Nodup ∧
    ∀ slug, slug ∈ groups.map VisibleGroup.platformGroupid ↔
      board.linkDistance slug ≤ discoveryDepth := by
  obtain ⟨fuel, found, hsearch, hnodup, hfound⟩ :=
    BreadthFirst.search_spec board.forums board.subforums discoveryDepth
  have hids : (found.map fun p => visibleForum p.1).map VisibleGroup.platformGroupid =
      found.map Prod.fst := by
    rw [List.map_map]
    rfl
  refine ⟨fuel, found.map fun p => visibleForum p.1, fun fuel' hle => ?_, ?_, fun slug => ?_⟩
  · rw [enumerateVisibleGroups]
    refine (board.enumerateLoop_eq discoveryDepth fuel' _ []).trans ?_
    rw [Int.toNat_natCast]
    exact congrArg _ (hsearch fuel' hle)
  · rw [hids]
    exact hnodup
  · rw [hids]
    exact BreadthFirst.mem_visited_iff hfound

end ForumBoard

end Eyenet
