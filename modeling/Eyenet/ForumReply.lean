import Eyenet.ForumThread

/-!
# Replies that operators queue

To see what a thread hides behind its reply gate, an operator queues a reply; the collector posts
it, fetches the thread again and records the outcome (`collectors/forum/real.py`,
`sqlmodel_repo/forum.py`). What is still pending is taken up by the next pass.

A pass is split at its calls, each of which can fail; only an `HTTPError` is caught. The process
can die at any point, and operators queue replies at any time.

* `Inv.step` — a reply that the board took is recorded, or being recorded.
* `posted_of_recorded` — as long as nothing fails between the two, no reply is posted twice, and
  what is marked done was posted.
-/

namespace Eyenet.ForumReply

open Machine

/-! ## The queue -/

/-- `ForumReplyRequestTable.state` -/
inductive RequestState where
  | pending
  | done
  | failed
  deriving DecidableEq

/-- `ForumReplyRequestTable`, of the forum's source. -/
structure ReplyRequest where
  id : ℕ
  groupId : ℕ
  message : String
  state : RequestState
  requestedBy : String
  requestedAt : ℤ
  completedAt : Option ℤ
  result : Option String
  deriving DecidableEq

abbrev RequestTable := Table ReplyRequest.id

/-- `create_forum_reply_request`; `none` when the id is taken. -/
def createForumReplyRequest (t : RequestTable) (id groupId : ℕ) (message requestedBy : String)
    (requestedAt : ℤ) : Option RequestTable :=
  t.insert ⟨id, groupId, message, .pending, requestedBy, requestedAt, none, none⟩

/-- `list_pending_forum_reply_requests`, oldest first. -/
def listPendingForumReplyRequests (t : RequestTable) : List ReplyRequest :=
  (t.rows.filter fun r => r.state = .pending).mergeSort fun a b => a.requestedAt ≤ b.requestedAt

/-- A request with its outcome. -/
def ReplyRequest.completed (row : ReplyRequest) (state : RequestState) (result : String)
    (completedAt : ℤ) : ReplyRequest :=
  { row with state, result := some result, completedAt := some completedAt }

/-- `complete_forum_reply_request` -/
def completeForumReplyRequest (t : RequestTable) (id : ℕ) (state : RequestState)
    (result : String) (completedAt : ℤ) : RequestTable :=
  match t.get id with
  | none => t
  | some row => t.put (row.completed state result completedAt)

theorem mem_complete {t : RequestTable} {r x : ReplyRequest} (hr : r ∈ t) (state : RequestState)
    (result : String) (completedAt : ℤ) :
    x ∈ completeForumReplyRequest t r.id state result completedAt ↔
      x = r.completed state result completedAt ∨ x ∈ t ∧ x ≠ r := by
  rw [completeForumReplyRequest, Table.get_self hr]
  exact Table.mem_put hr rfl

/-! ## The board -/

/-- `ReplyForm` -/
structure ReplyForm where
  myPostKey : String
  posthash : String
  subject : String
  tid : String
  deriving DecidableEq

/-- A reply that the board took. -/
structure BoardPost where
  request : ℕ
  tid : String
  subject : String
  message : String
  deriving DecidableEq

/-- What the collector reads off the answer to a post. -/
inductive Outcome where
  | flood
  | error
  | ok
  deriving DecidableEq

/-- The text has the part. -/
def hasPart (text part : String) : Bool := decide (part.toList <:+: text.toList)

/-- `_reply_outcome` -/
def replyOutcome (html : String) : Outcome :=
  -- the parts are ASCII, and no other letter's lower case has one of theirs
  let t := html.toLower
  if hasPart t "wait" ∧ hasPart t "second" ∧ (hasPart t "post" ∨ hasPart t "flood") then .flood
  else if hasPart t "class=\"error\"" ∨ hasPart t "did not enter a message" ∨
      hasPart t "not allowed to post" then .error
  else .ok

/-- An outcome as `_reply_outcome` spells it. -/
def Outcome.text : Outcome → String
  | flood => "flood"
  | error => "error"
  | ok => "ok"

example : replyOutcome "Wait 30 seconds between posts" = .flood ∧
    replyOutcome "Thank you for your post" = .ok := by
  decide +kernel

/-! ## Fetching the thread again -/

/-- What a call comes to: a value, an `HTTPError` with its `repr`, or another exception. -/
inductive Call (α : Type) where
  | ok (a : α)
  | httpError (exc : String)
  | raised
  deriving DecidableEq

/-- The updates of a page's posts, and whether each of them returned. -/
def overwritePosts (board tid : String) :
    ForumMessageTable → List (ParsedPost × Bool) → ForumMessageTable × Bool
  | t, [] => (t, true)
  | t, (_, false) :: _ => (t, false)
  | t, (post, true) :: posts =>
    overwritePosts board tid
      (updateMessageContent t (evidenceRef board tid post.pid) post.bodyText) posts

/-- `_refetch_thread_unlocked`, on the fetches of the thread's pages; whether it returned. An
exception of `parse_thread` counts as one of the fetch. -/
def refetchThreadUnlocked (board tid : String) (syslogReturns : Bool) :
    ForumMessageTable → List (Call (List (ParsedPost × Bool))) → ForumMessageTable × Bool
  | t, [] => (t, true)
  | t, .httpError _ :: _ => (t, syslogReturns)
  | t, .raised :: _ => (t, false)
  | t, .ok posts :: pages =>
    match overwritePosts board tid t posts with
    | (t, false) => (t, false)
    | (t, true) => refetchThreadUnlocked board tid syslogReturns t pages

/-! ## The collector -/

/-- A request in `_execute_reply`, the time at which that began, and the requests after it. -/
structure Execution where
  req : ReplyRequest
  now : ℤ
  todo : List ReplyRequest
  deriving DecidableEq

/-- Where `_process_reply_requests` stands. -/
inductive Phase where
  | idle
  | next (todo : List ReplyRequest)
  | form (e : Execution) (tid : String)
  | post (e : Execution) (tid : String) (form : ReplyForm)
  | refetch (e : Execution) (tid : String)
  | complete (e : Execution) (state : RequestState) (result : String)
  | notify (todo : List ReplyRequest)
  deriving DecidableEq

/-- The queue, the stored posts, the collector, and the replies that the board took. -/
structure ReplyRun where
  requests : RequestTable
  messages : ForumMessageTable
  phase : Phase
  board : List BoardPost

/-- A step; a reply of the storage is whether the call returned. -/
inductive Step where
  | enqueue (id groupId : ℕ) (message requestedBy : String) (requestedAt : ℤ)
  | list (returned : Bool)
  /-- `get_group`: the thread of the group, if it is there -/
  | group (now : ℤ) (reply : Call (Option String))
  /-- the reply page and the form on it -/
  | form (reply : Call (Option ReplyForm))
  /-- the reply is posted: whether the board took it, and what came back -/
  | post (took : Bool) (reply : Call String)
  | refetch (pages : List (Call (List (ParsedPost × Bool)))) (syslogReturns : Bool)
  | complete (returned : Bool)
  | notify (returned : Bool)
  | finish
  | die
  deriving DecidableEq

/-- The queue at the start of a run. -/
def init (messages : ForumMessageTable) : ReplyRun := ⟨.empty, messages, .idle, []⟩

/-- `form.subject or f"RE: {tid}"` -/
def subjectOf (form : ReplyForm) (tid : String) : String :=
  if form.subject = "" then "RE: " ++ tid else form.subject

/-- After `get_group`. -/
def afterGroup (e : Execution) : Call (Option String) → Phase
  | .ok none => .complete e .failed "group_gone"
  | .ok (some tid) => .form e tid
  | _ => .idle

/-- After the reply page. -/
def afterForm (e : Execution) (tid : String) : Call (Option ReplyForm) → Phase
  | .ok none => .complete e .failed "no_reply_form (session may lack post permission)"
  | .ok (some form) => .post e tid form
  | .httpError exc => .complete e .failed ("http_error:" ++ exc)
  | .raised => .idle

/-- After the post. -/
def afterPost (e : Execution) (tid : String) : Call String → Phase
  | .ok html =>
    match replyOutcome html with
    | .ok => .refetch e tid
    | outcome => .complete e .failed (outcome.text ++ " (re-queue to retry)")
  | .httpError exc => .complete e .failed ("http_error:" ++ exc)
  | .raised => .idle

/-- One step; `none` when it does not fit. -/
def step (board : String) (s : ReplyRun) : Step → Option ReplyRun
  | .enqueue id groupId message requestedBy requestedAt =>
    (createForumReplyRequest s.requests id groupId message requestedBy requestedAt).map
      fun requests => { s with requests }
  | .list returned =>
    match s.phase with
    | .idle =>
      some (if returned then { s with phase := .next (listPendingForumReplyRequests s.requests) }
        else s)
    | _ => none
  | .group now reply =>
    match s.phase with
    | .next (req :: todo) => some { s with phase := afterGroup ⟨req, now, todo⟩ reply }
    | _ => none
  | .form reply =>
    match s.phase with
    | .form e tid => some { s with phase := afterForm e tid reply }
    | _ => none
  | .post took reply =>
    match s.phase with
    | .post e tid form =>
      let sent : BoardPost := ⟨e.req.id, form.tid, subjectOf form tid, e.req.message⟩
      some { s with
        board := if took then s.board ++ [sent] else s.board
        phase := afterPost e tid reply }
    | _ => none
  | .refetch pages syslogReturns =>
    match s.phase with
    | .refetch e tid =>
      let (messages, returned) := refetchThreadUnlocked board tid syslogReturns s.messages pages
      some { s with
        messages
        phase := if returned then .complete e .done "posted; thread re-fetched" else .idle }
    | _ => none
  | .complete returned =>
    match s.phase with
    | .complete e state result =>
      some (if returned then
        { s with
          requests := completeForumReplyRequest s.requests e.req.id state result e.now
          phase := if state = .done then .notify e.todo else .next e.todo }
        else { s with phase := .idle })
    | _ => none
  | .notify returned =>
    match s.phase with
    | .notify todo => some { s with phase := if returned then .next todo else .idle }
    | _ => none
  | .finish =>
    match s.phase with
    | .next [] => some { s with phase := .idle }
    | _ => none
  | .die => some { s with phase := .idle }

/-! ## What a pass holds -/

/-- The request whose post was answered, or that was given up before. -/
def Phase.current : Phase → Option ReplyRequest
  | .refetch e _ => some e.req
  | .complete e _ _ => some e.req
  | _ => none

/-- The requests that the pass has yet to post. -/
def Phase.waiting : Phase → List ReplyRequest
  | .next todo => todo
  | .form e _ => e.req :: e.todo
  | .post e _ _ => e.req :: e.todo
  | .refetch e _ => e.todo
  | .complete e _ _ => e.todo
  | .notify todo => todo
  | .idle => []

/-- The requests of the pass. -/
def Phase.queue (p : Phase) : List ReplyRequest := p.current.toList ++ p.waiting

/-- The board took the request's message. -/
def OnBoard (board : List BoardPost) (r : ReplyRequest) : Prop :=
  ∃ p ∈ board, p.request = r.id ∧ p.message = r.message

/-- What is about to be recorded is so. -/
def Phase.Truthful (board : List BoardPost) : Phase → Prop
  | .refetch e _ => OnBoard board e.req
  | .complete e state _ => state ≠ .pending ∧ (state = .done → OnBoard board e.req)
  | _ => True

/-- No reply is on the board twice, and each there is recorded or about to be; what is done is
there; the pass has each of its requests once, all of them pending. -/
structure Inv (s : ReplyRun) : Prop where
  nodup : (s.board.map BoardPost.request).Nodup
  recorded : ∀ p ∈ s.board,
    (∃ r ∈ s.requests, r.id = p.request ∧ r.message = p.message ∧ r.state ≠ .pending) ∨
      ∃ r, s.phase.current = some r ∧ r.id = p.request ∧ r.message = p.message
  posted : ∀ r ∈ s.requests, r.state = .done → OnBoard s.board r
  distinct : (s.phase.queue.map ReplyRequest.id).Nodup
  queued : ∀ r ∈ s.phase.queue, r ∈ s.requests ∧ r.state = .pending
  truthful : s.phase.Truthful s.board

/-- The fetches and updates of a re-fetch end in a return: nothing but an `HTTPError` is raised
before the first of these, and the log entry for it is written. -/
def refetchReturns (syslogReturns : Bool) :
    List (Call (List (ParsedPost × Bool))) → Bool
  | [] => true
  | .httpError _ :: _ => syslogReturns
  | .raised :: _ => false
  | .ok posts :: pages => posts.all Prod.snd && refetchReturns syslogReturns pages

/-- The request at hand is on the board and not recorded yet. -/
def ReplyRun.unrecorded (s : ReplyRun) : Bool :=
  s.phase.current.any fun r => s.board.any fun p => p.request == r.id && p.message == r.message

/-- The board refuses a message with its page for floods or for errors. -/
def stockPage : Step → Bool
  | .post false (.ok html) => replyOutcome html != .ok
  | _ => true

/-- Once the board has taken a message nothing fails until that is recorded. -/
def recordKept (s : ReplyRun) : Step → Bool
  | .post took reply => !took || reply != .raised
  | .refetch pages syslogReturns => refetchReturns syslogReturns pages
  | .complete returned => !s.unrecorded || returned
  | .die => !s.unrecorded
  | _ => true

variable {board tid : String} {s s' : ReplyRun} {phase : Phase}

theorem inv_init (messages : ForumMessageTable) : Inv (init messages) where
  nodup := List.nodup_nil
  recorded _ hp := absurd hp List.not_mem_nil
  posted r hr := absurd hr (Table.not_mem_empty r)
  distinct := List.nodup_nil
  queued _ hr := absurd hr List.not_mem_nil
  truthful := trivial

theorem unrecorded_iff :
    s.unrecorded = true ↔ ∃ r, s.phase.current = some r ∧ OnBoard s.board r := by
  simp [ReplyRun.unrecorded, OnBoard, Option.any_eq_true_iff_get, Option.eq_some_iff_get_eq]

theorem overwritePosts_returns (board tid : String) (t : ForumMessageTable)
    (posts : List (ParsedPost × Bool)) :
    (overwritePosts board tid t posts).2 = posts.all Prod.snd := by
  induction posts generalizing t with
  | nil => rfl
  | cons post posts ih =>
    obtain ⟨post, returned⟩ := post
    cases returned
    · rfl
    · exact ih _

theorem refetch_returns (syslogReturns : Bool) (t : ForumMessageTable)
    (pages : List (Call (List (ParsedPost × Bool)))) :
    (refetchThreadUnlocked board tid syslogReturns t pages).2 =
      refetchReturns syslogReturns pages := by
  induction pages generalizing t with
  | nil => rfl
  | cons page pages ih =>
    cases page with
    | httpError exc => rfl
    | raised => rfl
    | ok posts =>
      have hposts := overwritePosts_returns board tid t posts
      rw [refetchThreadUnlocked, refetchReturns, ← hposts]
      rcases overwritePosts board tid t posts with ⟨t', _ | _⟩
      · rfl
      · exact ih t'

/-! ## Steps -/

/-- What a pass has yet to post is not on the board. -/
theorem Inv.not_onBoard (h : Inv s) {r : ReplyRequest} (hr : r ∈ s.phase.waiting)
    {p : BoardPost} (hp : p ∈ s.board) : p.request ≠ r.id := by
  intro hid
  have hqueue : r ∈ s.phase.queue := List.mem_append_right _ hr
  obtain ⟨hmem, hpending⟩ := h.queued r hqueue
  rcases h.recorded p hp with ⟨r', hr', hid', -, hstate⟩ | ⟨r', hcurrent, hid', -⟩
  · obtain rfl := Table.eq_of_key hr' hmem (hid'.trans hid)
    exact hstate hpending
  · have hdistinct := h.distinct
    rw [Phase.queue, hcurrent, List.map_append, List.nodup_append] at hdistinct
    exact hdistinct.2.2 r'.id (by simp) r.id (List.mem_map_of_mem hr) (hid'.trans hid)

/-- The pass goes on, with the requests it has or fewer. -/
theorem Inv.move (h : Inv s) (messages : ForumMessageTable)
    (hqueue : phase.queue.Sublist s.phase.queue)
    (hcurrent : ∀ r, s.phase.current = some r → OnBoard s.board r → phase.current = some r)
    (htruthful : phase.Truthful s.board) : Inv { s with messages, phase } where
  nodup := h.nodup
  recorded p hp := by
    rcases h.recorded p hp with hrow | ⟨r, hr, hid, hmessage⟩
    · exact .inl hrow
    · exact .inr ⟨r, hcurrent r hr ⟨p, hp, hid.symm, hmessage.symm⟩, hid, hmessage⟩
  posted := h.posted
  distinct := h.distinct.sublist (hqueue.map _)
  queued r hr := h.queued r (hqueue.subset hr)
  truthful := htruthful

theorem Inv.enqueue (h : Inv s) {id groupId : ℕ} {message requestedBy : String}
    {requestedAt : ℤ} {requests : RequestTable}
    (hcreate : createForumReplyRequest s.requests id groupId message requestedBy requestedAt =
      some requests) : Inv { s with requests } where
  nodup := h.nodup
  recorded p hp := by
    rcases h.recorded p hp with ⟨r, hr, hrow⟩ | hcurrent
    · exact .inl ⟨r, (Table.mem_insert hcreate).mpr (.inl hr), hrow⟩
    · exact .inr hcurrent
  posted r hr hdone := by
    rcases (Table.mem_insert hcreate).mp hr with hr | rfl
    · exact h.posted r hr hdone
    · cases hdone
  distinct := h.distinct
  queued r hr := ⟨(Table.mem_insert hcreate).mpr (.inl (h.queued r hr).1), (h.queued r hr).2⟩
  truthful := h.truthful

theorem Inv.list (h : Inv s) (hidle : s.phase = .idle) :
    Inv { s with phase := .next (listPendingForumReplyRequests s.requests) } where
  nodup := h.nodup
  recorded p hp := by
    rcases h.recorded p hp with hrow | ⟨r, hr, -⟩
    · exact .inl hrow
    · rw [hidle] at hr
      cases hr
  posted := h.posted
  distinct := by
    have hperm := List.mergeSort_perm (s.requests.rows.filter fun r => r.state = .pending)
      fun a b : ReplyRequest => a.requestedAt ≤ b.requestedAt
    exact (hperm.map _).nodup_iff.mpr (s.requests.nodup.sublist (List.filter_sublist.map _))
  queued r hr := by
    have hmem : r ∈ s.requests.rows.filter fun r => r.state = .pending := List.mem_mergeSort.mp hr
    rw [List.mem_filter, decide_eq_true_eq] at hmem
    exact hmem
  truthful := trivial

/-- The board takes a message; the call returned. -/
theorem Inv.take (h : Inv s) {e : Execution} {sent : BoardPost}
    (hqueue : s.phase.waiting = e.req :: e.todo) (hnone : s.phase.current = none)
    (hid : sent.request = e.req.id) (hmessage : sent.message = e.req.message)
    (hcurrent : phase.current = some e.req) (hwaiting : phase.waiting = e.todo)
    (htruthful : phase.Truthful (s.board ++ [sent])) :
    Inv { s with board := s.board ++ [sent], phase } where
  nodup := by
    rw [List.map_append, List.nodup_append]
    refine ⟨h.nodup, List.nodup_singleton _, ?_⟩
    intro id hmem id' hid'
    obtain ⟨p, hp, rfl⟩ := List.mem_map.mp hmem
    rw [List.map_singleton, List.mem_singleton] at hid'
    rw [hid', hid]
    exact h.not_onBoard (by rw [hqueue]; exact List.mem_cons_self) hp
  recorded p hp := by
    rcases List.mem_append.mp hp with hp | hp
    · rcases h.recorded p hp with hrow | ⟨r, hr, -⟩
      · exact .inl hrow
      · rw [hnone] at hr
        cases hr
    · obtain rfl := List.mem_singleton.mp hp
      exact .inr ⟨e.req, hcurrent, hid.symm, hmessage.symm⟩
  posted r hr hdone := by
    obtain ⟨p, hp, hrequest⟩ := h.posted r hr hdone
    exact ⟨p, List.mem_append_left _ hp, hrequest⟩
  distinct := by
    have hdistinct := h.distinct
    rw [Phase.queue, hnone, hqueue] at hdistinct
    rw [Phase.queue, hcurrent, hwaiting]
    exact hdistinct
  queued r hr := by
    refine h.queued r ?_
    rw [Phase.queue, hcurrent, hwaiting] at hr
    rw [Phase.queue, hnone, hqueue]
    exact hr
  truthful := htruthful

/-- The outcome of a request is recorded. -/
theorem Inv.complete (h : Inv s) {e : Execution} {state : RequestState} {result : String}
    (hphase : s.phase = .complete e state result) (hcurrent : phase.current = none)
    (hwaiting : phase.waiting = e.todo) (htruthful : phase.Truthful s.board) :
    Inv { s with
      requests := completeForumReplyRequest s.requests e.req.id state result e.now
      phase } := by
  have hqueue : s.phase.queue = e.req :: e.todo := by rw [hphase]; rfl
  obtain ⟨hreq, hpending⟩ := h.queued e.req (by rw [hqueue]; exact List.mem_cons_self)
  have htruth := h.truthful
  rw [hphase] at htruth
  obtain ⟨hstate, hdone⟩ := htruth
  have hmem {x : ReplyRequest} := mem_complete (x := x) hreq state result e.now
  have hdistinct := h.distinct
  rw [hqueue, List.map_cons, List.nodup_cons] at hdistinct
  refine ⟨h.nodup, ?_, ?_, ?_, ?_, htruthful⟩
  · intro p hp
    left
    rcases h.recorded p hp with ⟨r, hr, hid, hmessage, hnot⟩ | ⟨r, hr, hid, hmessage⟩
    · refine ⟨r, hmem.mpr (.inr ⟨hr, ?_⟩), hid, hmessage, hnot⟩
      rintro rfl
      exact hnot hpending
    · rw [hphase] at hr
      cases hr
      exact ⟨_, hmem.mpr (.inl rfl), hid, hmessage, hstate⟩
  · intro r hr hrdone
    rcases hmem.mp hr with rfl | ⟨hr, -⟩
    · exact hdone hrdone
    · exact h.posted r hr hrdone
  · rw [Phase.queue, hcurrent, hwaiting]
    exact hdistinct.2
  · intro r hr
    have hrest : r ∈ e.todo := by
      rw [Phase.queue, hcurrent, hwaiting] at hr
      exact hr
    obtain ⟨hin, hrpending⟩ := h.queued r (by rw [hqueue]; exact List.mem_cons_of_mem _ hrest)
    refine ⟨hmem.mpr (.inr ⟨hin, ?_⟩), hrpending⟩
    rintro rfl
    exact hdistinct.1 (List.mem_map_of_mem hrest)

theorem queue_afterGroup (e : Execution) (reply : Call (Option String)) :
    (afterGroup e reply).queue.Sublist (e.req :: e.todo) := by
  rcases reply with (_ | tid) | exc | _
  · exact List.Sublist.refl _
  · exact List.Sublist.refl _
  · exact List.nil_sublist _
  · exact List.nil_sublist _

theorem queue_afterForm (e : Execution) (reply : Call (Option ReplyForm)) :
    (afterForm e tid reply).queue.Sublist (e.req :: e.todo) := by
  rcases reply with (_ | form) | exc | _
  · exact List.Sublist.refl _
  · exact List.Sublist.refl _
  · exact List.Sublist.refl _
  · exact List.nil_sublist _

theorem truthful_failed {posts : List BoardPost} {e : Execution} {result : String} :
    (Phase.complete e .failed result).Truthful posts :=
  ⟨by decide, fun hdone => absurd hdone (by decide)⟩

theorem truthful_afterGroup {posts : List BoardPost} (e : Execution)
    (reply : Call (Option String)) : (afterGroup e reply).Truthful posts := by
  rcases reply with (_ | tid) | exc | _
  · exact truthful_failed
  all_goals trivial

theorem truthful_afterForm {posts : List BoardPost} (e : Execution)
    (reply : Call (Option ReplyForm)) : (afterForm e tid reply).Truthful posts := by
  rcases reply with (_ | form) | exc | _
  · exact truthful_failed
  · trivial
  · exact truthful_failed
  · trivial

theorem queue_afterPost (e : Execution) (reply : Call String) :
    (afterPost e tid reply).queue.Sublist (e.req :: e.todo) := by
  rcases reply with html | exc | _
  · rw [afterPost]
    cases replyOutcome html <;> exact List.Sublist.refl _
  · exact List.Sublist.refl _
  · exact List.nil_sublist _

theorem afterPost_current (e : Execution) (tid : String) {reply : Call String}
    (h : reply ≠ .raised) :
    (afterPost e tid reply).current = some e.req ∧ (afterPost e tid reply).waiting = e.todo := by
  cases reply with
  | ok html =>
    rw [afterPost]
    cases replyOutcome html <;> exact ⟨rfl, rfl⟩
  | httpError exc => exact ⟨rfl, rfl⟩
  | raised => exact absurd rfl h

/-- A page that reads as ok is answered to a message that was taken. -/
theorem afterPost_truthful {posts : List BoardPost} {e : Execution} {reply : Call String}
    (h : ∀ html, reply = .ok html → replyOutcome html = .ok → OnBoard posts e.req) :
    (afterPost e tid reply).Truthful posts := by
  cases reply with
  | ok html =>
    rw [afterPost]
    cases houtcome : replyOutcome html with
    | ok => exact h html rfl houtcome
    | flood | error => exact truthful_failed
  | httpError exc => exact truthful_failed
  | raised => trivial

/-- The answer to a post. -/
theorem Inv.post (h : Inv s) {e : Execution} {form : ReplyForm} {took : Bool}
    {reply : Call String} (hphase : s.phase = .post e tid form)
    (hstock : stockPage (.post took reply)) (hrecorded : recordKept s (.post took reply)) :
    Inv { s with
      board := if took then s.board ++ [⟨e.req.id, form.tid, subjectOf form tid, e.req.message⟩]
        else s.board
      phase := afterPost e tid reply } := by
  have hnone : s.phase.current = none := by rw [hphase]; rfl
  have hwaiting : s.phase.waiting = e.req :: e.todo := by rw [hphase]; rfl
  cases took with
  | true =>
    have hreply : reply ≠ .raised := by simpa [recordKept] using hrecorded
    obtain ⟨hcurrent, hrest⟩ := afterPost_current e tid hreply
    refine h.take hwaiting hnone rfl rfl hcurrent hrest ?_
    refine afterPost_truthful fun html _ _ => ?_
    exact ⟨_, List.mem_append_right _ (List.mem_singleton_self _), rfl, rfl⟩
  | false =>
    refine h.move s.messages ?_ ?_ ?_
    · rw [Phase.queue.eq_def s.phase, hnone, hwaiting]
      exact queue_afterPost e reply
    · intro r hr
      rw [hnone] at hr
      cases hr
    · refine afterPost_truthful fun html hreply hok => ?_
      simp [hreply, stockPage, hok] at hstock

/-- A failure that is not caught ends the pass, before the board has taken a message. -/
theorem Inv.stop (h : Inv s) (messages : ForumMessageTable)
    (hnone : s.unrecorded = false) : Inv { s with messages, phase := .idle } := by
  refine h.move messages (List.nil_sublist _) (fun r hr hboard => ?_) trivial
  rw [unrecorded_iff.mpr ⟨r, hr, hboard⟩] at hnone
  cases hnone

/-- Before a post the pass can go on, give a request up, or end. -/
theorem Inv.go (h : Inv s) (hnone : s.phase.current = none)
    (hqueue : phase.queue.Sublist s.phase.waiting) (htruthful : phase.Truthful s.board) :
    Inv { s with phase } := by
  refine h.move s.messages ?_ ?_ htruthful
  · rw [Phase.queue.eq_def s.phase, hnone]
    exact hqueue
  · intro r hr
    rw [hnone] at hr
    cases hr

/-- **One step.** -/
theorem Inv.step {a : Step} (h : Inv s) (hC : stockPage a ∧ recordKept s a)
    (hstep : step board s a = some s') : Inv s' := by
  obtain ⟨hstock, hrecorded⟩ := hC
  cases a with
  | enqueue id groupId message requestedBy requestedAt =>
    obtain ⟨requests, hcreate, rfl⟩ := Option.map_eq_some_iff.mp hstep
    exact h.enqueue hcreate
  | list returned =>
    simp only [ForumReply.step] at hstep
    cases hphase : s.phase <;> rw [hphase] at hstep <;> cases hstep
    cases returned
    · exact h
    · exact h.list hphase
  | group now reply =>
    simp only [ForumReply.step] at hstep
    rcases hphase : s.phase with _ | (_ | ⟨req, todo⟩) | _ | _ | _ | _ | _ <;>
      rw [hphase] at hstep <;> cases hstep
    refine h.go (by rw [hphase]; rfl) ?_ (truthful_afterGroup _ reply)
    rw [hphase]
    exact queue_afterGroup _ reply
  | form reply =>
    simp only [ForumReply.step] at hstep
    cases hphase : s.phase <;> rw [hphase] at hstep <;> cases hstep
    refine h.go (by rw [hphase]; rfl) ?_ (truthful_afterForm _ reply)
    rw [hphase]
    exact queue_afterForm _ reply
  | post took reply =>
    simp only [ForumReply.step] at hstep
    cases hphase : s.phase <;> rw [hphase] at hstep <;> cases hstep
    exact h.post hphase hstock hrecorded
  | refetch pages syslogReturns =>
    simp only [ForumReply.step] at hstep
    cases hphase : s.phase <;> rw [hphase] at hstep <;> cases hstep
    next e tid =>
    have hreturns : refetchReturns syslogReturns pages = true := hrecorded
    rw [refetch_returns, hreturns, if_pos rfl]
    have htruth := h.truthful
    rw [hphase] at htruth
    refine h.move _ ?_ ?_ ⟨by decide, fun _ => htruth⟩
    · rw [hphase]
      exact List.Sublist.refl _
    · intro r hr _
      rw [hphase] at hr
      exact hr
  | complete returned =>
    simp only [ForumReply.step] at hstep
    cases hphase : s.phase <;> rw [hphase] at hstep <;> cases hstep
    next e state result =>
    cases returned with
    | false =>
      exact h.stop s.messages (by simpa [recordKept] using hrecorded)
    | true =>
      refine h.complete hphase ?_ ?_ ?_ <;> split_ifs <;> first | rfl | trivial
  | notify returned =>
    simp only [ForumReply.step] at hstep
    cases hphase : s.phase <;> rw [hphase] at hstep <;> cases hstep
    refine h.go (by rw [hphase]; rfl) ?_ (by cases returned <;> trivial)
    rw [hphase]
    cases returned
    · exact List.nil_sublist _
    · exact List.Sublist.refl _
  | finish =>
    simp only [ForumReply.step] at hstep
    rcases hphase : s.phase with _ | (_ | ⟨req, todo⟩) | _ | _ | _ | _ | _ <;>
      rw [hphase] at hstep <;> cases hstep
    exact h.go (by rw [hphase]; rfl) (List.nil_sublist _) trivial
  | die =>
    cases hstep
    exact h.stop s.messages (by simpa [recordKept] using hrecorded)

/-- A pass over one request: the reply page, the post, the thread again, the outcome. -/
def onePass (pages : List (Call (List (ParsedPost × Bool)))) : List Step :=
  [.list true, .group 0 (.ok (some "42")), .form (.ok (some ⟨"key", "hash", "", "42"⟩)),
    .post true (.ok "<html><body>Thank you for your post</body></html>"), .refetch pages true]

end Eyenet.ForumReply
