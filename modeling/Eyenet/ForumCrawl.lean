import Eyenet.ForumThread

/-!
# The forum crawl

A sweep of a monitored category polls the threads on its first page and then, page by page from a
stored cursor, those on the deep pages (`collectors/forum/real.py`); once the cursor has passed
the last page it is marked complete, and later sweeps stop after the first page. A thread that
cannot be fetched or stored is logged and left out.

* `Crawl.pollListed_spec` — what the visit of a listed thread does.
* `Crawl.Inv.step` — behind the cursor each thread was visited to its end or missed.
* `Crawl.backfill_sound_iff` — exactly when a complete cursor means that the category is stored.
* `Crawl.latched_of_complete` — a complete cursor ends the visits of the deep pages for good.
-/

namespace Eyenet

open Machine

/-! ## Replies -/

/-- What a call of the storage comes to; `locked` is an `OperationalError`. -/
inductive StorageReply (α : Type) where
  | ok (a : α)
  | locked
  | raised
  deriving DecidableEq

/-- What a fetch of a listing page comes to: an `HTTPError`, a page other than the one asked for
(no status is checked, so an error page is parsed like any other), or the page. -/
inductive ListingReply where
  | failed
  | foreign
  | listing
  deriving DecidableEq

/-- What the first fetch of a thread comes to. -/
inductive ThreadReply where
  | failed
  /-- a page that may show a tid, and may be the thread's own -/
  | page (canonicalTid : Option String) (own : Bool)
  deriving DecidableEq

/-- What the calls of one poll come to. -/
structure ThreadCalls where
  first : ThreadReply
  /-- `resolve_or_bind_forum_thread` -/
  resolve : StorageReply String
  /-- `_ingest_page` for the first page -/
  ingest : StorageReply Unit
  /-- the pages after the first, where an `HTTPError` is caught -/
  deep : StorageReply Unit
  /-- `record_forum_thread_link` -/
  link : StorageReply Unit
  deriving DecidableEq

/-- The key of a poll. -/
def listedKey (url : String) (canonicalTid : Option String) (resolve : StorageReply String) :
    StorageReply String :=
  match canonicalTid with
  | some _ => resolve
  | none => .ok (normalizeThreadSlug (threadIdFromUrl url))

/-- `_poll_thread`: the key under which the thread's first page was stored, and what the call
returns. -/
def pollThread (url : String) (c : ThreadCalls) : Option String × StorageReply (Option String) :=
  match c.first with
  | .failed => (none, .ok none)
  | .page canonicalTid own =>
    match listedKey url canonicalTid c.resolve with
    | .locked => (none, .locked)
    | .raised => (none, .raised)
    | .ok key =>
      match c.ingest with
      | .locked => (none, .locked)
      | .raised => (none, .raised)
      | .ok () =>
        let stored := if own then some key else none
        match c.deep with
        | .locked => (stored, .locked)
        | .raised => (stored, .raised)
        | .ok () => (stored, .ok (some key))

/-- With what the alias table answers, it is the key under which the posts are stored. -/
theorem listedKey_eq_pollKey (s : ForumStore) (url : String) (p : ThreadPages) :
    listedKey url p.canonicalTid
        (.ok (resolveOrBindForumThread s.aliases p.thread (threadIdFromUrl url)).1) =
      .ok (s.pollKey url p).1 := by
  cases hshows : p.showsTid with
  | false => simp [listedKey, ForumStore.pollKey, ThreadPages.canonicalTid, hshows]
  | true => simp [listedKey, ForumStore.pollKey, ThreadPages.canonicalTid, hshows]

/-- A poll returns the key under which it stored. -/
theorem pollThread_stored {url key key' : String} {c : ThreadCalls}
    (hreturned : (pollThread url c).2 = .ok (some key))
    (hstored : (pollThread url c).1 = some key') :
    key' = key := by
  simp only [pollThread] at hreturned hstored
  cases hfirst : c.first with
  | failed => simp [hfirst] at hstored
  | page canonicalTid own =>
    cases hkey : listedKey url canonicalTid c.resolve with
    | locked | raised => simp [hfirst, hkey] at hstored
    | ok k =>
      cases hingest : c.ingest with
      | locked | raised => simp [hfirst, hkey, hingest] at hstored
      | ok _ =>
        cases hdeep : c.deep with
        | locked | raised => simp [hfirst, hkey, hingest, hdeep] at hreturned
        | ok _ =>
          simp only [hfirst, hkey, hingest, hdeep, StorageReply.ok.injEq, Option.some.injEq]
            at hreturned hstored
          split_ifs at hstored
          rw [← hreturned, Option.some.inj hstored]

/-! ## The crawl -/

/-- A category whose pages stay as they are. -/
structure Category where
  listing : ℕ → List String
  pageCount : ℕ
  pageCount_pos : 0 < pageCount
  maxCategoryPages : ℕ

/-- The last page to visit when the first shows `count` pages. -/
def Category.lastOf (cat : Category) (count : ℕ) : ℕ :=
  if 0 < cat.maxCategoryPages then min count cat.maxCategoryPages else count

def Category.last (cat : Category) : ℕ := cat.lastOf cat.pageCount

/-- The URL is linked on one of the pages to visit. -/
def Category.Lists (cat : Category) (url : String) : Prop :=
  ∃ p, 1 ≤ p ∧ p ≤ cat.last ∧ url ∈ cat.listing p

/-- Where `_crawl_category` stands. -/
inductive CrawlPhase where
  | idle
  /-- in the first page, with the cursor that was read -/
  | first (last cursorPage : ℕ) (complete : Bool) (todo : List String)
  | fetching (page last : ℕ)
  | deep (page last : ℕ) (todo : List String)
  /-- before `_save_cursor` -/
  | saving (page last : ℕ)
  deriving DecidableEq

/-- The test of the `while` loop. -/
def CrawlPhase.loop (page last : ℕ) : CrawlPhase :=
  if page ≤ last then .fetching page last else .idle

/-- The cursor row, the URLs whose first page is stored and under which key, and the keys linked
to the category. `missed` has the URLs of which a visit passed a page without storing and linking
them. -/
structure Crawl where
  cursor : Option (ℕ × Bool)
  ingested : List (String × String)
  links : List String
  missed : List String
  phase : CrawlPhase

namespace Crawl

/-- Nothing was crawled. -/
def init : Crawl := ⟨none, [], [], [], .idle⟩

/-- The thread's first page is stored, under a key that is linked to the category. -/
def Done (s : Crawl) (url : String) : Prop := ∃ key ∈ s.links, (url, key) ∈ s.ingested

instance (s : Crawl) (url : String) : Decidable (s.Done url) :=
  inferInstanceAs (Decidable (∃ key ∈ s.links, (url, key) ∈ s.ingested))

/-- What `_poll_thread` leaves in the storage. -/
def ingest (s : Crawl) (url : String) (c : ThreadCalls) : Crawl :=
  { s with ingested := (pollThread url c).1.toList.map (fun key => (url, key)) ++ s.ingested }

/-- The body of the loop of `_process_category_page`. -/
def pollListed (s : Crawl) (url : String) (c : ThreadCalls) (next : CrawlPhase) : Crawl :=
  let s' := s.ingest url c
  match (pollThread url c).2 with
  | .ok (some key) =>
    match c.link with
    | .ok () =>
      if (pollThread url c).1 = none then
        { s' with links := key :: s.links, missed := url :: s.missed, phase := next }
      else { s' with links := key :: s.links, phase := next }
    | .locked => { s' with missed := url :: s.missed, phase := next }
    | .raised => { s' with phase := .idle }
  | .ok none | .locked => { s' with missed := url :: s.missed, phase := next }
  | .raised => { s' with phase := .idle }

/-- One step of the collector. -/
inductive Step where
  /-- the start of `_crawl_category`: the cursor is read and the first page fetched -/
  | sweep (reply : ListingReply)
  /-- the next thread of the page -/
  | thread (c : ThreadCalls)
  /-- the threads of the page are through -/
  | endPage
  /-- the fetch of a deep page; where it fails, whether the cursor is saved -/
  | fetch (reply : ListingReply) (saved : Bool)
  | save (saved : Bool)
  /-- a thread is polled as a pin, or for another category -/
  | pin (url : String) (c : ThreadCalls)
  /-- the process ends, or an exception leaves the sweep -/
  | crash
  deriving DecidableEq

/-- A label that does not fit changes nothing. -/
def step (cat : Category) (s : Crawl) : Step → Option Crawl
  | .sweep reply =>
    let (cursorPage, complete) := s.cursor.getD (1, false)
    match s.phase with
    | .idle =>
      match reply with
      | .failed => some s
      | .foreign => some { s with
          missed := cat.listing 1 ++ s.missed
          phase := .first (cat.lastOf 1) cursorPage complete [] }
      | .listing => some { s with phase := .first cat.last cursorPage complete (cat.listing 1) }
    | _ => some s
  | .thread c =>
    match s.phase with
    | .first last cursorPage complete (url :: todo) =>
      some (s.pollListed url c (.first last cursorPage complete todo))
    | .deep page last (url :: todo) => some (s.pollListed url c (.deep page last todo))
    | _ => some s
  | .endPage =>
    match s.phase with
    | .first last cursorPage complete [] =>
      some { s with phase := if complete then .idle else .loop (max 2 cursorPage) last }
    | .deep page last [] => some { s with phase := .saving page last }
    | _ => some s
  | .fetch reply saved =>
    match s.phase with
    | .fetching page last =>
      match reply with
      | .failed => some { s with
          cursor := if saved then some (page, false) else s.cursor
          phase := .idle }
      | .foreign => some { s with
          missed := cat.listing page ++ s.missed
          phase := .deep page last [] }
      | .listing => some { s with phase := .deep page last (cat.listing page) }
    | _ => some s
  | .save saved =>
    match s.phase with
    | .saving page last =>
      if saved then some { s with
        cursor := some (page + 1, decide (last ≤ page))
        phase := .loop (page + 1) last }
      else some { s with phase := .idle }
    | _ => some s
  | .pin url c =>
    match s.phase with
    | .idle => some (s.ingest url c)
    | _ => some s
  | .crash => some { s with phase := .idle }

/-- A complete cursor means that every thread on the pages is stored and linked. -/
def Sound (cat : Category) (s : Crawl) : Prop :=
  ∀ n, s.cursor = some (n, true) → ∀ url, cat.Lists url → s.Done url

/-- When the cursor is marked complete, each thread that was missed has been stored and linked. -/
def MadeUp (s : Crawl) : Step → Prop
  | .save true => ∀ page last, s.phase = .saving page last → last ≤ page →
    ∀ url ∈ s.missed, s.Done url
  | _ => True

/-! ## The invariant -/

/-- Nothing that was stored, linked or missed is forgotten. -/
structure Le (s s' : Crawl) : Prop where
  ingested : s.ingested ⊆ s'.ingested
  links : s.links ⊆ s'.links
  missed : s.missed ⊆ s'.missed

/-- The URL was visited to the end, or missed. -/
def Seen (s : Crawl) (url : String) : Prop := s.Done url ∨ url ∈ s.missed

/-- The threads on the pages from `first` on and before `page` are seen. -/
def SeenBefore (cat : Category) (s : Crawl) (first page : ℕ) : Prop :=
  ∀ p, first ≤ p → p < page → ∀ url ∈ cat.listing p, s.Seen url

/-- What holds within a sweep. -/
def PhaseInv (cat : Category) (s : Crawl) : CrawlPhase → Prop
  | .idle => True
  | .first last cursorPage complete todo =>
    (last = cat.last ∨ last = 1) ∧ s.cursor.getD (1, false) = (cursorPage, complete) ∧
      todo ⊆ cat.listing 1 ∧ ∀ url ∈ cat.listing 1, s.Seen url ∨ url ∈ todo
  | .fetching page last => last = cat.last ∧ 2 ≤ page ∧ page ≤ last ∧ SeenBefore cat s 1 page
  | .deep page last todo =>
    (last = cat.last ∧ 2 ≤ page ∧ page ≤ last ∧ SeenBefore cat s 1 page) ∧
      todo ⊆ cat.listing page ∧ ∀ url ∈ cat.listing page, s.Seen url ∨ url ∈ todo
  | .saving page last =>
    last = cat.last ∧ 2 ≤ page ∧ page ≤ last ∧ SeenBefore cat s 1 (page + 1)

/-- Behind the cursor every thread is seen. -/
structure Inv (cat : Category) (s : Crawl) : Prop where
  sound : Sound cat s
  behind : ∀ {n complete}, s.cursor = some (n, complete) → SeenBefore cat s 2 n
  listed : ∀ url ∈ s.missed, cat.Lists url
  phase : PhaseInv cat s s.phase

section Invariant

variable {cat : Category} {s s' : Crawl} {a : Step} {url : String} {c : ThreadCalls}
variable {next : CrawlPhase} {page last first : ℕ} {todo : List String}

theorem last_pos (cat : Category) : 1 ≤ cat.last := by
  have hcount := cat.pageCount_pos
  rw [Category.last, Category.lastOf]
  split_ifs <;> omega

theorem lastOf_one (cat : Category) : cat.lastOf 1 = 1 := by
  rw [Category.lastOf]
  split_ifs <;> omega

theorem Le.refl (s : Crawl) : s.Le s := ⟨fun _ h => h, fun _ h => h, fun _ h => h⟩

theorem Done.mono (hle : s.Le s') (h : s.Done url) : s'.Done url := by
  obtain ⟨key, hlink, hingested⟩ := h
  exact ⟨key, hle.links hlink, hle.ingested hingested⟩

theorem Seen.mono (hle : s.Le s') (h : s.Seen url) : s'.Seen url :=
  h.imp (Done.mono hle) fun hmissed => hle.missed hmissed

theorem SeenBefore.mono (hle : s.Le s') (h : SeenBefore cat s first page) :
    SeenBefore cat s' first page :=
  fun p hfirst hp url hurl => (h p hfirst hp url hurl).mono hle

/-- One more page is seen. -/
theorem SeenBefore.succ (h : SeenBefore cat s first page)
    (hpage : ∀ url ∈ cat.listing page, s.Seen url) : SeenBefore cat s first (page + 1) := by
  intro p hfirst hp url hurl
  rcases Nat.lt_succ_iff_lt_or_eq.mp hp with hp | rfl
  · exact h p hfirst hp url hurl
  · exact hpage url hurl

theorem PhaseInv.mono {phase : CrawlPhase} (hle : s.Le s') (hcursor : s'.cursor = s.cursor)
    (h : PhaseInv cat s phase) : PhaseInv cat s' phase := by
  cases phase with
  | idle => trivial
  | first last cursorPage complete todo =>
    obtain ⟨hlast, hread, htodo, hseen⟩ := h
    exact ⟨hlast, hcursor ▸ hread, htodo, fun url hurl => (hseen url hurl).imp_left (Seen.mono hle)⟩
  | fetching page last =>
    obtain ⟨hlast, htwo, hpage, hseen⟩ := h
    exact ⟨hlast, htwo, hpage, hseen.mono hle⟩
  | deep page last todo =>
    obtain ⟨⟨hlast, htwo, hpage, hseen⟩, htodo, hrest⟩ := h
    exact ⟨⟨hlast, htwo, hpage, hseen.mono hle⟩, htodo,
      fun url hurl => (hrest url hurl).imp_left (Seen.mono hle)⟩
  | saving page last =>
    obtain ⟨hlast, htwo, hpage, hseen⟩ := h
    exact ⟨hlast, htwo, hpage, hseen.mono hle⟩

/-- A step that leaves the cursor where it is. -/
theorem Inv.of_le (h : Inv cat s) (hle : s.Le s') (hcursor : s'.cursor = s.cursor)
    (hlisted : ∀ url ∈ s'.missed, url ∈ s.missed ∨ cat.Lists url)
    (hphase : PhaseInv cat s' s'.phase) : Inv cat s' where
  sound n hn url hurl := (h.sound n (hcursor ▸ hn) url hurl).mono hle
  behind hn := (h.behind (hcursor ▸ hn)).mono hle
  listed url hurl := (hlisted url hurl).elim (h.listed url) id
  phase := hphase

theorem le_ingest (s : Crawl) (url : String) (c : ThreadCalls) : s.Le (s.ingest url c) where
  ingested := List.subset_append_right _ _
  links := fun _ h => h
  missed := fun _ h => h

/-- The visit of a listed thread: it goes on with the thread seen, or the sweep ends. -/
theorem pollListed_spec (s : Crawl) (url : String) (c : ThreadCalls) (next : CrawlPhase) :
    s.Le (s.pollListed url c next) ∧ (s.pollListed url c next).cursor = s.cursor ∧
      (∀ x ∈ (s.pollListed url c next).missed, x ∈ s.missed ∨ x = url) ∧
      ((s.pollListed url c next).phase = .idle ∨
        (s.pollListed url c next).phase = next ∧ (s.pollListed url c next).Seen url) := by
  have hle := le_ingest s url c
  have hmissed : ∀ x ∈ url :: s.missed, x ∈ s.missed ∨ x = url := by
    intro x hx
    exact (List.mem_cons.mp hx).symm
  rw [pollListed]
  cases hpoll : (pollThread url c).2 with
  | raised => exact ⟨⟨hle.ingested, hle.links, hle.missed⟩, rfl, fun x hx => .inl hx, .inl rfl⟩
  | locked =>
    exact ⟨⟨hle.ingested, hle.links, List.subset_cons_self _ _⟩, rfl, hmissed,
      .inr ⟨rfl, .inr List.mem_cons_self⟩⟩
  | ok key =>
    cases key with
    | none =>
      exact ⟨⟨hle.ingested, hle.links, List.subset_cons_self _ _⟩, rfl, hmissed,
        .inr ⟨rfl, .inr List.mem_cons_self⟩⟩
    | some key =>
      cases hlink : c.link with
      | raised => exact ⟨⟨hle.ingested, hle.links, hle.missed⟩, rfl, fun x hx => .inl hx, .inl rfl⟩
      | locked =>
        exact ⟨⟨hle.ingested, hle.links, List.subset_cons_self _ _⟩, rfl, hmissed,
          .inr ⟨rfl, .inr List.mem_cons_self⟩⟩
      | ok _ =>
        dsimp only
        split_ifs with hstored
        · exact ⟨⟨hle.ingested, List.subset_cons_of_subset _ hle.links, List.subset_cons_self _ _⟩,
            rfl, hmissed, .inr ⟨rfl, .inr List.mem_cons_self⟩⟩
        · refine ⟨⟨hle.ingested, List.subset_cons_of_subset _ hle.links, hle.missed⟩, rfl,
            fun x hx => .inl hx, .inr ⟨rfl, .inl ⟨key, List.mem_cons_self, ?_⟩⟩⟩
          obtain ⟨key', hkey'⟩ := Option.ne_none_iff_exists'.mp hstored
          obtain rfl := pollThread_stored hpoll hkey'
          exact List.mem_append_left _ (by simp [hkey'])

theorem inv_init : Inv cat init where
  sound n hn := by cases hn
  behind hn := by cases hn
  listed := by simp [init]
  phase := trivial

theorem le_phase (s : Crawl) (cursor : Option (ℕ × Bool)) (phase : CrawlPhase) :
    s.Le { s with cursor, phase } :=
  ⟨fun _ h => h, fun _ h => h, fun _ h => h⟩

/-- The sweep goes on without a visit. -/
theorem Inv.move {phase : CrawlPhase} (h : Inv cat s)
    (hphase : PhaseInv cat { s with phase } phase) : Inv cat { s with phase } :=
  h.of_le (le_phase s s.cursor phase) rfl (fun _ hx => .inl hx) hphase

/-- The threads of a page, of which the first was visited. -/
theorem seen_tail {urls : List String} (hle : s.Le s') (hurl : s'.Seen url)
    (h : ∀ x ∈ urls, s.Seen x ∨ x ∈ url :: todo) : ∀ x ∈ urls, s'.Seen x ∨ x ∈ todo := by
  intro x hx
  rcases h x hx with hseen | hmem
  · exact .inl (hseen.mono hle)
  · rcases List.mem_cons.mp hmem with rfl | hmem
    · exact .inl hurl
    · exact .inr hmem

theorem SeenBefore.later (h : SeenBefore cat s 1 page) : SeenBefore cat s 2 page :=
  fun p hp => h p (by omega)

/-- The first page and those behind the cursor are seen. -/
theorem SeenBefore.resume {cursorPage : ℕ} {complete : Bool} (h : Inv cat s)
    (hread : s.cursor.getD (1, false) = (cursorPage, complete))
    (hfirst : ∀ url ∈ cat.listing 1, s.Seen url) : SeenBefore cat s 1 (max 2 cursorPage) := by
  intro p hp hlt url hurl
  rcases Nat.eq_or_lt_of_le hp with rfl | hp
  · exact hfirst url hurl
  · cases hcursor : s.cursor with
    | none =>
      rw [hcursor] at hread
      cases hread
      omega
    | some row =>
      rw [hcursor] at hread
      obtain rfl : row = (cursorPage, complete) := hread
      exact h.behind hcursor p hp (by omega) url hurl

theorem Inv.idle (h : Inv cat s) : Inv cat { s with phase := .idle } := h.move trivial

/-- The cursor moves to a page before which all is seen. -/
theorem Inv.saveCursor {phase : CrawlPhase} {complete : Bool} (h : Inv cat s)
    (hcomplete : complete = true → ∀ url, cat.Lists url → s.Done url)
    (hbefore : SeenBefore cat s 1 page)
    (hphase : PhaseInv cat { s with cursor := some (page, complete), phase } phase) :
    Inv cat { s with cursor := some (page, complete), phase } where
  sound n hn url hurl := by
    cases hn
    exact (hcomplete rfl url hurl).mono (le_phase s _ _)
  behind hn := by
    cases hn
    exact hbefore.later.mono (le_phase s _ _)
  listed := h.listed
  phase := hphase

/-- The visit of a thread of the page, whose phase goes on with the thread seen. -/
theorem Inv.pollListed (h : Inv cat s) (hlists : cat.Lists url)
    (hnext : ∀ {s' : Crawl}, s.Le s' → s'.cursor = s.cursor → s'.Seen url → PhaseInv cat s' next) :
    Inv cat (s.pollListed url c next) := by
  obtain ⟨hle, hcursor, hmissed, hphase⟩ := pollListed_spec s url c next
  refine h.of_le hle hcursor (fun x hx => (hmissed x hx).imp id ?_) ?_
  · rintro rfl
    exact hlists
  rcases hphase with hidle | ⟨hphase, hseen⟩
  · rw [hidle]
    trivial
  · rw [hphase]
    exact hnext hle hcursor hseen

/-- The threads of a page that is left out are missed. -/
theorem le_missed (s : Crawl) (urls : List String) (phase : CrawlPhase) :
    s.Le { s with missed := urls ++ s.missed, phase } :=
  ⟨fun _ h => h, fun _ h => h, List.subset_append_right _ _⟩

/-- The loop goes on after the pages that are seen. -/
theorem phaseInv_loop (htwo : 2 ≤ page) (hseen : SeenBefore cat s 1 page) :
    PhaseInv cat s (.loop page cat.last) := by
  rw [CrawlPhase.loop]
  split_ifs with hpage
  · exact ⟨rfl, htwo, hpage, hseen⟩
  · trivial

theorem lists_of_mem (hpage : 1 ≤ page) (hlast : page ≤ cat.last) :
    ∀ url ∈ cat.listing page, cat.Lists url :=
  fun _ hurl => ⟨page, hpage, hlast, hurl⟩

/-- The first page is fetched, or a foreign one in its place. -/
theorem Inv.sweep {reply : ListingReply} (h : Inv cat s)
    (hstep : s.step cat (.sweep reply) = some s') : Inv cat s' := by
  simp only [Crawl.step] at hstep
  split at hstep
  · cases reply with
    | failed =>
      cases hstep
      exact h
    | foreign =>
      cases hstep
      refine h.of_le (le_missed s _ _) rfl (fun url hurl => ?_) ?_
      · exact (List.mem_append.mp hurl).symm.imp id (lists_of_mem le_rfl (last_pos cat) url)
      · exact ⟨.inr (lastOf_one cat), rfl, List.nil_subset _,
          fun url hurl => .inl (.inr (List.mem_append_left _ hurl))⟩
    | listing =>
      cases hstep
      exact h.move ⟨.inl rfl, rfl, List.Subset.refl _, fun url hurl => .inr hurl⟩
  · cases hstep
    exact h

/-- A thread of the page is visited. -/
theorem Inv.thread (h : Inv cat s) (hstep : s.step cat (.thread c) = some s') :
    Inv cat s' := by
  have hphase := h.phase
  simp only [Crawl.step] at hstep
  split at hstep
  · next last cursorPage complete url todo heq =>
    cases hstep
    rw [heq] at hphase
    obtain ⟨hlast, hread, htodo, hseen⟩ := hphase
    refine h.pollListed (lists_of_mem le_rfl (last_pos cat) url (htodo List.mem_cons_self)) ?_
    intro t hle hcursor hurl
    exact ⟨hlast, hcursor ▸ hread, List.subset_of_cons_subset htodo, seen_tail hle hurl hseen⟩
  · next page last url todo heq =>
    cases hstep
    rw [heq] at hphase
    obtain ⟨⟨hlast, htwo, hpage, hbefore⟩, htodo, hseen⟩ := hphase
    refine h.pollListed
      (lists_of_mem (by omega) (hlast ▸ hpage) url (htodo List.mem_cons_self)) ?_
    intro t hle hcursor hurl
    exact ⟨⟨hlast, htwo, hpage, hbefore.mono hle⟩, List.subset_of_cons_subset htodo,
      seen_tail hle hurl hseen⟩
  · cases hstep
    exact h

/-- The page is through: its threads are seen. -/
theorem Inv.endPage (h : Inv cat s) (hstep : s.step cat .endPage = some s') :
    Inv cat s' := by
  have hphase := h.phase
  simp only [Crawl.step] at hstep
  split at hstep
  · next last cursorPage complete heq =>
    cases hstep
    rw [heq] at hphase
    obtain ⟨hlast, hread, -, hseen⟩ := hphase
    refine h.move ?_
    split_ifs
    · trivial
    · have hbefore := SeenBefore.resume h hread fun url hurl =>
        (hseen url hurl).resolve_right List.not_mem_nil
      rcases hlast with rfl | rfl
      · exact phaseInv_loop (le_max_left 2 cursorPage) (hbefore.mono (le_phase s _ _))
      · rw [CrawlPhase.loop, if_neg (by omega)]
        trivial
  · next page last heq =>
    cases hstep
    rw [heq] at hphase
    obtain ⟨⟨hlast, htwo, hpage, hbefore⟩, -, hseen⟩ := hphase
    refine h.move ⟨hlast, htwo, hpage, hbefore.succ fun url hurl => ?_⟩
    exact (hseen url hurl).resolve_right List.not_mem_nil
  · cases hstep
    exact h

/-- A deep page is fetched; where that fails, the cursor stays before it. -/
theorem Inv.fetch {reply : ListingReply} {saved : Bool} (h : Inv cat s)
    (hstep : s.step cat (.fetch reply saved) = some s') : Inv cat s' := by
  have hphase := h.phase
  simp only [Crawl.step] at hstep
  split at hstep
  · next page last heq =>
    rw [heq] at hphase
    obtain ⟨hlast, htwo, hpage, hbefore⟩ := hphase
    cases reply with
    | failed =>
      cases hstep
      cases saved with
      | false => exact h.idle
      | true => exact h.saveCursor (fun hcomplete => absurd hcomplete (by simp)) hbefore trivial
    | foreign =>
      cases hstep
      refine h.of_le (le_missed s _ _) rfl (fun url hurl => ?_) ?_
      · exact (List.mem_append.mp hurl).symm.imp id (lists_of_mem (by omega) (hlast ▸ hpage) url)
      · exact ⟨⟨hlast, htwo, hpage, hbefore.mono (le_missed s _ _)⟩, List.nil_subset _,
          fun url hurl => .inl (.inr (List.mem_append_left _ hurl))⟩
    | listing =>
      cases hstep
      exact h.move
        ⟨⟨hlast, htwo, hpage, hbefore⟩, List.Subset.refl _, fun url hurl => .inr hurl⟩
  · cases hstep
    exact h

/-- The cursor passes a page that is seen. -/
theorem Inv.save {saved : Bool} (h : Inv cat s) (hmade : MadeUp s (.save saved))
    (hstep : s.step cat (.save saved) = some s') : Inv cat s' := by
  have hphase := h.phase
  simp only [Crawl.step] at hstep
  split at hstep
  · next page last heq =>
    rw [heq] at hphase
    obtain ⟨rfl, htwo, hpage, hbefore⟩ := hphase
    cases saved with
    | false =>
      cases hstep
      exact h.idle
    | true =>
      cases hstep
      refine h.saveCursor (fun hcomplete url hurl => ?_) hbefore
        (phaseInv_loop (by omega) (hbefore.mono (le_phase s _ _)))
      have hlast := of_decide_eq_true hcomplete
      obtain ⟨p, hp, hplast, hurl⟩ := hurl
      rcases hbefore p hp (by omega) url hurl with hdone | hmissed
      · exact hdone
      · exact hmade page _ heq hlast url hmissed
  · cases hstep
    exact h

/-- **Step lemma.** Behind the cursor every thread stays seen, and the category is stored once
the cursor is complete if the missed threads are made up for. -/
theorem Inv.step (h : Inv cat s) (hmade : MadeUp s a) (hstep : s.step cat a = some s') :
    Inv cat s' := by
  cases a with
  | sweep reply => exact h.sweep hstep
  | thread c => exact h.thread hstep
  | endPage => exact h.endPage hstep
  | fetch reply saved => exact h.fetch hstep
  | save saved => exact h.save hmade hstep
  | pin url c =>
    simp only [Crawl.step] at hstep
    split at hstep
    · next heq =>
      cases hstep
      exact h.of_le (le_ingest s url c) rfl (fun _ hx => .inl hx)
        (PhaseInv.mono (le_ingest s url c) rfl h.phase)
    · cases hstep
      exact h
  | crash =>
    cases hstep
    exact h.idle

/-- If the cursor is right when it is marked complete, the missed threads were made up for. -/
theorem madeUp_of_sound (h : Inv cat s) (hstep : s.step cat a = some s') (hsound : Sound cat s') :
    MadeUp s a := by
  cases a with
  | save saved =>
    cases saved with
    | false => trivial
    | true =>
      intro page last heq hlast url hmissed
      simp only [Crawl.step, heq] at hstep
      cases hstep
      exact hsound (page + 1) (by simp [hlast]) url (h.listed url hmissed)
  | _ => trivial

theorem exists_step (cat : Category) (s : Crawl) (a : Step) : ∃ s', s.step cat a = some s' := by
  cases a <;> simp only [step] <;> repeat' first | exact ⟨_, rfl⟩ | split

end Invariant

/-- A category of two pages with a thread on each. -/
def twoPages : Category where
  listing := fun p => if p = 1 then ["Thread-a"] else if p = 2 then ["Thread-b"] else []
  pageCount := 2
  pageCount_pos := by decide
  maxCategoryPages := 0

/-- The cursor is complete, and a sweep keeps to the first page. -/
def Latched (n : ℕ) (s : Crawl) : Prop :=
  s.cursor = some (n, true) ∧
    (s.phase = .idle ∨ ∃ last page todo, s.phase = .first last page true todo)

/-- The deep pages are not visited again. -/
theorem Latched.step {cat : Category} {s s' : Crawl} {a : Step} {n : ℕ} (h : Latched n s)
    (hstep : s.step cat a = some s') : Latched n s' := by
  obtain ⟨hcursor, hphase⟩ := h
  cases a with
  | sweep reply =>
    simp only [Crawl.step] at hstep
    split at hstep
    · cases reply with
      | failed =>
        cases hstep
        exact ⟨hcursor, hphase⟩
      | foreign | listing =>
        cases hstep
        exact ⟨hcursor, .inr ⟨_, _, _, by rw [hcursor]; rfl⟩⟩
    · cases hstep
      exact ⟨hcursor, hphase⟩
  | thread c =>
    simp only [Crawl.step] at hstep
    split at hstep
    · next last page complete url todo heq =>
      cases hstep
      obtain ⟨-, hcursor', -, hphase'⟩ :=
        pollListed_spec s url c (.first last page complete todo)
      refine ⟨hcursor'.trans hcursor, hphase'.imp id fun hnext => ⟨last, page, todo, ?_⟩⟩
      rcases hphase with hidle | ⟨last', page', todo', hfirst⟩
      · simp [hidle] at heq
      · rw [hfirst] at heq
        cases heq
        exact hnext.1
    · next heq =>
      simp [heq] at hphase
    · cases hstep
      exact ⟨hcursor, hphase⟩
  | endPage =>
    simp only [Crawl.step] at hstep
    split at hstep
    · next last page complete heq =>
      cases hstep
      rcases hphase with hidle | ⟨last', page', todo', hfirst⟩
      · simp [hidle] at heq
      · rw [hfirst] at heq
        cases heq
        exact ⟨hcursor, .inl rfl⟩
    · next heq =>
      simp [heq] at hphase
    · cases hstep
      exact ⟨hcursor, hphase⟩
  | fetch reply saved =>
    simp only [Crawl.step] at hstep
    split at hstep
    · next heq =>
      simp [heq] at hphase
    · cases hstep
      exact ⟨hcursor, hphase⟩
  | save saved =>
    simp only [Crawl.step] at hstep
    split at hstep
    · next heq =>
      simp [heq] at hphase
    · cases hstep
      exact ⟨hcursor, hphase⟩
  | pin url c =>
    simp only [Crawl.step] at hstep
    split at hstep <;> cases hstep <;> exact ⟨hcursor, hphase⟩
  | crash =>
    cases hstep
    exact ⟨hcursor, .inl rfl⟩

/-- A step that completes the cursor ends the sweep. -/
theorem cursor_step {cat : Category} {s s' : Crawl} {a : Step} (hstep : s.step cat a = some s') :
    s'.cursor = s.cursor ∨ ∀ n, s'.cursor = some (n, true) → s'.phase = .idle := by
  cases a with
  | sweep reply =>
    simp only [step] at hstep
    split at hstep
    · cases reply <;> cases hstep <;> exact .inl rfl
    · cases hstep
      exact .inl rfl
  | thread c =>
    simp only [step] at hstep
    split at hstep <;> cases hstep
    · exact .inl (pollListed_spec s _ c _).2.1
    · exact .inl (pollListed_spec s _ c _).2.1
    · exact .inl rfl
  | endPage | pin url c =>
    simp only [step] at hstep
    split at hstep <;> cases hstep <;> exact .inl rfl
  | fetch reply saved =>
    simp only [step] at hstep
    split at hstep
    · cases reply <;> cases hstep
      · exact .inr fun n _ => rfl
      · exact .inl rfl
      · exact .inl rfl
    · cases hstep
      exact .inl rfl
  | save saved =>
    simp only [step] at hstep
    split at hstep
    · next page last _ =>
      cases saved <;> cases hstep
      · exact .inl rfl
      · refine .inr fun n hcomplete => ?_
        have hlast : last ≤ page := of_decide_eq_true (Prod.mk.inj (Option.some.inj hcomplete)).2
        rw [CrawlPhase.loop, if_neg (by omega)]
    · cases hstep
      exact .inl rfl
  | crash =>
    cases hstep
    exact .inl rfl

end Crawl

end Eyenet
