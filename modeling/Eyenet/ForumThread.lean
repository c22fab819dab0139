import Eyenet.Machine
import Eyenet.Table
import Mathlib.Data.List.Infix
import Mathlib.Data.Nat.Digits.Defs

/-!
# Forum threads

The forum collector stores the posts of a thread under a group key
(`collectors/forum/real.py`). A poll takes the key from the page's tid, which an alias table maps
to the URL under which the tid was first seen (`sqlmodel_repo/forum.py`), or from the slug when
the page shows no tid; a backfill and a re-fetch take it from the group the operator chose.

* `evidenceRef_inj` — a key and a pid can be read off an evidence ref.
* `ForumStore.Recorded` — what the storage holds, in terms of the visits so far.
* `ForumStore.sound_iff_distinct` — exactly when posts have one place and threads do not mix.
-/

namespace Eyenet

open Machine

/-! ## Names of threads -/

/-- `urllib.parse.uses_params` -/
def usesParams : List String :=
  ["", "ftp", "hdl", "prospero", "http", "imap", "https", "shttp", "rtsp", "rtsps", "rtspu", "sip",
    "sips", "mms", "sftp", "tel"]

/-- The scheme of a URL and what follows it. -/
def splitScheme (url : List Char) : String × List Char :=
  let head := url.takeWhile (· ≠ ':')
  if ':' ∈ url ∧ head.head?.any Char.isAlpha ∧
      head.all fun c => c.isAlphanum || c ∈ ['+', '-', '.'] then
    (String.ofList (head.map Char.toLower), url.drop (head.length + 1))
  else ("", url)

/-- `_splitparams(path)[0]` -/
def dropParams (path : List Char) : List Char :=
  let tail := (path.reverse.takeWhile (· ≠ '/')).reverse
  path.take (path.length - tail.length) ++ tail.takeWhile (· ≠ ';')

/-- `urlparse(url).path` -/
def urlPath (url : String) : List Char :=
  let cs := (url.toList.dropWhile fun c => c.toNat ≤ 32).filter fun c => c ∉ ['\t', '\r', '\n']
  let (scheme, rest) := splitScheme cs
  let afterNetloc :=
    if "//".toList <+: rest then (rest.drop 2).dropWhile fun c => c ∉ ['/', '?', '#'] else rest
  let path := (afterNetloc.takeWhile (· ≠ '#')).takeWhile (· ≠ '?')
  if scheme ∈ usesParams then dropParams path else path

/-- `_last_segment` -/
def lastSegment (url : String) : List Char :=
  (((urlPath url).reverse.dropWhile (· = '/')).takeWhile (· ≠ '/')).reverse

/-- What follows the last `--`. -/
def afterDashes : List Char → Option (List Char)
  | '-' :: '-' :: cs =>
    match afterDashes ('-' :: cs) with
    | some tail => some tail
    | none => some cs
  | _ :: cs => afterDashes cs
  | [] => none

/-- `_thread_id_from_url` -/
def threadIdFromUrl (url : String) : String :=
  let slug := lastSegment url
  match afterDashes slug with
  -- a URL carries the digits outside ASCII percent-encoded
  | some tail =>
    if tail ≠ [] ∧ tail.all Char.isDigit then String.ofList tail else String.ofList slug
  | none => String.ofList slug

/-- `_SECTION_SLUG_PREFIXES` -/
def sectionSlugPrefixes : List String := ["DATABASE-", "STEALER-LOGS-", "STEALER-"]

/-- `_normalize_thread_slug` -/
def normalizeThreadSlug (key : String) : String :=
  if "Thread-".toList <+: key.toList then
    let rest := key.toList.drop 7
    match sectionSlugPrefixes.find? fun p => p.toList <+: rest with
    | some p => "Thread-" ++ String.ofList (rest.drop p.length)
    | none => key
  else key

example : threadIdFromUrl "https://forum.test/Thread-x--520159?action=lastpost" = "520159" ∧
    normalizeThreadSlug "Thread-STEALER-LOGS-foo" = "Thread-foo" := by
  decide +kernel

/-- The `evidence_ref` of a post. -/
def evidenceRef (board key : String) (pid : ℕ) : String :=
  "forum:" ++ board ++ ":" ++ key ++ ":" ++ toString pid

/-- The digits before the first colon and what follows it. -/
theorem reverse_toDigits_inj {pid pid' : ℕ} {cs cs' : List Char}
    (h : (Nat.toDigits 10 pid).reverse ++ ':' :: cs =
      (Nat.toDigits 10 pid').reverse ++ ':' :: cs') : pid = pid' ∧ cs = cs' := by
  have hdigits : ∀ n : ℕ, ∀ c ∈ (Nat.toDigits 10 n).reverse, (c ≠ ':' : Bool) := by
    intro n c hc
    have hdigit := Nat.isDigit_of_mem_toDigits (by decide) (le_refl 10) (List.mem_reverse.mp hc)
    rw [decide_eq_true_eq]
    rintro rfl
    exact absurd hdigit (by decide)
  have htake := congrArg (List.takeWhile fun c => (c ≠ ':' : Bool)) h
  have hdrop := congrArg (List.dropWhile fun c => (c ≠ ':' : Bool)) h
  rw [List.takeWhile_append_of_pos (hdigits pid), List.takeWhile_append_of_pos (hdigits pid')]
    at htake
  rw [List.dropWhile_append_of_pos (hdigits pid), List.dropWhile_append_of_pos (hdigits pid')]
    at hdrop
  have hpid : Nat.toDigits 10 pid = Nat.toDigits 10 pid' := by simpa using htake
  refine ⟨?_, ?_⟩
  · rw [← Nat.ofDigitChars_toDigits (b := 10) (by decide) (le_refl 10) (n := pid), hpid,
      Nat.ofDigitChars_toDigits (by decide) (le_refl 10)]
  · simpa using hdrop

/-- A key and a pid can be read off an evidence ref. -/
theorem evidenceRef_inj {board key key' : String} {pid pid' : ℕ}
    (h : evidenceRef board key pid = evidenceRef board key' pid') : key = key' ∧ pid = pid' := by
  have hchars := congrArg (fun s => s.toList.reverse) h
  obtain ⟨rfl, hrest⟩ := reverse_toDigits_inj (by simpa [evidenceRef] using hchars)
  exact ⟨String.ext (by simpa using hrest), rfl⟩

/-! ## Storage -/

/-- `ForumThreadAliasTable`, of the forum's source. -/
structure ForumThreadAlias where
  canonicalTid : String
  platformGroupid : String
  deriving DecidableEq

abbrev AliasTable := Table ForumThreadAlias.canonicalTid

/-- `resolve_or_bind_forum_thread` -/
def resolveOrBindForumThread (t : AliasTable) (canonicalTid fallbackPlatformGroupid : String) :
    String × AliasTable :=
  match t.get canonicalTid with
  | some row => (row.platformGroupid, t)
  | none => (fallbackPlatformGroupid, t.save ⟨canonicalTid, fallbackPlatformGroupid⟩)

/-- A thread group. -/
structure ThreadGroup where
  platformGroupid : String
  currentTitle : Option String
  deriving DecidableEq

abbrev ThreadGroupTable := Table ThreadGroup.platformGroupid

/-- `upsert_group` -/
def upsertThreadGroup (t : ThreadGroupTable) (platformGroupid : String) (title : Option String) :
    ThreadGroupTable :=
  match t.get platformGroupid with
  | none => t.save ⟨platformGroupid, title⟩
  | some row => t.put { row with
      currentTitle := if title = none ∨ title = some "" then row.currentTitle else title }

/-- A post as parsed from a page. -/
structure ParsedPost where
  pid : ℕ
  bodyText : String
  deriving DecidableEq

/-- A message row; `thread` is the tid of the thread that the post is from, shown or not. -/
structure ForumMessage where
  evidenceRef : String
  platformGroupid : String
  platformMsgid : ℕ
  body : String
  thread : String
  deriving DecidableEq

abbrev ForumMessageTable := Table ForumMessage.evidenceRef

/-- `put_message`: a row whose `evidence_ref` is taken is not written. -/
def putForumMessage (t : ForumMessageTable) (row : ForumMessage) : ForumMessageTable :=
  (t.insert row).getD t

/-- `update_message_content` -/
def updateMessageContent (t : ForumMessageTable) (ref body : String) : ForumMessageTable :=
  match t.get ref with
  | none => t
  | some row => t.put { row with body }

/-- The rows of one forum. `entered` has a pair for each `upsert_group` of a post: the group's
key and the post's thread. -/
structure ForumStore where
  aliases : AliasTable
  groups : ThreadGroupTable
  messages : ForumMessageTable
  entered : List (String × String)

/-- A thread's page and those after it: whose they are, whether the first shows the tid. -/
structure ThreadPages where
  thread : String
  showsTid : Bool
  title : Option String
  pages : List (List ParsedPost)
  deriving DecidableEq

/-- `parse_canonical_tid` -/
def ThreadPages.canonicalTid (p : ThreadPages) : Option String :=
  if p.showsTid then some p.thread else none

/-- The posts that `n` storage writes get to, two for each post, and whether the second was
made. -/
def written : ℕ → List ParsedPost → List (ParsedPost × Bool)
  | 0, _ | _, [] => []
  | 1, post :: _ => [(post, false)]
  | n + 2, post :: posts => (post, true) :: written n posts

namespace ForumStore

/-- Nothing is stored. -/
def init : ForumStore := ⟨.empty, .empty, .empty, []⟩

/-- `_ingest_post`; where `put` is false it breaks off before `put_message`. -/
def ingestPost (board key thread : String) (title : Option String) (s : ForumStore)
    (post : ParsedPost × Bool) : ForumStore where
  aliases := s.aliases
  groups := upsertThreadGroup s.groups key title
  messages :=
    if post.2 then putForumMessage s.messages
      ⟨evidenceRef board key post.1.pid, key, post.1.pid, post.1.bodyText, thread⟩
    else s.messages
  entered := s.entered ++ [(key, thread)]

/-- `_ingest_page` over the pages that were fetched, for `n` writes. -/
def ingestPages (board key : String) (p : ThreadPages) (pages : List (List ParsedPost)) (n : ℕ)
    (s : ForumStore) : ForumStore :=
  (written n pages.flatten).foldl (ingestPost board key p.thread p.title) s

/-- `_poll_thread`'s key, and the aliases after it. -/
def pollKey (s : ForumStore) (url : String) (p : ThreadPages) : String × AliasTable :=
  match p.canonicalTid with
  | some tid => resolveOrBindForumThread s.aliases tid (threadIdFromUrl url)
  | none => (normalizeThreadSlug (threadIdFromUrl url), s.aliases)

/-- One visit of a thread. -/
inductive Step where
  /-- `_poll_thread` of a URL; it makes `n` writes after its key is found -/
  | poll (url : String) (p : ThreadPages) (n : ℕ)
  /-- `_backfill_thread` for the group with this key -/
  | backfill (key : String) (p : ThreadPages) (n : ℕ)
  /-- `_refetch_thread_unlocked` for the group with this key -/
  | refetch (key : String) (p : ThreadPages) (n : ℕ)
  deriving DecidableEq

/-- The pages that a poll fetches. -/
def cappedPages (maxThreadPages : ℕ) (p : ThreadPages) : List (List ParsedPost) :=
  if 0 < maxThreadPages then p.pages.take maxThreadPages else p.pages

/-- A step of the collector; `none` for a request that names no group. -/
def step (board : String) (maxThreadPages : ℕ) (s : ForumStore) : Step → Option ForumStore
  | .poll url p n =>
    let (key, aliases) := s.pollKey url p
    some (ingestPages board key p (cappedPages maxThreadPages p) n { s with aliases })
  | .backfill key p n =>
    match s.groups.get key with
    | none => none
    | some _ => some (ingestPages board key p p.pages n s)
  | .refetch key p n =>
    match s.groups.get key with
    | none => none
    | some _ => some { s with
        messages := (p.pages.flatten.take n).foldl
          (fun t post => updateMessageContent t (evidenceRef board key post.pid) post.bodyText)
          s.messages }

/-- A post of a thread has one place, and a group has the posts of one thread. -/
structure Sound (s : ForumStore) : Prop where
  onePlace : ∀ m ∈ s.messages, ∀ m' ∈ s.messages, m.thread = m'.thread →
    m.platformMsgid = m'.platformMsgid →
    m.evidenceRef = m'.evidenceRef ∧ m.platformGroupid = m'.platformGroupid
  oneThread : ∀ e ∈ s.entered, ∀ e' ∈ s.entered, e.1 = e'.1 → e.2 = e'.2

instance (s : ForumStore) : Decidable s.Sound :=
  decidable_of_iff ((∀ m ∈ s.messages, ∀ m' ∈ s.messages, m.thread = m'.thread →
      m.platformMsgid = m'.platformMsgid →
      m.evidenceRef = m'.evidenceRef ∧ m.platformGroupid = m'.platformGroupid) ∧
    ∀ e ∈ s.entered, ∀ e' ∈ s.entered, e.1 = e'.1 → e.2 = e'.2)
    ⟨fun h => ⟨h.1, h.2⟩, fun h => ⟨h.onePlace, h.oneThread⟩⟩

/-! ## Visits -/

/-- What a visit takes its key from. -/
inductive Naming where
  /-- the page shows the tid -/
  | shown (tid urlKey : String)
  | hidden (urlKey : String)
  /-- the operator's choice -/
  | chosen (key : String)
  deriving DecidableEq

/-- The URL under which the tid was first seen. -/
def firstUrlKey (ns : List Naming) (tid : String) : Option String :=
  ns.findSome? fun
    | .shown tid' urlKey => if tid' = tid then some urlKey else none
    | .hidden _ | .chosen _ => none

/-- The name of a visit, among the visits of a forum. -/
def nameIn (ns : List Naming) : Naming → String
  | .shown tid urlKey => (firstUrlKey ns tid).getD urlKey
  | .hidden urlKey => normalizeThreadSlug urlKey
  | .chosen key => key

/-- A visit comes to a post, and stores it unless it breaks off there. -/
structure Sighting where
  naming : Naming
  thread : String
  pid : ℕ
  stored : Bool
  deriving DecidableEq

/-- The visit's naming; a re-fetch names nothing new. -/
def Step.naming : Step → List Naming
  | .poll url p _ =>
    match p.canonicalTid with
    | some tid => [.shown tid (threadIdFromUrl url)]
    | none => [.hidden (threadIdFromUrl url)]
  | .backfill key _ _ => [.chosen key]
  | .refetch _ _ _ => []

/-- The posts that a visit enters. -/
def Step.posts (maxThreadPages : ℕ) : Step → List (ParsedPost × Bool)
  | .poll _ p n => written n (cappedPages maxThreadPages p).flatten
  | .backfill _ p n => written n p.pages.flatten
  | .refetch _ _ _ => []

/-- The thread that a visit finds. -/
def Step.thread : Step → String
  | .poll _ p _ | .backfill _ p _ | .refetch _ p _ => p.thread

def Step.sightings (maxThreadPages : ℕ) (a : Step) : List Sighting :=
  a.naming.flatMap fun naming =>
    (a.posts maxThreadPages).map fun post => ⟨naming, a.thread, post.1.pid, post.2⟩

/-- Two visits to one post have the same name, and visits to different threads have different
names. -/
def Distinct (maxThreadPages : ℕ) (as : List Step) : Prop :=
  let name := nameIn (as.flatMap Step.naming)
  ∀ x ∈ as.flatMap (Step.sightings maxThreadPages),
    ∀ y ∈ as.flatMap (Step.sightings maxThreadPages),
      (x.stored → y.stored → x.thread = y.thread → x.pid = y.pid →
        name x.naming = name y.naming) ∧
      (name x.naming = name y.naming → x.thread = y.thread)

instance (maxThreadPages : ℕ) (as : List Step) : Decidable (Distinct maxThreadPages as) :=
  inferInstanceAs (Decidable (∀ x ∈ as.flatMap (Step.sightings maxThreadPages),
    ∀ y ∈ as.flatMap (Step.sightings maxThreadPages), _ ∧ _))

/-- What is stored, in terms of the visits. -/
structure Recorded (board : String) (s : ForumStore) (ns : List Naming) (xs : List Sighting) :
    Prop where
  aliases : ∀ tid, (s.aliases.get tid).map ForumThreadAlias.platformGroupid = firstUrlKey ns tid
  named : ∀ x ∈ xs, x.naming ∈ ns
  entered : s.entered = xs.map fun x => (nameIn ns x.naming, x.thread)
  messages : ∀ m ∈ s.messages,
    m.evidenceRef = evidenceRef board m.platformGroupid m.platformMsgid ∧
    ∃ x ∈ xs, x.stored ∧ x.thread = m.thread ∧ x.pid = m.platformMsgid ∧
      nameIn ns x.naming = m.platformGroupid
  sighted : ∀ x ∈ xs, x.stored → ∃ m ∈ s.messages,
    m.platformGroupid = nameIn ns x.naming ∧ m.platformMsgid = x.pid

section Visits

variable {board : String} {maxThreadPages n : ℕ} {s s' : ForumStore} {a : Step}
variable {ns ms : List Naming} {xs : List Sighting} {m : Naming} {key tid urlKey : String}

theorem firstUrlKey_append (tid : String) :
    firstUrlKey (ns ++ ms) tid = (firstUrlKey ns tid).or (firstUrlKey ms tid) := by
  rw [firstUrlKey, List.findSome?_append]
  rfl

/-- A later visit does not rename an earlier one. -/
theorem nameIn_append (h : m ∈ ns) : nameIn (ns ++ ms) m = nameIn ns m := by
  cases m with
  | shown tid urlKey =>
    have hsome : (firstUrlKey ns tid).isSome := by
      rw [firstUrlKey, List.findSome?_isSome_iff]
      exact ⟨_, h, by simp⟩
    obtain ⟨key, hkey⟩ := Option.isSome_iff_exists.mp hsome
    rw [nameIn, nameIn, firstUrlKey_append, hkey]
    rfl
  | hidden urlKey | chosen key => rfl

/-! ### What a step records -/

theorem recorded_init : Recorded board init [] [] where
  aliases tid := rfl
  named := by simp
  entered := rfl
  messages m hm := absurd hm (Table.not_mem_empty m)
  sighted := by simp

/-- A visit has found its key. -/
theorem Recorded.name (h : Recorded board s ns xs) {aliases : AliasTable}
    (haliases : ∀ tid, (aliases.get tid).map ForumThreadAlias.platformGroupid =
      firstUrlKey (ns ++ ms) tid) :
    Recorded board { s with aliases } (ns ++ ms) xs where
  aliases := haliases
  named x hx := List.mem_append_left ms (h.named x hx)
  entered := by
    rw [h.entered]
    refine List.map_congr_left fun x hx => ?_
    rw [nameIn_append (h.named x hx)]
  messages m hm := by
    obtain ⟨href, x, hx, hstored, hthread, hpid, hname⟩ := h.messages m hm
    exact ⟨href, x, hx, hstored, hthread, hpid, by rw [nameIn_append (h.named x hx), hname]⟩
  sighted x hx hstored := by
    rw [nameIn_append (h.named x hx)]
    exact h.sighted x hx hstored

/-- The rows after a message was put: the old ones and, unless its ref was taken, the new one. -/
theorem mem_putForumMessage {t : ForumMessageTable} {row x : ForumMessage}
    (h : x ∈ putForumMessage t row) : x ∈ t ∨ x = row := by
  rw [putForumMessage] at h
  cases hinsert : t.insert row with
  | none =>
    rw [hinsert] at h
    exact .inl h
  | some t' =>
    rw [hinsert] at h
    exact (Table.mem_insert hinsert).mp h

theorem mem_putForumMessage_of_mem {t : ForumMessageTable} {row x : ForumMessage} (h : x ∈ t) :
    x ∈ putForumMessage t row := by
  rw [putForumMessage]
  cases hinsert : t.insert row with
  | none => exact h
  | some t' => exact (Table.mem_insert hinsert).mpr (.inl h)

/-- After a message was put, a row has its ref. -/
theorem exists_mem_putForumMessage (t : ForumMessageTable) (row : ForumMessage) :
    ∃ x ∈ putForumMessage t row, x.evidenceRef = row.evidenceRef := by
  rw [putForumMessage]
  cases hinsert : t.insert row with
  | none => exact Table.exists_of_insert_eq_none hinsert
  | some t' => exact ⟨row, (Table.mem_insert hinsert).mpr (.inr rfl), rfl⟩

theorem Recorded.ingestPost (h : Recorded board s ns xs) (hm : m ∈ ns) (thread : String)
    (title : Option String) (post : ParsedPost × Bool) :
    Recorded board (ingestPost board (nameIn ns m) thread title s post) ns
      (xs ++ [⟨m, thread, post.1.pid, post.2⟩]) where
  aliases := h.aliases
  named := by
    rw [List.forall_mem_append]
    exact ⟨h.named, by simpa using hm⟩
  entered := by simp [ForumStore.ingestPost, h.entered]
  messages := by
    have hold : ∀ row ∈ s.messages, row.evidenceRef =
          evidenceRef board row.platformGroupid row.platformMsgid ∧
        ∃ x ∈ xs ++ [⟨m, thread, post.1.pid, post.2⟩], x.stored ∧ x.thread = row.thread ∧
          x.pid = row.platformMsgid ∧ nameIn ns x.naming = row.platformGroupid := by
      intro row hrow
      obtain ⟨href, x, hx, hx'⟩ := h.messages row hrow
      exact ⟨href, x, List.mem_append_left _ hx, hx'⟩
    intro row hrow
    obtain ⟨post, put⟩ := post
    cases put with
    | false => exact hold row hrow
    | true =>
      rcases mem_putForumMessage hrow with hrow | rfl
      · exact hold row hrow
      · exact ⟨rfl, _, List.mem_append_right _ (List.mem_singleton_self _), rfl, rfl, rfl, rfl⟩
  sighted := by
    have hkept : ∀ row ∈ s.messages,
        row ∈ (ForumStore.ingestPost board (nameIn ns m) thread title s post).messages := by
      intro row hrow
      rw [ForumStore.ingestPost]
      split_ifs
      · exact mem_putForumMessage_of_mem hrow
      · exact hrow
    rw [List.forall_mem_append]
    refine ⟨?_, ?_⟩
    · intro x hx hstored
      obtain ⟨row, hrow, hplace⟩ := h.sighted x hx hstored
      exact ⟨row, hkept row hrow, hplace⟩
    · intro x hx hstored
      obtain rfl := List.mem_singleton.mp hx
      obtain ⟨post, put⟩ := post
      obtain rfl : put = true := hstored
      -- a row with this ref is in the table, and its key and pid can be read off the ref
      obtain ⟨row, hrow, href⟩ := exists_mem_putForumMessage s.messages
        ⟨evidenceRef board (nameIn ns m) post.pid, nameIn ns m, post.pid, post.bodyText, thread⟩
      refine ⟨row, hrow, ?_⟩
      rcases mem_putForumMessage hrow with hold | rfl
      · exact evidenceRef_inj ((h.messages row hold).1.symm.trans href)
      · exact ⟨rfl, rfl⟩

theorem Recorded.ingestPages (h : Recorded board s ns xs) (hm : m ∈ ns) (hkey : key = nameIn ns m)
    (p : ThreadPages) (pages : List (List ParsedPost)) (n : ℕ) :
    Recorded board (ingestPages board key p pages n s) ns
      (xs ++ (written n pages.flatten).map fun post => ⟨m, p.thread, post.1.pid, post.2⟩) := by
  subst hkey
  rw [ForumStore.ingestPages]
  induction written n pages.flatten generalizing s xs with
  | nil => simpa using h
  | cons post posts ih =>
    have hrest := ih (h.ingestPost hm p.thread p.title post)
    rwa [List.append_assoc] at hrest

@[simp] theorem firstUrlKey_shown (tid' : String) :
    firstUrlKey [.shown tid urlKey] tid' = if tid = tid' then some urlKey else none := by
  simp [firstUrlKey, List.findSome?_cons]
  split_ifs <;> rfl

/-- A page that shows its tid leads to the alias of the tid: the key is the visit's name. -/
theorem resolveOrBindForumThread_spec {t : AliasTable}
    (h : ∀ tid, (t.get tid).map ForumThreadAlias.platformGroupid = firstUrlKey ns tid) :
    (resolveOrBindForumThread t tid urlKey).1 =
        nameIn (ns ++ [.shown tid urlKey]) (.shown tid urlKey) ∧
      ∀ tid', ((resolveOrBindForumThread t tid urlKey).2.get tid').map
        ForumThreadAlias.platformGroupid = firstUrlKey (ns ++ [.shown tid urlKey]) tid' := by
  rw [nameIn, resolveOrBindForumThread]
  simp only [firstUrlKey_append, firstUrlKey_shown, ← h]
  cases hget : t.get tid with
  | some row =>
    refine ⟨by simp, fun tid' => ?_⟩
    split_ifs with heq
    · subst heq
      simp [hget]
    · simp
  | none =>
    refine ⟨by simp, fun tid' => ?_⟩
    rw [Table.get_save]
    split_ifs with heq
    · subst heq
      simp [hget]
    · simp

theorem pollKey_spec (h : Recorded board s ns xs) {url : String} {p : ThreadPages}
    (hm : (Step.poll url p n).naming = [m]) :
    (s.pollKey url p).1 = nameIn (ns ++ [m]) m ∧
      ∀ tid, ((s.pollKey url p).2.get tid).map ForumThreadAlias.platformGroupid =
        firstUrlKey (ns ++ [m]) tid := by
  rw [Step.naming] at hm
  rw [pollKey]
  cases htid : p.canonicalTid with
  | some tid =>
    simp only [htid, List.cons.injEq, and_true] at hm
    subst hm
    exact resolveOrBindForumThread_spec h.aliases
  | none =>
    simp only [htid, List.cons.injEq, and_true] at hm
    subst hm
    refine ⟨by rw [nameIn], fun tid => ?_⟩
    rw [firstUrlKey_append, h.aliases]
    exact (Option.or_none).symm

/-- What a message row keeps through an update of its content. -/
def place (row : ForumMessage) : String × String × ℕ × String :=
  (row.evidenceRef, row.platformGroupid, row.platformMsgid, row.thread)

theorem map_place_updateMessageContent (t : ForumMessageTable) (ref body : String) :
    (updateMessageContent t ref body).rows.map place = t.rows.map place := by
  rw [updateMessageContent]
  cases hget : t.get ref with
  | none => rfl
  | some row =>
    obtain ⟨hmem, -⟩ := Table.get_eq_some.mp hget
    simp only [Table.put, List.map_map]
    refine List.map_congr_left fun x hx => ?_
    rw [Function.comp_apply]
    split_ifs with href
    · rw [Table.eq_of_key hx hmem href]
      rfl
    · rfl

theorem Recorded.of_places (h : Recorded board s ns xs) {messages : ForumMessageTable}
    (hplaces : messages.rows.map place = s.messages.rows.map place) :
    Recorded board { s with messages } ns xs where
  aliases := h.aliases
  named := h.named
  entered := h.entered
  messages row hrow := by
    have hmem : place row ∈ s.messages.rows.map place := hplaces ▸ List.mem_map_of_mem hrow
    obtain ⟨row', hrow', hplace⟩ := List.mem_map.mp hmem
    simp only [place, Prod.mk.injEq] at hplace
    obtain ⟨href, hgroup, hpid, hthread⟩ := hplace
    rw [← href, ← hgroup, ← hpid, ← hthread]
    exact h.messages row' hrow'
  sighted x hx hstored := by
    obtain ⟨row, hrow, hgroup, hpid⟩ := h.sighted x hx hstored
    have hmem : place row ∈ messages.rows.map place := hplaces ▸ List.mem_map_of_mem hrow
    obtain ⟨row', hrow', hplace⟩ := List.mem_map.mp hmem
    simp only [place, Prod.mk.injEq] at hplace
    exact ⟨row', hrow', hplace.2.1.trans hgroup, hplace.2.2.1.trans hpid⟩

/-- **Step lemma.** -/
theorem Recorded.step (h : Recorded board s ns xs)
    (hstep : s.step board maxThreadPages a = some s') :
    Recorded board s' (ns ++ a.naming) (xs ++ a.sightings maxThreadPages) := by
  cases a with
  | poll url p n =>
    simp only [ForumStore.step, Option.some.injEq] at hstep
    subst hstep
    have hnaming : ∃ m, (Step.poll url p n).naming = [m] := by
      rw [Step.naming]
      split <;> exact ⟨_, rfl⟩
    obtain ⟨m, hm⟩ := hnaming
    obtain ⟨hkey, haliases⟩ := pollKey_spec h hm
    have hnamed := h.name haliases
    rw [Step.sightings, hm, List.flatMap_singleton]
    exact hnamed.ingestPages (List.mem_append_right ns (List.mem_singleton_self m)) hkey p _ n
  | backfill key p n =>
    simp only [ForumStore.step] at hstep
    split at hstep <;> cases hstep
    have hnamed : Recorded board s (ns ++ [.chosen key]) xs := by
      refine h.name fun tid => ?_
      rw [firstUrlKey_append, h.aliases]
      exact (Option.or_none).symm
    rw [Step.sightings, Step.naming, List.flatMap_singleton]
    exact hnamed.ingestPages (List.mem_append_right ns (List.mem_singleton_self _)) rfl p _ n
  | refetch key p n =>
    simp only [ForumStore.step] at hstep
    split at hstep <;> cases hstep
    rw [Step.sightings, Step.naming, List.flatMap_nil, List.append_nil, List.append_nil]
    refine h.of_places ?_
    induction (p.pages.flatten.take n) using List.reverseRecOn with
    | nil => rfl
    | append_singleton posts post ih =>
      rw [List.foldl_append, List.foldl_cons, List.foldl_nil, map_place_updateMessageContent, ih]

/-- **Run lemma.** -/
theorem Recorded.run (h : Recorded board s ns xs) {as : List Step}
    (hrun : Machine.run (ForumStore.step board maxThreadPages) s as = some s') :
    Recorded board s' (ns ++ as.flatMap Step.naming)
      (xs ++ as.flatMap (Step.sightings maxThreadPages)) := by
  induction as generalizing s ns xs with
  | nil =>
    rw [run_nil] at hrun
    cases hrun
    simpa using h
  | cons a as ih =>
    obtain ⟨t, ht, hrest⟩ := run_cons_eq_some.mp hrun
    simpa only [List.flatMap_cons, List.append_assoc] using ih (h.step ht) hrest

/-- The storage is sound when the names are distinct. -/
theorem Recorded.sound_iff_names (h : Recorded board s ns xs) :
    s.Sound ↔ ∀ x ∈ xs, ∀ y ∈ xs,
      (x.stored → y.stored → x.thread = y.thread → x.pid = y.pid →
        nameIn ns x.naming = nameIn ns y.naming) ∧
      (nameIn ns x.naming = nameIn ns y.naming → x.thread = y.thread) := by
  have hentered : ∀ x ∈ xs, (nameIn ns x.naming, x.thread) ∈ s.entered := by
    intro x hx
    rw [h.entered]
    exact List.mem_map_of_mem hx
  refine ⟨?_, ?_⟩
  · intro hsound x hx y hy
    have hthread : ∀ x ∈ xs, ∀ y ∈ xs, nameIn ns x.naming = nameIn ns y.naming →
        x.thread = y.thread := fun x hx y hy =>
      hsound.oneThread _ (hentered x hx) _ (hentered y hy)
    refine ⟨fun hxs hys hxy hpid => ?_, hthread x hx y hy⟩
    -- the row at the place of a stored post is a row of its thread
    have hrow : ∀ x ∈ xs, x.stored → ∃ row ∈ s.messages,
        row.platformGroupid = nameIn ns x.naming ∧ row.platformMsgid = x.pid ∧
          row.thread = x.thread := by
      intro x hx hstored
      obtain ⟨row, hmem, hgroup, hpid⟩ := h.sighted x hx hstored
      obtain ⟨-, z, hz, -, hzthread, -, hzname⟩ := h.messages row hmem
      exact ⟨row, hmem, hgroup, hpid, hzthread ▸ hthread z hz x hx (hzname.trans hgroup)⟩
    obtain ⟨rx, hrx, hgx, hpx, htx⟩ := hrow x hx hxs
    obtain ⟨ry, hry, hgy, hpy, hty⟩ := hrow y hy hys
    have hplace := hsound.onePlace rx hrx ry hry (by rw [htx, hty, hxy]) (by rw [hpx, hpy, hpid])
    rw [← hgx, ← hgy, hplace.2]
  · intro hdistinct
    constructor
    case onePlace =>
      intro row hrow row' hrow' hthread hpid
      obtain ⟨href, x, hx, hxs, hxt, hxp, hxn⟩ := h.messages row hrow
      obtain ⟨href', y, hy, hys, hyt, hyp, hyn⟩ := h.messages row' hrow'
      have hname := (hdistinct x hx y hy).1 hxs hys (by rw [hxt, hyt, hthread])
        (by rw [hxp, hyp, hpid])
      have hgroup : row.platformGroupid = row'.platformGroupid := by rw [← hxn, ← hyn, hname]
      exact ⟨by rw [href, href', hgroup, hpid], hgroup⟩
    case oneThread =>
      rw [h.entered]
      intro e he e' he' hkey
      obtain ⟨x, hx, rfl⟩ := List.mem_map.mp he
      obtain ⟨y, hy, rfl⟩ := List.mem_map.mp he'
      exact (hdistinct x hx y hy).2 hkey

end Visits

/-- **Thread keys.** In every state of a run each post has one evidence ref and one group, and no
two threads share a group, exactly when the visits go by distinct names. -/
theorem sound_iff_distinct {board : String} {maxThreadPages : ℕ} {as : List Step} {s : ForumStore}
    (hrun : run (step board maxThreadPages) init as = some s) :
    Throughout (step board maxThreadPages) Sound init as ↔ Distinct maxThreadPages as := by
  have hiff : ∀ {bs t}, run (step board maxThreadPages) init bs = some t →
      (t.Sound ↔ Distinct maxThreadPages bs) := by
    intro bs t ht
    exact (recorded_init.run ht).sound_iff_names
  refine ⟨?_, ?_⟩
  · intro hall
    exact (hiff hrun).mp (hall as (List.prefix_refl as) s hrun)
  · rintro hdistinct bs ⟨cs, rfl⟩ t ht
    refine (hiff ht).mpr fun x hx y hy => ?_
    -- the visits of the whole run include those so far, under the same names
    have hname : ∀ x ∈ bs.flatMap (Step.sightings maxThreadPages),
        nameIn ((bs ++ cs).flatMap Step.naming) x.naming =
          nameIn (bs.flatMap Step.naming) x.naming := by
      intro x hx
      rw [List.flatMap_append]
      exact nameIn_append ((recorded_init.run ht).named x hx)
    have hmem : ∀ x ∈ bs.flatMap (Step.sightings maxThreadPages),
        x ∈ (bs ++ cs).flatMap (Step.sightings maxThreadPages) := by
      intro x hx
      rw [List.flatMap_append]
      exact List.mem_append_left _ hx
    have hxy := hdistinct x (hmem x hx) y (hmem y hy)
    rwa [hname x hx, hname y hy] at hxy

/-- A thread that is moved and backfilled keeps its key while its page shows the tid. -/
theorem moved_thread_sound :
    Throughout (step "forum.test" 1) Sound init
      [.poll "Thread-DATABASE-UTEC-x" ⟨"520159", true, none, [[⟨1, "leak"⟩], [⟨2, "thanks"⟩]]⟩ 2,
        .poll "Thread-UTEC-x" ⟨"520159", true, none, [[⟨1, "leak"⟩]]⟩ 2,
        .backfill "Thread-DATABASE-UTEC-x" ⟨"520159", false, none, [[⟨1, "leak"⟩]]⟩ 2] := by
  obtain ⟨s, hrun⟩ : ∃ s, run (step "forum.test" 1) init
      [.poll "Thread-DATABASE-UTEC-x" ⟨"520159", true, none, [[⟨1, "leak"⟩], [⟨2, "thanks"⟩]]⟩ 2,
        .poll "Thread-UTEC-x" ⟨"520159", true, none, [[⟨1, "leak"⟩]]⟩ 2,
        .backfill "Thread-DATABASE-UTEC-x" ⟨"520159", false, none, [[⟨1, "leak"⟩]]⟩ 2] = some s :=
    Option.isSome_iff_exists.mp (by decide +kernel)
  exact (sound_iff_distinct hrun).mpr (by decide +kernel)

/-- A moved thread whose page shows no tid this time is stored again under its new slug, and two
threads whose slugs differ in the section share a key. -/
theorem moved_thread_stored_twice :
    (∃ s, run (step "forum.test" 1) init
      [.poll "Thread-DATABASE-UTEC-x" ⟨"520159", true, none, [[⟨1, "leak"⟩]]⟩ 2,
        .poll "Thread-UTEC-x" ⟨"520159", false, none, [[⟨1, "leak"⟩]]⟩ 2] = some s ∧
      ¬ s.Sound) ∧
    ∃ s, run (step "forum.test" 1) init
      [.poll "Thread-DATABASE-y" ⟨"7", false, none, [[⟨3, "a"⟩]]⟩ 2,
        .poll "Thread-STEALER-y" ⟨"8", false, none, [[⟨4, "b"⟩]]⟩ 2] = some s ∧
      ¬ s.Sound := by
  decide +kernel

end ForumStore

end Eyenet
