import Mathlib.Algebra.Order.Ring.Rat
import Mathlib.Data.List.DropRight
import Mathlib.Data.List.Induction
import Eyenet.Sha256

/-!
# The rate limit

The middleware of `api/middleware/rate_limit.py` keeps for each credential a queue with the times
of the requests that it admitted, and prunes it from the front whenever the credential asks again.

* `RateLimiter.log` — the limiter that keeps every decision and counts those of the window.
* `RateLimiter.decided_eq_log` — the queues decide as the log does, if the clock does not go back.
* `RateLimiter.sliding_window` — the law of the window, for every such sequence of requests.

Times are numbers with an order and a difference; a difference of floating point numbers is
rounded, and all that the law needs of it is that it does not decrease with the time.
-/

namespace Eyenet

/-! ## The credential -/

/-- The part of a scope that the key depends on, with names and values as they were sent. -/
structure RateScope where
  headers : List (Bytes × Bytes)
  client : Option String

/-- `bytes.lower` -/
def lowerByte (b : UInt8) : UInt8 := if 0x41 ≤ b ∧ b ≤ 0x5A then b + 0x20 else b

/-- The bytes that `bytes.strip` removes. -/
def isBlankByte (b : UInt8) : Bool := b = 0x20 ∨ (0x09 ≤ b ∧ b ≤ 0x0D)

/-- `bytes.strip` -/
def stripBytes (b : Bytes) : Bytes := (b.dropWhile isBlankByte).rdropWhile isBlankByte

/-- The token of an `Authorization: Bearer` header. -/
def bearerToken (header : Bytes × Bytes) : Option Bytes :=
  if header.1 = utf8 "authorization" ∧ (header.2.take 7).map lowerByte = utf8 "bearer " then
    let token := stripBytes (header.2.drop 7)
    if token = [] then none else some token
  else none

/-- `_key` -/
def rateKey (scope : RateScope) : String :=
  match scope.headers.findSome? bearerToken with
  | some token => "t:" ++ String.ofList ((hex (Sha256.digest token)).toList.take 16)
  | none => "ip:" ++ scope.client.getD "unknown"

/-! ## The limiter -/

/-- A request that the limiter has decided on; `remaining` is `none` when it was refused. -/
structure Decision (T : Type) where
  key : String
  now : T
  remaining : Option ℕ
  deriving DecidableEq

/-- The value of `X-RateLimit-Remaining`, which a refusal carries as well. -/
def Decision.reported {T : Type} (d : Decision T) : ℕ := d.remaining.getD 0

/-- The queues of a limiter, and what it has decided. -/
structure RateLimiter (T : Type) where
  buckets : String → List T
  decided : List (Decision T)

namespace RateLimiter

section Admissions

variable {T : Type}

/-- The times at which a key was admitted. -/
def admittedTimes (ds : List (Decision T)) (key : String) : List T :=
  (ds.filter fun d => d.remaining.isSome ∧ d.key = key).map Decision.now

/-- The requests that were admitted. -/
def admitted (requests : List (RateScope × T)) (ds : List (Decision T)) : List (RateScope × T) :=
  ((requests.zip ds).filter fun x => x.2.remaining.isSome).map Prod.fst

variable [LinearOrder T]

/-- The admissions of a key after `lo`, up to `hi`. -/
def admissionsIn (ds : List (Decision T)) (key : String) (lo hi : T) : ℕ :=
  ds.countP fun d => d.remaining.isSome ∧ d.key = key ∧ lo < d.now ∧ d.now ≤ hi

end Admissions

variable {T : Type} [LinearOrder T] [Sub T] (limit : ℕ) (window : T)

/-- `_admit`, for the bucket of the key: the remaining quota and the bucket. -/
def admitRequest (bucket : List T) (now : T) : Option ℕ × List T :=
  let pruned := bucket.dropWhile fun t => t ≤ now - window
  if limit ≤ pruned.length then (none, pruned)
  else (some (limit - (pruned.length + 1)), pruned ++ [now])

/-- A request: its scope and the reading of the clock. -/
def serve (l : RateLimiter T) (request : RateScope × T) : RateLimiter T :=
  let key := rateKey request.1
  let admitted := admitRequest limit window (l.buckets key) request.2
  ⟨Function.update l.buckets key admitted.2, l.decided ++ [⟨key, request.2, admitted.1⟩]⟩

/-- The limiter after some requests. -/
def handle (requests : List (RateScope × T)) : RateLimiter T :=
  requests.foldl (serve limit window) ⟨fun _ => [], []⟩

/-- What a request gets that comes after some others. -/
def verdict (ds : List (Decision T)) (request : RateScope × T) : Decision T :=
  let key := rateKey request.1
  let admissions := admissionsIn ds key (request.2 - window) request.2
  ⟨key, request.2, if admissions < limit then some (limit - (admissions + 1)) else none⟩

/-- The decisions of the limiter that keeps all of them. -/
def log (requests : List (RateScope × T)) : List (Decision T) :=
  requests.foldl (fun ds request => ds ++ [verdict limit window ds request]) []

/-- Each queue is an end of the admissions; what was pruned is before the window of a request. -/
def Kept (l : RateLimiter T) : Prop :=
  ∀ key, ∃ pruned, admittedTimes l.decided key = pruned ++ l.buckets key ∧
    ∀ t ∈ pruned, ∃ d ∈ l.decided, t ≤ d.now - window

/-! ## Admissions -/

section Admissions

variable {T : Type} {ds : List (Decision T)} {d : Decision T} {key : String} {lo hi now t : T}

theorem admittedTimes_append_singleton : admittedTimes (ds ++ [d]) key =
    admittedTimes ds key ++ if d.remaining.isSome ∧ d.key = key then [d.now] else [] := by
  rw [admittedTimes, List.filter_append, List.map_append, ← admittedTimes]
  congr 1
  split_ifs with h <;> simp [h]

theorem mem_admittedTimes (h : t ∈ admittedTimes ds key) : ∃ d ∈ ds, d.now = t := by
  obtain ⟨d, hd, rfl⟩ := List.mem_map.mp h
  exact ⟨d, (List.mem_filter.mp hd).1, rfl⟩

theorem admitted_sublist {requests : List (RateScope × T)} (h : requests.length = ds.length) :
    (admitted requests ds).Sublist requests := by
  have hsub : (admitted requests ds).Sublist ((requests.zip ds).map Prod.fst) :=
    List.filter_sublist.map Prod.fst
  rwa [List.map_fst_zip h.le] at hsub

variable [LinearOrder T]

theorem admissionsIn_eq : admissionsIn ds key lo hi =
    (admittedTimes ds key).countP fun t => lo < t ∧ t ≤ hi := by
  rw [admissionsIn, admittedTimes, List.countP_map, List.countP_filter]
  refine List.countP_congr fun d _ => ?_
  simp only [Function.comp_apply, decide_eq_true_eq, Bool.and_eq_true]
  tauto

theorem admissionsIn_append_singleton : admissionsIn (ds ++ [d]) key lo hi =
    admissionsIn ds key lo hi +
      if d.remaining.isSome ∧ d.key = key ∧ lo < d.now ∧ d.now ≤ hi then 1 else 0 := by
  rw [admissionsIn, List.countP_append, List.countP_singleton, ← admissionsIn]
  simp only [decide_eq_true_eq]

theorem admissionsIn_filter : admissionsIn (ds.filter fun d => d.remaining.isSome) key lo hi =
    admissionsIn ds key lo hi := by
  rw [admissionsIn, List.countP_filter, admissionsIn]
  refine List.countP_congr fun d _ => ?_
  simp only [Bool.and_eq_true, decide_eq_true_eq]
  tauto

/-- A sorted queue is pruned of just what is before the window. -/
theorem dropWhile_le_eq_filter {bucket : List T} (h : bucket.Pairwise (· ≤ ·)) (cutoff : T) :
    (bucket.dropWhile fun t => t ≤ cutoff) = bucket.filter fun t => cutoff < t := by
  induction bucket with
  | nil => rfl
  | cons t bucket ih =>
    obtain ⟨hle, hsorted⟩ := List.pairwise_cons.mp h
    by_cases ht : t ≤ cutoff
    · rw [List.dropWhile_cons_of_pos (by simpa using ht), ih hsorted,
        List.filter_cons_of_neg (by simpa using ht)]
    · have hafter : ∀ u ∈ t :: bucket, cutoff < u := by
        intro u hu
        rcases List.mem_cons.mp hu with rfl | hu
        · exact lt_of_not_ge ht
        · exact (lt_of_not_ge ht).trans_le (hle u hu)
      rw [List.dropWhile_cons_of_neg (by simpa using ht), List.filter_eq_self.mpr]
      simpa using hafter

/-- The decisions are in the order of their times, and none is later than `now`. -/
structure Before (ds : List (Decision T)) (now : T) : Prop where
  sorted : (ds.map Decision.now).Pairwise (· ≤ ·)
  le : ∀ d ∈ ds, d.now ≤ now

theorem Before.sorted_times (h : Before ds now) (key : String) :
    (admittedTimes ds key).Pairwise (· ≤ ·) :=
  h.sorted.sublist (List.filter_sublist.map Decision.now)

end Admissions

/-! ## The queues keep the end of the log -/

variable {limit window} {l : RateLimiter T} {ds : List (Decision T)} {d : Decision T}
  {requests : List (RateScope × T)} {request : RateScope × T} {key : String} {lo hi now t : T}

@[simp] theorem log_nil : log limit window ([] : List (RateScope × T)) = [] := rfl

theorem log_append_singleton : log limit window (requests ++ [request]) =
    log limit window requests ++ [verdict limit window (log limit window requests) request] :=
  List.foldl_concat _ _ _ _

theorem handle_append_singleton : handle limit window (requests ++ [request]) =
    (handle limit window requests).serve limit window request :=
  List.foldl_concat _ _ _ _

variable (limit window requests) in
/-- The decisions are those on the requests, one after another. -/
theorem stamps_log : (log limit window requests).map (fun d => (d.key, d.now)) =
    requests.map fun request => (rateKey request.1, request.2) := by
  induction requests using List.reverseRecOn with
  | nil => rfl
  | append_singleton requests request ih =>
    rw [log_append_singleton, List.map_append, List.map_append, ih]
    rfl

variable (limit window requests) in
theorem now_log : (log limit window requests).map Decision.now = requests.map Prod.snd := by
  have hstamps := congrArg (List.map Prod.snd) (stamps_log limit window requests)
  rwa [List.map_map, List.map_map] at hstamps

variable (limit window requests) in
theorem length_log : (log limit window requests).length = requests.length := by
  simpa using congrArg List.length (now_log limit window requests)

/-- The pruned queue holds the admissions of the window. -/
theorem Kept.pruned_eq (h : Kept window l) (hsub : Monotone fun t : T => t - window)
    (hbefore : Before l.decided now) (key : String) :
    ((l.buckets key).dropWhile fun t => t ≤ now - window) =
      (admittedTimes l.decided key).filter fun t => now - window < t := by
  obtain ⟨pruned, htimes, hpruned⟩ := h key
  have hsorted := hbefore.sorted_times key
  have hnone : pruned.filter (fun t => now - window < t) = [] := by
    refine List.filter_eq_nil_iff.mpr fun t ht => ?_
    obtain ⟨d, hd, hle⟩ := hpruned t ht
    simpa using hle.trans (hsub (hbefore.le d hd))
  rw [htimes] at hsorted
  rw [dropWhile_le_eq_filter (List.pairwise_append.mp hsorted).2.1, htimes, List.filter_append,
    hnone, List.nil_append]

theorem Kept.length_pruned (h : Kept window l) (hsub : Monotone fun t : T => t - window)
    (hbefore : Before l.decided now) (key : String) :
    ((l.buckets key).dropWhile fun t => t ≤ now - window).length =
      admissionsIn l.decided key (now - window) now := by
  rw [h.pruned_eq hsub hbefore, admissionsIn_eq, List.countP_eq_length_filter]
  congr 1
  refine List.filter_congr fun t ht => ?_
  obtain ⟨d, hd, rfl⟩ := mem_admittedTimes ht
  simp [hbefore.le d hd]

/-- One request decides as the log says, -/
theorem Kept.decided_serve (h : Kept window l) (hsub : Monotone fun t : T => t - window)
    (hbefore : Before l.decided request.2) :
    (l.serve limit window request).decided =
      l.decided ++ [verdict limit window l.decided request] := by
  have hlength := h.length_pruned hsub hbefore (rateKey request.1)
  rw [serve, verdict, admitRequest, ← hlength]
  split_ifs with hfull hroom hroom
  · exact absurd hfull (Nat.not_le_of_lt hroom)
  · rfl
  · rfl
  · exact absurd (Nat.lt_of_not_le hfull) hroom

/-- An admission is the last of the pruned queue. -/
theorem bucket_admitRequest (limit : ℕ) (window : T) (bucket : List T) (now : T) :
    (admitRequest limit window bucket now).2 = (bucket.dropWhile fun t => t ≤ now - window) ++
      if (admitRequest limit window bucket now).1.isSome then [now] else [] := by
  rw [admitRequest]
  split_ifs with hfull hrefused hadmitted
  · exact absurd hrefused (by simp)
  · rw [List.append_nil]
  · rfl
  · exact absurd rfl hadmitted

theorem buckets_serve_self : (l.serve limit window request).buckets (rateKey request.1) =
    (admitRequest limit window (l.buckets (rateKey request.1)) request.2).2 :=
  Function.update_self ..

theorem buckets_serve_of_ne (h : key ≠ rateKey request.1) :
    (l.serve limit window request).buckets key = l.buckets key :=
  Function.update_of_ne h ..

/-- and the queues stay ends of the log. -/
theorem Kept.serve (h : Kept window l) : Kept window (l.serve limit window request) := by
  intro key
  obtain ⟨pruned, htimes, hpruned⟩ := h key
  have hlater (t) (ht : t ∈ pruned) :
      ∃ d ∈ (l.serve limit window request).decided, t ≤ d.now - window := by
    obtain ⟨d, hd, hle⟩ := hpruned t ht
    exact ⟨d, List.mem_append_left _ hd, hle⟩
  have hdecided : admittedTimes (l.serve limit window request).decided key = _ :=
    admittedTimes_append_singleton
  rw [hdecided, htimes]
  by_cases hkey : key = rateKey request.1
  · subst hkey
    refine ⟨pruned ++ (l.buckets (rateKey request.1)).takeWhile fun t => t ≤ request.2 - window,
      ?_, fun t ht => ?_⟩
    · rw [buckets_serve_self, bucket_admitRequest, List.append_assoc pruned _ (_ ++ _),
        ← List.append_assoc (List.takeWhile _ _), List.takeWhile_append_dropWhile,
        List.append_assoc]
      simp only [and_true]
    · rcases List.mem_append.mp ht with ht | ht
      · exact hlater t ht
      · exact ⟨_, List.mem_append_right _ (List.mem_singleton_self _),
          by simpa using List.mem_takeWhile_imp ht⟩
  · -- the queue of another key stays as it is
    refine ⟨pruned, ?_, hlater⟩
    rw [if_neg fun h => hkey h.2.symm, List.append_nil, buckets_serve_of_ne hkey]

/-- **The queues decide as the log does**, if the clock does not go back. By induction on the
requests, from the last one back. -/
theorem decided_eq_log (hsub : Monotone fun t : T => t - window)
    (hclock : (requests.map Prod.snd).Pairwise (· ≤ ·)) :
    Kept window (handle limit window requests) ∧
      (handle limit window requests).decided = log limit window requests := by
  induction requests using List.reverseRecOn with
  | nil => exact ⟨fun key => ⟨[], rfl, by simp⟩, rfl⟩
  | append_singleton requests request ih =>
    rw [List.map_append, List.pairwise_append] at hclock
    obtain ⟨hkept, hdecided⟩ := ih hclock.1
    have hbefore : Before (handle limit window requests).decided request.2 := by
      rw [hdecided]
      refine ⟨now_log limit window requests ▸ hclock.1, fun d hd => ?_⟩
      exact hclock.2.2 _ (now_log limit window requests ▸ List.mem_map_of_mem hd) _
        (List.mem_singleton_self _)
    rw [handle_append_singleton, log_append_singleton]
    exact ⟨hkept.serve, by rw [hkept.decided_serve hsub hbefore, hdecided]⟩

/-! ## The law of the window -/

variable {before after : List (Decision T)}

/-- A request is admitted exactly when there is room in the window. -/
theorem isSome_verdict : (verdict limit window ds request).remaining.isSome ↔
    admissionsIn ds (rateKey request.1) (request.2 - window) request.2 < limit := by
  rw [verdict]
  split_ifs with hroom
  · exact iff_of_true rfl hroom
  · exact iff_of_false (by simp) hroom

theorem quota_verdict {quota : ℕ} (h : (verdict limit window ds request).remaining = some quota) :
    quota + (admissionsIn ds (rateKey request.1) (request.2 - window) request.2 + 1) = limit := by
  rw [verdict] at h
  split_ifs at h with hroom
  rw [← Option.some.inj h]
  omega

/-- The quota that is reported is what the admissions of the window leave, this one included. -/
theorem reported_verdict (hnow : request.2 - window < request.2)
    (hle : admissionsIn ds (rateKey request.1) (request.2 - window) request.2 ≤ limit) :
    (verdict limit window ds request).reported +
      admissionsIn (ds ++ [verdict limit window ds request]) (rateKey request.1)
        (request.2 - window) request.2 = limit := by
  rw [admissionsIn_append_singleton]
  by_cases hroom : (verdict limit window ds request).remaining.isSome
  · obtain ⟨quota, hquota⟩ := Option.isSome_iff_exists.mp hroom
    rw [if_pos ⟨hroom, rfl, hnow, le_rfl⟩, Decision.reported, hquota, Option.getD_some]
    exact quota_verdict hquota
  · have hfull := le_of_not_gt (mt isSome_verdict.mpr hroom)
    rw [if_neg fun h => hroom h.1, Decision.reported, Option.not_isSome_iff_eq_none.mp hroom]
    exact (Nat.zero_add _).trans (le_antisymm hle hfull)

/-- Every decision of the log is the verdict on its request after those before it. -/
theorem exists_verdict (h : log limit window requests = before ++ d :: after) :
    ∃ earlier request, earlier ++ [request] <+: requests ∧ before = log limit window earlier ∧
      d = verdict limit window before request := by
  induction requests using List.reverseRecOn generalizing after with
  | nil => simp at h
  | append_singleton requests request ih =>
    rw [log_append_singleton] at h
    rcases List.eq_nil_or_concat' after with rfl | ⟨after, last, rfl⟩
    · obtain ⟨rfl, hd⟩ := List.append_inj' h rfl
      exact ⟨requests, request, List.prefix_rfl, rfl, (List.singleton_inj.mp hd).symm⟩
    · rw [← List.cons_append, ← List.append_assoc] at h
      obtain ⟨earlier, r, hle, hbefore, hd⟩ := ih (List.append_inj' h rfl).1
      exact ⟨earlier, r, hle.trans (List.prefix_append _ _), hbefore, hd⟩

/-- No window holds more admissions than the limit. -/
theorem admissionsIn_log_le (hsub : Monotone fun t : T => t - window)
    (hclock : (requests.map Prod.snd).Pairwise (· ≤ ·)) (key : String) (t : T) :
    admissionsIn (log limit window requests) key (t - window) t ≤ limit := by
  induction requests using List.reverseRecOn with
  | nil => exact Nat.zero_le _
  | append_singleton requests request ih =>
    rw [List.map_append, List.pairwise_append] at hclock
    rw [log_append_singleton, admissionsIn_append_singleton]
    split_ifs with hin
    swap
    · exact ih hclock.1
    obtain ⟨hadmitted, rfl, -, hle⟩ := hin
    -- what is in this window is in that of the request
    refine lt_of_le_of_lt (List.countP_mono_left fun d hd hd' => ?_) (isSome_verdict.mp hadmitted)
    simp only [decide_eq_true_eq] at hd' ⊢
    refine ⟨hd'.1, hd'.2.1, (hsub hle).trans_lt hd'.2.2.1, ?_⟩
    exact hclock.2.2 _ (now_log limit window requests ▸ List.mem_map_of_mem hd) _
      (List.mem_singleton_self _)

/-- Without the refused requests the others get what they got. -/
theorem log_admitted : log limit window (admitted requests (log limit window requests)) =
    (log limit window requests).filter fun d => d.remaining.isSome := by
  induction requests using List.reverseRecOn with
  | nil => rfl
  | append_singleton requests request ih =>
    rw [log_append_singleton, admitted, List.zip_append (length_log _ _ _).symm, List.filter_append,
      List.map_append, ← admitted, List.filter_append]
    by_cases hroom : (verdict limit window (log limit window requests) request).remaining.isSome
    · have hsame : verdict limit window ((log limit window requests).filter fun d =>
          d.remaining.isSome) request =
            verdict limit window (log limit window requests) request := by
        simp only [verdict, admissionsIn_filter]
      simp only [List.zip_cons_cons, List.zip_nil_right, List.filter_cons, hroom, if_true,
        List.filter_nil, List.map_cons, List.map_nil]
      rw [log_append_singleton, ih, hsame]
    · simp only [List.zip_cons_cons, List.zip_nil_right, List.filter_cons, hroom,
        Bool.false_eq_true, if_false, List.filter_nil, List.map_nil, List.append_nil]
      exact ih

/-- **The law of the sliding window**, for requests whose readings of the clock do not go back.
Every request is decided on by the admissions of its key in its window, and the remaining quota is
what the admissions of that window, with this one, leave of the limit. No window holds more
admissions than the limit, and a refused request changes nothing for the others. -/
theorem sliding_window (hsub : Monotone fun t : T => t - window)
    (hclock : (requests.map Prod.snd).Pairwise (· ≤ ·)) :
    (handle limit window requests).decided.map (fun d => (d.key, d.now)) =
        requests.map (fun r => (rateKey r.1, r.2)) ∧
      (∀ before d after, (handle limit window requests).decided = before ++ d :: after →
        (d.remaining.isSome ↔ admissionsIn before d.key (d.now - window) d.now < limit) ∧
        (∀ quota, d.remaining = some quota →
          quota + (admissionsIn before d.key (d.now - window) d.now + 1) = limit) ∧
        (d.now - window < d.now →
          d.reported + admissionsIn (before ++ [d]) d.key (d.now - window) d.now = limit)) ∧
      (∀ key t, admissionsIn (handle limit window requests).decided key (t - window) t ≤ limit) ∧
      (handle limit window (admitted requests (handle limit window requests).decided)).decided =
        (handle limit window requests).decided.filter fun d => d.remaining.isSome := by
  rw [(decided_eq_log hsub hclock).2]
  refine ⟨stamps_log _ _ _, fun before d after hsplit => ?_, admissionsIn_log_le hsub hclock, ?_⟩
  · obtain ⟨earlier, request, hle, hbefore, rfl⟩ := exists_verdict hsplit
    refine ⟨isSome_verdict, fun quota hquota => ?_, fun hnow => ?_⟩
    · exact quota_verdict hquota
    · have hle :
          admissionsIn before (rateKey request.1) (request.2 - window) request.2 ≤ limit := by
        rw [hbefore]
        refine admissionsIn_log_le hsub (hclock.sublist ?_) _ _
        exact ((List.prefix_append _ _).trans hle).sublist.map Prod.snd
      exact reported_verdict hnow hle
  · have hsublist := admitted_sublist (length_log limit window requests).symm
    rw [(decided_eq_log hsub (hclock.sublist (hsublist.map Prod.snd))).2, log_admitted]

/-- Three requests of one client, the last at the end of the window of the first. -/
def sampleRequests : List (RateScope × ℚ) :=
  [(⟨[], some "10.0.0.1"⟩, 0), (⟨[], some "10.0.0.1"⟩, 59), (⟨[], some "10.0.0.1"⟩, 60)]

theorem sliding_window_sample : (sampleRequests.map Prod.snd).Pairwise (· ≤ ·) ∧
    ∀ key t, admissionsIn (handle 1 60 sampleRequests).decided key (t - 60) t ≤ 1 := by
  have hclock : (sampleRequests.map Prod.snd).Pairwise (· ≤ ·) := by decide +kernel
  have hsub : Monotone fun t : ℚ => t - 60 := fun _ _ h => sub_le_sub_right h 60
  exact ⟨hclock, (sliding_window hsub hclock).2.2.1⟩

example : (handle 1 60 sampleRequests).decided.map Decision.remaining = [some 0, none, some 0] := by
  decide +kernel

end RateLimiter

end Eyenet
