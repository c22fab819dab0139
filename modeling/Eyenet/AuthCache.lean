import Eyenet.Calls
import Eyenet.Clearance
import Eyenet.Machine

/-!
# Loads and invalidations of the authentication cache

`AuthCache` (`api/auth/_cache.py`) keeps what a request needs to know of its user. A miss takes a
lock of the user, looks again, reads the user, the explicit scopes and the clearance grants, each
in a storage call of its own, and stores the result. `invalidate` drops the user's entry and takes
no lock.

The state counts the changes of each user's record, so that a context can be dated by the change
that its first read came after.

* `CacheRun.Fresh` — nobody gets a context from before a change that `invalidate` followed.
* `CacheRun.Unraced` — no load stores a context that was invalidated while it was loaded.
* `CacheRun.fresh_iff_unraced` — the first holds all along a run exactly when its steps meet the
  second.
-/

namespace Eyenet

open Machine

/-- What the three tables have on one user. -/
structure UserRecord where
  user : Option SystemUser
  explicitGrants : List String
  grants : List ClearanceGrantRow
  deriving DecidableEq

/-- A context, and how many changes of the record its first read came after. -/
structure LoadedContext where
  context : AuthContext
  epoch : ℕ
  deriving DecidableEq

/-- A call of `get_or_load`: its user, its `now`, the epoch that `invalidate` had cleared when it
started, and the generation of the lock that it needs, if it uses the cache. -/
structure LoadCall where
  userId : Uuid
  now : ℤ
  floor : ℕ
  lock : Option ℕ
  deriving DecidableEq

/-- Where a call of `get_or_load` stands. -/
inductive LoadPhase where
  /-- it missed, and waits for the user's lock -/
  | waiting (call : LoadCall)
  /-- it missed again with the lock held, or it uses no cache -/
  | loading (call : LoadCall)
  | userLoaded (call : LoadCall) (user : SystemUser) (epoch : ℕ)
  | scopesLoaded (call : LoadCall) (user : SystemUser) (explicitGrants : List String) (epoch : ℕ)
  /-- `_load` has read everything -/
  | loaded (call : LoadCall) (context : LoadedContext)
  | answered (call : LoadCall) (answer : Option LoadedContext)
  /-- a storage call raised, or the request was cancelled -/
  | failed (call : LoadCall)
  deriving DecidableEq

namespace LoadPhase

/-- The call itself. -/
def call : LoadPhase → LoadCall
  | waiting c | loading c | userLoaded c _ _ | scopesLoaded c _ _ _ | loaded c _ | answered c _
  | failed c => c

/-- The call is between the acquisition and the release of its lock. -/
def holdsLock : LoadPhase → Bool
  | loading _ | userLoaded _ _ _ | scopesLoaded _ _ _ _ | loaded _ _ => true
  | waiting _ | answered _ _ | failed _ => false

/-- The epoch of what the call has read or answered. -/
def epoch : LoadPhase → Option ℕ
  | userLoaded _ _ e | scopesLoaded _ _ _ e => some e
  | loaded _ x => some x.epoch
  | answered _ answer => answer.map LoadedContext.epoch
  | waiting _ | loading _ | failed _ => none

end LoadPhase

/-- An entry of the `TTLCache`. -/
structure LoadedEntry where
  userId : Uuid
  loaded : LoadedContext
  expires : ℤ
  deriving DecidableEq

/-- The records, the cache and the calls. `changes` counts the changes of each record, and
`cleared` is its value at the user's last `invalidate`. -/
structure CacheRun where
  clock : ℤ
  records : Uuid → UserRecord
  changes : Uuid → ℕ
  cleared : Uuid → ℕ
  cache : List LoadedEntry
  /-- how often `clear` has dropped all locks -/
  generation : ℕ
  calls : Calls LoadPhase

namespace CacheRun

/-- One step of a call, or something else that happens. -/
inductive Step where
  | tick (d : ℕ)
  /-- the user, the explicit scopes or the grants change -/
  | change (u : Uuid) (record : UserRecord)
  | invalidate (u : Uuid)
  /-- `clear` -/
  | clear
  /-- a full cache makes room -/
  | evict (u : Uuid)
  /-- `get_or_load` is called -/
  | getOrLoad (r : ℕ) (u : Uuid)
  /-- the call gets the lock -/
  | acquire (r : ℕ)
  /-- `get_system_user_by_id` -/
  | readUser (r : ℕ)
  /-- `list_explicit_scopes` -/
  | readScopes (r : ℕ)
  /-- `active_clearance_grants_for` -/
  | readGrants (r : ℕ)
  /-- the context is stored and returned -/
  | store (r : ℕ)
  /-- the call raises -/
  | fail (r : ℕ)

/-- No change was made and nothing is cached. -/
def init (clock : ℤ) (records : Uuid → UserRecord) : CacheRun :=
  ⟨clock, records, fun _ => 0, fun _ => 0, [], 0, []⟩

/-- A call moves on. -/
def put (s : CacheRun) (r : ℕ) (p : LoadPhase) : CacheRun := { s with calls := s.calls.put r p }

/-- `_cache.get` -/
def cached (s : CacheRun) (u : Uuid) : Option LoadedEntry :=
  s.cache.find? fun e => e.userId == u && decide (s.clock < e.expires)

/-- `_cache.pop` -/
def pop (s : CacheRun) (u : Uuid) : List LoadedEntry := s.cache.filter fun e => e.userId != u

/-- The user's lock of this generation is taken. -/
def lockTaken (s : CacheRun) (c : LoadCall) : Bool :=
  s.calls.any fun x => x.2.holdsLock && x.2.call.userId == c.userId && x.2.call.lock == c.lock

/-- `get_or_load` up to its first suspension. -/
def start (ttl : ℤ) (s : CacheRun) (u : Uuid) : LoadPhase :=
  if ttl ≤ 0 then .loading ⟨u, s.clock, s.cleared u, none⟩
  else
    match s.cached u with
    | some e => .answered ⟨u, s.clock, s.cleared u, some s.generation⟩ (some e.loaded)
    | none => .waiting ⟨u, s.clock, s.cleared u, some s.generation⟩

/-- One step; a label that does not fit changes nothing. `ttl` is `ttl_seconds`. -/
def step (ttl : ℤ) (s : CacheRun) : Step → Option CacheRun
  | .tick d => some { s with clock := s.clock + d }
  | .change u record =>
    some { s with
      records := Function.update s.records u record
      changes := Function.update s.changes u (s.changes u + 1) }
  | .invalidate u =>
    some { s with cache := s.pop u, cleared := Function.update s.cleared u (s.changes u) }
  | .clear => some { s with cache := [], generation := s.generation + 1 }
  | .evict u => some { s with cache := s.pop u }
  | .getOrLoad r u =>
    match s.calls.phase r with
    | none => some (s.put r (start ttl s u))
    | some _ => some s
  | .acquire r =>
    match s.calls.phase r with
    | some (.waiting c) =>
      if s.lockTaken c then some s
      else
        match s.cached c.userId with
        | some e => some (s.put r (.answered c (some e.loaded)))
        | none => some (s.put r (.loading c))
    | _ => some s
  | .readUser r =>
    match s.calls.phase r with
    | some (.loading c) =>
      match (s.records c.userId).user with
      | none => some (s.put r (.answered c none))
      | some user =>
        if user.isActive then some (s.put r (.userLoaded c user (s.changes c.userId)))
        else some (s.put r (.answered c none))
    | _ => some s
  | .readScopes r =>
    match s.calls.phase r with
    | some (.userLoaded c user epoch) =>
      some (s.put r (.scopesLoaded c user (s.records c.userId).explicitGrants epoch))
    | _ => some s
  | .readGrants r =>
    match s.calls.phase r with
    | some (.scopesLoaded c user explicitGrants epoch) =>
      let clearance := activeClearanceGrantsFor (s.records c.userId).grants c.userId c.now
      let scopes := resolveEffectiveScopes user explicitGrants clearance
      some (s.put r (.loaded c ⟨⟨user, scopes, c.now⟩, epoch⟩))
    | _ => some s
  | .store r =>
    match s.calls.phase r with
    | some (.loaded c x) =>
      if c.lock.isSome then
        some { s.put r (.answered c (some x)) with
          cache := ⟨c.userId, x, s.clock + max ttl 1 * 1000000⟩ :: s.pop c.userId }
      else some (s.put r (.answered c (some x)))
    | _ => some s
  | .fail r =>
    match s.calls.phase r with
    | some p => some (s.put r (.failed p.call))
    | none => some s

/-- Nobody gets, and nobody who asks now would get, a context from before a change that was
followed by an `invalidate` before the call. -/
structure Fresh (s : CacheRun) : Prop where
  answers : ∀ {r c x}, s.calls.phase r = some (.answered c (some x)) → c.floor ≤ x.epoch
  cached : ∀ {u e}, s.cached u = some e → s.cleared u ≤ e.loaded.epoch

/-- No load stores a context that was invalidated, after a change, since its first read. -/
def Unraced (s : CacheRun) : Step → Prop
  | .store r => ∀ c x, s.calls.phase r = some (.loaded c x) → c.lock.isSome →
    s.cleared c.userId ≤ x.epoch
  | _ => True

/-! ## The invariant -/

/-- The call was not started, and has read nothing, before the epoch that was cleared for it. -/
structure Timely (cleared : Uuid → ℕ) (p : LoadPhase) : Prop where
  floor : p.call.floor ≤ cleared p.call.userId
  epoch : ∀ e ∈ p.epoch, p.call.floor ≤ e

/-- The calls and the cache against the changes and the invalidations. -/
structure Inv (s : CacheRun) : Prop where
  cleared : ∀ u, s.cleared u ≤ s.changes u
  calls : ∀ {r p}, s.calls.phase r = some p → Timely s.cleared p
  cache : ∀ e ∈ s.cache, s.cleared e.userId ≤ e.loaded.epoch

section Invariant

variable {ttl : ℤ} {s s' : CacheRun} {a : Step} {r : ℕ} {u : Uuid}

theorem cached_eq_some {e : LoadedEntry} (h : s.cached u = some e) :
    e ∈ s.cache ∧ e.userId = u ∧ s.clock < e.expires := by
  have hprop := List.find?_some h
  rw [Bool.and_eq_true, beq_iff_eq, decide_eq_true_eq] at hprop
  exact ⟨List.mem_of_find?_eq_some h, hprop.1, hprop.2⟩

theorem mem_pop {e : LoadedEntry} : e ∈ s.pop u ↔ e ∈ s.cache ∧ e.userId ≠ u := by
  rw [pop, List.mem_filter, bne_iff_ne]

theorem inv_init (clock : ℤ) (records : Uuid → UserRecord) : (init clock records).Inv where
  cleared _ := le_refl 0
  calls h := by cases h
  cache e he := absurd he List.not_mem_nil

theorem Inv.fresh (h : s.Inv) : s.Fresh where
  answers hphase := (h.calls hphase).epoch _ rfl
  cached hcached := by
    obtain ⟨hmem, rfl, -⟩ := cached_eq_some hcached
    exact h.cache _ hmem

/-- A call moves on in time. -/
theorem Inv.put {p : LoadPhase} (h : s.Inv) (hp : Timely s.cleared p) : (s.put r p).Inv where
  cleared := h.cleared
  calls := by
    intro r' p' hphase
    rw [CacheRun.put, Calls.phase_put] at hphase
    split at hphase
    · cases hphase
      exact hp
    · exact h.calls hphase
  cache := h.cache

/-- Fewer entries, another clock, other records and other locks are no matter. -/
theorem Inv.forget {cache : List LoadedEntry} (h : s.Inv) (hsub : cache ⊆ s.cache) (clock : ℤ)
    (records : Uuid → UserRecord) (generation : ℕ) :
    Inv { s with cache, clock, records, generation } where
  cleared := h.cleared
  calls hphase := ⟨(h.calls hphase).floor, (h.calls hphase).epoch⟩
  cache e he := h.cache e (hsub he)

theorem Inv.change (h : s.Inv) (u : Uuid) (record : UserRecord) :
    Inv { s with
      records := Function.update s.records u record
      changes := Function.update s.changes u (s.changes u + 1) } where
  cleared v := by
    simp only [Function.update_apply]
    split
    · next heq => exact heq ▸ Nat.le_succ_of_le (h.cleared v)
    · exact h.cleared v
  calls hphase := ⟨(h.calls hphase).floor, (h.calls hphase).epoch⟩
  cache := h.cache

/-- An invalidation clears what came before the last change, and drops what it could reach. -/
theorem Inv.invalidate (h : s.Inv) (u : Uuid) :
    Inv { s with cache := s.pop u, cleared := Function.update s.cleared u (s.changes u) } where
  cleared v := by
    simp only [Function.update_apply]
    split
    · next heq => rw [heq]
    · exact h.cleared v
  calls := by
    intro r p hphase
    obtain ⟨hfloor, hepoch⟩ := h.calls hphase
    refine ⟨?_, hepoch⟩
    simp only [Function.update_apply]
    split
    · next heq => exact heq ▸ hfloor.trans (h.cleared _)
    · exact hfloor
  cache := by
    intro e he
    obtain ⟨hmem, hne⟩ := mem_pop.mp he
    simpa only [Function.update_of_ne hne] using h.cache e hmem

/-- An answer from the cache. -/
theorem Inv.timely_hit {c : LoadCall} {e : LoadedEntry} (h : s.Inv)
    (hfloor : c.floor ≤ s.cleared c.userId) (hcached : s.cached c.userId = some e) :
    Timely s.cleared (.answered c (some e.loaded)) where
  floor := hfloor
  epoch := by
    rintro n ⟨rfl⟩
    exact hfloor.trans (h.fresh.cached hcached)

theorem Inv.timely_start (h : s.Inv) (ttl : ℤ) (u : Uuid) :
    Timely s.cleared (start ttl s u) := by
  rw [start]
  split
  · exact ⟨le_refl _, fun _ he => absurd he (Option.not_mem_none _)⟩
  split
  · next e hcached => exact h.timely_hit (le_refl _) hcached
  · exact ⟨le_refl _, fun _ he => absurd he (Option.not_mem_none _)⟩

/-- **Step lemma.** A step that is not raced keeps the invariant. -/
theorem Inv.step (h : s.Inv) (hunraced : Unraced s a) (hstep : step ttl s a = some s') :
    s'.Inv := by
  cases a with
  | tick d =>
    cases hstep
    exact h.forget (List.Subset.refl _) _ _ _
  | change u record =>
    cases hstep
    exact h.change u record
  | invalidate u =>
    cases hstep
    exact h.invalidate u
  | clear =>
    cases hstep
    exact h.forget (List.nil_subset _) _ _ _
  | evict u =>
    cases hstep
    exact h.forget (fun e he => (mem_pop.mp he).1) _ _ _
  | getOrLoad r u =>
    simp only [CacheRun.step] at hstep
    split at hstep <;> cases hstep
    · exact h.put (h.timely_start ttl u)
    · exact h
  | acquire r =>
    simp only [CacheRun.step] at hstep
    split at hstep
    · next c hphase =>
      split at hstep
      · cases hstep
        exact h
      · have hfloor := (h.calls hphase).floor
        split at hstep <;> cases hstep
        · next e hcached => exact h.put (h.timely_hit hfloor hcached)
        · exact h.put ⟨hfloor, fun _ he => absurd he (Option.not_mem_none _)⟩
    · cases hstep
      exact h
  | readUser r =>
    simp only [CacheRun.step] at hstep
    split at hstep
    · next c hphase =>
      have hfloor := (h.calls hphase).floor
      split at hstep
      · cases hstep
        exact h.put ⟨hfloor, fun _ he => absurd he (Option.not_mem_none _)⟩
      split at hstep <;> cases hstep
      · refine h.put ⟨hfloor, ?_⟩
        rintro n ⟨rfl⟩
        exact hfloor.trans (h.cleared _)
      · exact h.put ⟨hfloor, fun _ he => absurd he (Option.not_mem_none _)⟩
    · cases hstep
      exact h
  | readScopes r | readGrants r =>
    simp only [CacheRun.step] at hstep
    split at hstep <;> cases hstep
    · next hphase => exact h.put ⟨(h.calls hphase).floor, (h.calls hphase).epoch⟩
    · exact h
  | store r =>
    simp only [CacheRun.step] at hstep
    split at hstep
    · next c x hphase =>
      have hanswer : (s.put r (.answered c (some x))).Inv :=
        h.put ⟨(h.calls hphase).floor, (h.calls hphase).epoch⟩
      split at hstep <;> cases hstep
      · next hlock =>
        refine ⟨hanswer.cleared, hanswer.calls, fun e he => ?_⟩
        rcases List.mem_cons.mp he with rfl | he
        · exact hunraced c x hphase hlock
        · exact h.cache e (mem_pop.mp he).1
      · exact hanswer
    · cases hstep
      exact h
  | fail r =>
    simp only [CacheRun.step] at hstep
    split at hstep <;> cases hstep
    · next hphase =>
      exact h.put ⟨(h.calls hphase).floor, fun _ he => absurd he (Option.not_mem_none _)⟩
    · exact h

/-- A raced store is found by whoever asks next. -/
theorem unraced_of_fresh (hstep : step ttl s a = some s') (hfresh : s'.Fresh) : Unraced s a := by
  cases a with
  | store r =>
    intro c x hphase hlock
    simp only [step, hphase, hlock, if_true] at hstep
    cases hstep
    apply hfresh.cached (u := c.userId) (e := ⟨c.userId, x, s.clock + max ttl 1 * 1000000⟩)
    rw [cached, List.find?_cons_of_pos]
    have hlive : s.clock < s.clock + max ttl 1 * 1000000 := by
      have := le_max_right ttl 1
      omega
    rw [Bool.and_eq_true, beq_iff_eq, decide_eq_true_eq]
    exact ⟨rfl, hlive⟩
  | _ => exact trivial

theorem exists_step (ttl : ℤ) (s : CacheRun) (a : Step) : ∃ s', step ttl s a = some s' := by
  cases a <;> simp only [step] <;> repeat' first | exact ⟨_, rfl⟩ | split

end Invariant

/-- **Freshness.** Over every interleaving of loads, changes and invalidations, no `get_or_load`
gets a context from before a change that `invalidate` followed, and no later one would, exactly
when no load stores a context that was invalidated while it was loaded. -/
theorem fresh_iff_unraced (ttl clock : ℤ) (records : Uuid → UserRecord) (as : List Step) :
    Throughout (step ttl) Fresh (init clock records) as ↔
      Along (step ttl) Unraced (init clock records) as := by
  obtain ⟨s, hrun⟩ := exists_run (exists_step ttl) (init clock records) as
  exact throughout_iff_along (fun h => Inv.fresh h) (fun h hu hs => Inv.step h hu hs)
    (fun _ hs hfresh => unraced_of_fresh hs hfresh) (inv_init clock records) hrun

/-- A viewer, and the same viewer deactivated. -/
def sampleRecord (isActive : Bool) : UserRecord :=
  ⟨some ⟨.viewer, isActive⟩, [], []⟩

/-- The user is deactivated and invalidated while a load is about to store what it read before:
the next caller is let in. -/
theorem invalidated_load_stored :
    ∃ s, run (step defaultTtlSeconds) (init 0 fun _ => sampleRecord true)
        [.getOrLoad 1 7, .acquire 1, .readUser 1, .readScopes 1, .readGrants 1,
          .change 7 (sampleRecord false), .invalidate 7, .store 1, .getOrLoad 2 7] = some s ∧
      ∃ x, s.calls.phase 2 = some (.answered ⟨7, 0, 1, some 0⟩ (some x)) ∧ x.epoch = 0 :=
  ⟨_, rfl, _, rfl, rfl⟩

end CacheRun

end Eyenet
