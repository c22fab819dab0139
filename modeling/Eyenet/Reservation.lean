import Eyenet.Calls
import Eyenet.Idempotency

/-!
# Concurrent reservations

Requests with one `Idempotency-Key` at the same time. The reservation, its reclaim, and the
final update or delete are separate statements keyed by the key alone, so a statement can meet a
row other than the one it was meant for. A label is one statement of one request, and a run is any
interleaving of any number of requests; a record remembers the request that inserted it.

* `ReservationState.Exclusive` — one run holds the key, and no run touches another's record.
* `ReservationState.Undisturbed` — a reclaim and a late write meet the row they were meant for.
* `exclusive_iff_undisturbed` — a run is exclusive exactly when its steps are undisturbed.
-/

namespace Eyenet

open Machine

/-- Where a request stands; `row` is the reservation that it makes. -/
inductive ReservationPhase (Doc : Type) where
  /-- about to insert, in the first or the second turn of the loop -/
  | inserting (turn : ℕ) (row : IdempotencyRecordRow ℕ Doc)
  /-- the key was taken; about to read what is there -/
  | inspecting (turn : ℕ) (row : IdempotencyRecordRow ℕ Doc)
  /-- what is there is expired; about to delete it -/
  | reclaiming (turn : ℕ) (row : IdempotencyRecordRow ℕ Doc)
  /-- the reservation is lost; answered with a replay or a conflict -/
  | contended (existing : Option (IdempotencyRecordRow ℕ Doc))
  /-- the reservation is won, the handler runs -/
  | running (row : IdempotencyRecordRow ℕ Doc)
  /-- the handler has answered or raised; about to look the record up -/
  | finishing (row : IdempotencyRecordRow ℕ Doc) (outcome : Option (Response Doc))
  /-- a record is there; about to finalize or delete it -/
  | writing (row : IdempotencyRecordRow ℕ Doc) (outcome : Option (Response Doc))
  | done
  deriving DecidableEq

namespace ReservationPhase

variable {Doc : Type}

/-- The reservation that a request still has to make. -/
def wanted : ReservationPhase Doc → Option (IdempotencyRecordRow ℕ Doc)
  | inserting _ row => some row
  | inspecting _ row => some row
  | reclaiming _ row => some row
  | _ => none

/-- The reservation that a run has won and not yet given up. -/
def held : ReservationPhase Doc → Option (IdempotencyRecordRow ℕ Doc)
  | running row => some row
  | finishing row _ => some row
  | writing row _ => some row
  | _ => none

/-- The reservation of a request about to delete an expired record. -/
def reclaims : ReservationPhase Doc → Option (IdempotencyRecordRow ℕ Doc)
  | reclaiming _ row => some row
  | _ => none

/-- The reservation of a run about to finalize or delete its record. -/
def writes : ReservationPhase Doc → Option (IdempotencyRecordRow ℕ Doc)
  | writing row _ => some row
  | _ => none

/-- The loop goes around, at most once. -/
def goAround (turn : ℕ) (row : IdempotencyRecordRow ℕ Doc) : ReservationPhase Doc :=
  if turn = 0 then inserting 1 row else contended none

theorem goAround_held {turn : ℕ} {row : IdempotencyRecordRow ℕ Doc} :
    (goAround turn row).held = none := by
  simp only [goAround]
  split <;> rfl

theorem goAround_wanted {turn : ℕ} {row row' : IdempotencyRecordRow ℕ Doc}
    (h : (goAround turn row).wanted = some row') : row' = row := by
  simp only [goAround] at h
  split at h
  · exact (Option.some.inj h).symm
  · cases h

end ReservationPhase

/-- A finalize, a delete or a reclaim that met a record. -/
structure Touch where
  /-- the request that completed or removed the record -/
  call : ℕ
  /-- the request that had inserted it -/
  maker : ℕ
  /-- it was the reclaim of an expired record -/
  reclaimsExpired : Bool
  deriving DecidableEq

/-- The clock, the table, the requests, and every touch so far. -/
structure ReservationState (Doc : Type) where
  clock : ℤ
  table : List (IdempotencyRecordRow ℕ Doc)
  calls : Calls (ReservationPhase Doc)
  touches : List Touch
  deriving DecidableEq

/-- One statement of one request, or the passing of time. -/
inductive ReservationStep (Doc : Type) where
  | tick (d : ℕ)
  /-- the body is read, `reserve_idempotency_record` is called and reads the clock -/
  | arrive (c : ℕ) (key requestHash : String)
  /-- `INSERT` -/
  | insert (c : ℕ)
  /-- `SELECT` after a failed insert -/
  | inspect (c : ℕ)
  /-- `DELETE` of an expired record -/
  | reclaim (c : ℕ)
  /-- the handler answers, or raises -/
  | respond (c : ℕ) (outcome : Option (Response Doc))
  /-- `SELECT` of `finalize_idempotency_record` or `delete_idempotency_record` -/
  | select (c : ℕ)
  /-- `UPDATE` or `DELETE` of `finalize_idempotency_record` or `delete_idempotency_record` -/
  | write (c : ℕ)
  deriving DecidableEq

/-- What `finalize_idempotency_record` or `delete_idempotency_record` does to the table. -/
def finishRecord {ω Doc : Type} (table : List (IdempotencyRecordRow ω Doc)) (key : String)
    (outcome : Option (Response Doc)) : List (IdempotencyRecordRow ω Doc) :=
  match outcome with
  | none => deleteRecord table key
  | some response =>
    if response.isSuccess then updateRecord table key response.status response.body
    else deleteRecord table key

/-- Finishing one key leaves the others alone. -/
theorem getRecord_finishRecord {ω Doc : Type} {table : List (IdempotencyRecordRow ω Doc)}
    {key k : String} {outcome : Option (Response Doc)} (h : k ≠ key) :
    getRecord (finishRecord table key outcome) k = getRecord table k := by
  simp only [finishRecord]
  split
  · rw [getRecord_deleteRecord, if_neg h]
  · split
    · rw [getRecord_updateRecord, if_neg h]
    · rw [getRecord_deleteRecord, if_neg h]

namespace ReservationState

variable {Doc : Type}

/-- An empty table at some time. -/
def init (clock : ℤ) : ReservationState Doc := ⟨clock, [], [], []⟩

/-- A request moves on. -/
def put (s : ReservationState Doc) (c : ℕ) (p : ReservationPhase Doc) : ReservationState Doc :=
  { s with calls := s.calls.put c p }

/-- The touch of whatever record stands under the key. -/
def touch (s : ReservationState Doc) (c : ℕ) (key : String)
    (expired : IdempotencyRecordRow ℕ Doc → Bool) : List Touch :=
  ((getRecord s.table key).map fun ρ => ⟨c, ρ.maker, expired ρ⟩).toList

theorem mem_touch {s : ReservationState Doc} {c : ℕ} {key : String}
    {expired : IdempotencyRecordRow ℕ Doc → Bool} {t : Touch} :
    t ∈ s.touch c key expired ↔
      ∃ ρ, getRecord s.table key = some ρ ∧ t = ⟨c, ρ.maker, expired ρ⟩ := by
  simp [touch, eq_comm]

/-- One step; `none` where it cannot happen. -/
def step (ttl : ℤ) (s : ReservationState Doc) :
    ReservationStep Doc → Option (ReservationState Doc)
  | .tick d => some { s with clock := s.clock + d }
  | .arrive c key requestHash =>
    match s.calls.phase c with
    | some _ => none
    | none => some (s.put c (.inserting 0 (reservation key requestHash s.clock ttl c)))
  | .insert c =>
    match s.calls.phase c with
    | some (.inserting turn row) =>
      match insertRecord s.table row with
      | some table => some { s.put c (.running row) with table }
      | none => some (s.put c (.inspecting turn row))
    | _ => none
  | .inspect c =>
    match s.calls.phase c with
    | some (.inspecting turn row) =>
      match getRecord s.table row.key with
      | none => some (s.put c (.goAround turn row))
      | some existing =>
        if existing.expired row.createdAt then some (s.put c (.reclaiming turn row))
        else some (s.put c (.contended (some existing)))
    | _ => none
  | .reclaim c =>
    match s.calls.phase c with
    | some (.reclaiming turn row) =>
      some { s.put c (.goAround turn row) with
        table := deleteRecord s.table row.key
        touches := s.touch c row.key (·.expired row.createdAt) ++ s.touches }
    | _ => none
  | .respond c outcome =>
    match s.calls.phase c with
    | some (.running row) => some (s.put c (.finishing row outcome))
    | _ => none
  | .select c =>
    match s.calls.phase c with
    | some (.finishing row outcome) =>
      match getRecord s.table row.key with
      | none => some (s.put c .done)
      | some _ => some (s.put c (.writing row outcome))
    | _ => none
  | .write c =>
    match s.calls.phase c with
    | some (.writing row outcome) =>
      some { s.put c .done with
        table := finishRecord s.table row.key outcome
        touches := s.touch c row.key (fun _ => false) ++ s.touches }
    | _ => none

/-- The run of `c` holds the key: it has won it, has not given it up, and is not expired. -/
def Holds (s : ReservationState Doc) (c : ℕ) (key : String) : Prop :=
  ∃ row, (s.calls.phase c).bind (·.held) = some row ∧ row.key = key ∧ s.clock < row.expiresAt

instance (s : ReservationState Doc) (c : ℕ) (key : String) : Decidable (s.Holds c key) :=
  decidableReaches _ _

/-- One run holds a key, and a run completes or removes the record of another run only by
reclaiming it after it has expired. -/
structure Exclusive (s : ReservationState Doc) : Prop where
  oneHolder : ∀ {c c' key}, s.Holds c key → s.Holds c' key → c = c'
  ownRecords : ∀ t ∈ s.touches, t.maker = t.call ∨ t.reclaimsExpired = true

/-- A reclaim still meets the expired record, not one inserted since it looked; and a run that
outlives its own reservation no longer meets the record of a later one. -/
def Undisturbed (s : ReservationState Doc) : ReservationStep Doc → Prop
  | .reclaim c => ∀ row ∈ (s.calls.phase c).bind (·.reclaims),
    ∀ ρ ∈ getRecord s.table row.key, ρ.expired row.createdAt
  | .write c => ∀ row ∈ (s.calls.phase c).bind (·.writes), row.expiresAt ≤ s.clock →
    ∀ ρ ∈ getRecord s.table row.key, ρ.maker = c
  | _ => True

instance (s : ReservationState Doc) : ∀ a, Decidable (s.Undisturbed a)
  | .reclaim _ | .write _ => inferInstanceAs (Decidable (∀ row ∈ Option.bind _ _, _))
  | .tick _ | .arrive .. | .insert _ | .inspect _ | .respond .. | .select _ =>
    inferInstanceAs (Decidable True)

/-! ## The invariant -/

/-- Every reservation that is held and not expired has its record in the table. -/
structure Sound (s : ReservationState Doc) : Prop where
  wanted : ∀ {c p row}, s.calls.phase c = some p → p.wanted = some row →
    row.maker = c ∧ row.createdAt ≤ s.clock
  held : ∀ {c p row}, s.calls.phase c = some p → p.held = some row → s.clock < row.expiresAt →
    ∃ ρ, getRecord s.table row.key = some ρ ∧ ρ.maker = c ∧ ρ.expiresAt = row.expiresAt
  ownRecords : ∀ t ∈ s.touches, t.maker = t.call ∨ t.reclaimsExpired = true

/-- Whoever inserted a record has nothing left to reserve. -/
def Made (s : ReservationState Doc) : Prop :=
  ∀ r ∈ s.table, ∃ p, s.calls.phase r.maker = some p ∧ p.wanted = none

section Invariant

variable {ttl : ℤ} {s s' : ReservationState Doc} {c : ℕ} {row : IdempotencyRecordRow ℕ Doc}

theorem sound_init (clock : ℤ) : Sound (init clock : ReservationState Doc) := by
  constructor <;> simp [init]

theorem Sound.exclusive (h : Sound s) : Exclusive s where
  oneHolder := by
    rintro c c' key ⟨row, hrow, rfl, hlive⟩ ⟨row', hrow', hkey, hlive'⟩
    obtain ⟨p, hp, hheld⟩ := Option.bind_eq_some_iff.mp hrow
    obtain ⟨p', hp', hheld'⟩ := Option.bind_eq_some_iff.mp hrow'
    obtain ⟨ρ, hρ, hmaker, -⟩ := h.held hp hheld hlive
    obtain ⟨ρ', hρ', hmaker', -⟩ := h.held hp' hheld' hlive'
    rw [hkey, hρ] at hρ'
    cases hρ'
    exact hmaker.symm.trans hmaker'
  ownRecords := h.ownRecords

/-- A request moves on and the table changes so that the others keep their records. -/
theorem Sound.move {p : ReservationPhase Doc} {table : List (IdempotencyRecordRow ℕ Doc)}
    {touches : List Touch} (h : Sound s)
    (hwanted : ∀ row, p.wanted = some row → row.maker = c ∧ row.createdAt ≤ s.clock)
    (hheld : ∀ row, p.held = some row → s.clock < row.expiresAt →
      ∃ ρ, getRecord table row.key = some ρ ∧ ρ.maker = c ∧ ρ.expiresAt = row.expiresAt)
    (hothers : ∀ {k ρ}, getRecord s.table k = some ρ → ρ.maker ≠ c → s.clock < ρ.expiresAt →
      getRecord table k = some ρ)
    (htouches : ∀ t ∈ touches, t.maker = t.call ∨ t.reclaimsExpired = true) :
    Sound { s.put c p with table, touches } where
  wanted := by
    intro c' q row hq hrow
    simp only [ReservationState.put, Calls.phase_put] at hq
    split at hq
    · next hc =>
      cases hq
      exact hc ▸ hwanted row hrow
    · exact h.wanted hq hrow
  held := by
    intro c' q row hq hrow hlive
    simp only [ReservationState.put, Calls.phase_put] at hq
    split at hq
    · next hc =>
      cases hq
      exact hc ▸ hheld row hrow hlive
    · next hc =>
      obtain ⟨ρ, hρ, hmaker, hexp⟩ := h.held hq hrow hlive
      exact ⟨ρ, hothers hρ (hmaker.trans_ne hc) (hexp ▸ hlive), hmaker, hexp⟩
  ownRecords := htouches

/-- A request moves on and the table stays. -/
theorem Sound.stay {p : ReservationPhase Doc} (h : Sound s)
    (hwanted : ∀ row, p.wanted = some row → row.maker = c ∧ row.createdAt ≤ s.clock)
    (hheld : ∀ row, p.held = some row → ∃ q, s.calls.phase c = some q ∧ q.held = some row) :
    Sound (s.put c p) := by
  have hrecords : ∀ row, p.held = some row → s.clock < row.expiresAt →
      ∃ ρ, getRecord s.table row.key = some ρ ∧ ρ.maker = c ∧ ρ.expiresAt = row.expiresAt := by
    intro row hrow hlive
    obtain ⟨q, hq, hqheld⟩ := hheld row hrow
    exact h.held hq hqheld hlive
  exact h.move hwanted hrecords (fun hρ _ _ => hρ) h.ownRecords

/-- The record that an undisturbed write meets is the writer's own. -/
theorem Sound.own_record {outcome : Option (Response Doc)} {ρ : IdempotencyRecordRow ℕ Doc}
    (h : Sound s) (hun : Undisturbed s (.write c))
    (hphase : s.calls.phase c = some (.writing row outcome))
    (hρ : getRecord s.table row.key = some ρ) : ρ.maker = c := by
  by_cases hlive : s.clock < row.expiresAt
  · obtain ⟨ρ', hρ', hmaker, -⟩ := h.held hphase rfl hlive
    rw [hρ'] at hρ
    cases hρ
    exact hmaker
  · exact hun row (by simp [hphase, ReservationPhase.writes]) (not_lt.mp hlive) ρ hρ

/-- **Step lemma.** An undisturbed step keeps the invariant. -/
theorem Sound.step {a : ReservationStep Doc} (h : Sound s) (hun : Undisturbed s a)
    (hstep : step ttl s a = some s') : Sound s' := by
  cases a with
  | tick d =>
    cases hstep
    have hle : s.clock ≤ s.clock + d := by simp
    exact ⟨fun hp hw => ⟨(h.wanted hp hw).1, (h.wanted hp hw).2.trans hle⟩,
      fun hp hh hlive => h.held hp hh (hle.trans_lt hlive), h.ownRecords⟩
  | arrive c key requestHash =>
    simp only [ReservationState.step] at hstep
    split at hstep
    · cases hstep
    · cases hstep
      refine h.stay ?_ (by rintro _ ⟨⟩)
      rintro row ⟨⟩
      exact ⟨rfl, le_refl _⟩
  | insert c =>
    simp only [ReservationState.step] at hstep
    split at hstep
    · next turn row hphase =>
      obtain ⟨hmaker, hstamp⟩ := h.wanted hphase rfl
      split at hstep
      · next table hins =>
        cases hstep
        obtain ⟨hfree, rfl⟩ := insertRecord_eq_some.mp hins
        refine h.move (by rintro _ ⟨⟩) ?_ ?_ h.ownRecords
        · rintro row' ⟨⟩ -
          exact ⟨row, by rw [getRecord_cons, if_pos rfl], hmaker, rfl⟩
        · intro k ρ hρ _ _
          have hk : k ≠ row.key := by
            rintro rfl
            rw [hfree] at hρ
            cases hρ
          rw [getRecord_cons, if_neg hk, hρ]
      · cases hstep
        refine h.stay ?_ (by rintro _ ⟨⟩)
        rintro row' ⟨⟩
        exact ⟨hmaker, hstamp⟩
    · cases hstep
  | inspect c =>
    simp only [ReservationState.step] at hstep
    split at hstep
    · next turn row hphase =>
      have hwanted := h.wanted hphase rfl
      split at hstep
      · cases hstep
        refine h.stay (fun row' hrow' => ?_) (by simp [ReservationPhase.goAround_held])
        rwa [ReservationPhase.goAround_wanted hrow']
      · split at hstep <;> cases hstep
        · refine h.stay ?_ (by rintro _ ⟨⟩)
          rintro row' ⟨⟩
          exact hwanted
        · refine h.stay ?_ ?_ <;> rintro _ ⟨⟩
    · cases hstep
  | reclaim c =>
    simp only [ReservationState.step] at hstep
    split at hstep
    · next turn row hphase =>
      cases hstep
      obtain ⟨hmaker, hstamp⟩ := h.wanted hphase rfl
      have hrow : ∀ ρ, getRecord s.table row.key = some ρ → ρ.expired row.createdAt :=
        hun row (by simp [hphase, ReservationPhase.reclaims])
      refine h.move (fun row' hrow' => ?_) (by simp [ReservationPhase.goAround_held]) ?_ ?_
      · rw [ReservationPhase.goAround_wanted hrow']
        exact ⟨hmaker, hstamp⟩
      · -- the deleted record is expired, so nobody holds it
        intro k ρ hρ _ hlive
        have hk : k ≠ row.key := by
          rintro rfl
          have hexp := hrow ρ hρ
          simp only [IdempotencyRecordRow.expired, decide_eq_true_eq] at hexp
          omega
        rw [getRecord_deleteRecord, if_neg hk, hρ]
      · intro t ht
        rcases List.mem_append.mp ht with ht | ht
        · obtain ⟨ρ, hρ, rfl⟩ := mem_touch.mp ht
          exact .inr (hrow ρ hρ)
        · exact h.ownRecords t ht
    · cases hstep
  | respond c outcome =>
    simp only [ReservationState.step] at hstep
    split at hstep
    · next row hphase =>
      cases hstep
      refine h.stay (by rintro _ ⟨⟩) ?_
      rintro row' ⟨⟩
      exact ⟨_, hphase, rfl⟩
    · cases hstep
  | select c =>
    simp only [ReservationState.step] at hstep
    split at hstep
    · next row outcome hphase =>
      split at hstep <;> cases hstep
      · refine h.stay ?_ ?_ <;> rintro _ ⟨⟩
      · refine h.stay (by rintro _ ⟨⟩) ?_
        rintro row' ⟨⟩
        exact ⟨_, hphase, rfl⟩
    · cases hstep
  | write c =>
    simp only [ReservationState.step] at hstep
    split at hstep
    · next row outcome hphase =>
      cases hstep
      have hown : ∀ ρ, getRecord s.table row.key = some ρ → ρ.maker = c :=
        fun ρ hρ => h.own_record hun hphase hρ
      refine h.move (by rintro _ ⟨⟩) (by rintro _ ⟨⟩) ?_ ?_
      · intro k ρ hρ hne _
        have hk : k ≠ row.key := by
          rintro rfl
          exact hne (hown ρ hρ)
        rw [getRecord_finishRecord hk, hρ]
      · intro t ht
        rcases List.mem_append.mp ht with ht | ht
        · obtain ⟨ρ, hρ, rfl⟩ := mem_touch.mp ht
          exact .inl (hown ρ hρ)
        · exact h.ownRecords t ht
    · cases hstep

theorem made_init (clock : ℤ) : Made (init clock : ReservationState Doc) := by
  simp [Made, init]

/-- A request moves on, and the records of the others are old ones. -/
theorem Made.move {p : ReservationPhase Doc} {table : List (IdempotencyRecordRow ℕ Doc)}
    {touches : List Touch} (h : Made s)
    (hp : p.wanted = none ∨ ∀ r ∈ s.table, r.maker ≠ c)
    (hold : ∀ r ∈ table, r.maker = c ∧ p.wanted = none ∨ ∃ r' ∈ s.table, r'.maker = r.maker) :
    Made { s.put c p with table, touches } := by
  intro r hr
  simp only [ReservationState.put, Calls.phase_put]
  by_cases hc : r.maker = c
  · refine ⟨p, if_pos hc, ?_⟩
    rcases hp with hp | hp
    · exact hp
    · rcases hold r hr with ⟨-, hp⟩ | ⟨r', hr', hmaker⟩
      · exact hp
      · exact absurd (hmaker.trans hc) (hp r' hr')
  · rcases hold r hr with ⟨hrc, -⟩ | ⟨r', hr', hmaker⟩
    · exact absurd hrc hc
    · rw [if_neg hc, ← hmaker]
      exact h r' hr'

/-- A request that still has to reserve has made no record. -/
theorem Made.not_wanting (h : Made s)
    (hwanted : ∀ p, s.calls.phase c = some p → p.wanted.isSome) : ∀ r ∈ s.table, r.maker ≠ c := by
  rintro r hr rfl
  obtain ⟨p, hp, hnone⟩ := h r hr
  simpa [hnone] using hwanted p hp

theorem Made.not_mine {p : ReservationPhase Doc} (h : Made s) (hphase : s.calls.phase c = some p)
    (hwanted : p.wanted.isSome) : ∀ r ∈ s.table, r.maker ≠ c := by
  refine h.not_wanting fun q hq => ?_
  rw [hphase] at hq
  exact Option.some.inj hq ▸ hwanted

theorem finishRecord_makers {table : List (IdempotencyRecordRow ℕ Doc)} {key : String}
    {outcome : Option (Response Doc)} {r : IdempotencyRecordRow ℕ Doc}
    (hr : r ∈ finishRecord table key outcome) : ∃ r' ∈ table, r'.maker = r.maker := by
  have hdelete : r ∈ deleteRecord table key → ∃ r' ∈ table, r'.maker = r.maker :=
    fun hr => ⟨r, List.mem_of_mem_filter hr, rfl⟩
  simp only [finishRecord] at hr
  split at hr
  · exact hdelete hr
  · split at hr
    · obtain ⟨r', hr', rfl⟩ := List.mem_map.mp hr
      refine ⟨r', hr', ?_⟩
      split <;> rfl
    · exact hdelete hr

/-- **Step lemma.** Any step keeps the makers known. -/
theorem Made.step {a : ReservationStep Doc} (h : Made s) (hsound : Sound s)
    (hstep : step ttl s a = some s') : Made s' := by
  have hstay : ∀ {c p}, (p.wanted = none ∨ ∀ r ∈ s.table, r.maker ≠ c) → Made (s.put c p) :=
    fun hp => h.move hp fun r hr => .inr ⟨r, hr, rfl⟩
  cases a with
  | tick d =>
    cases hstep
    exact h
  | arrive c key requestHash =>
    simp only [ReservationState.step] at hstep
    split at hstep
    · cases hstep
    · next hphase =>
      cases hstep
      exact hstay (.inr (h.not_wanting (by simp [hphase])))
  | insert c =>
    simp only [ReservationState.step] at hstep
    split at hstep
    · next turn row hphase =>
      split at hstep
      · next table hins =>
        cases hstep
        obtain ⟨-, rfl⟩ := insertRecord_eq_some.mp hins
        refine h.move (.inl rfl) fun r hr => ?_
        rcases List.mem_cons.mp hr with rfl | hr
        · exact .inl ⟨(hsound.wanted hphase rfl).1, rfl⟩
        · exact .inr ⟨r, hr, rfl⟩
      · cases hstep
        exact hstay (.inr (h.not_mine hphase rfl))
    · cases hstep
  | inspect c =>
    simp only [ReservationState.step] at hstep
    split at hstep
    · next turn row hphase =>
      have hmine := h.not_mine hphase rfl
      split at hstep
      · cases hstep
        exact hstay (.inr hmine)
      · split at hstep <;> cases hstep <;> exact hstay (.inr hmine)
    · cases hstep
  | reclaim c =>
    simp only [ReservationState.step] at hstep
    split at hstep
    · next turn row hphase =>
      cases hstep
      exact h.move (.inr (h.not_mine hphase rfl)) fun r hr =>
        .inr ⟨r, List.mem_of_mem_filter hr, rfl⟩
    · cases hstep
  | respond c outcome =>
    simp only [ReservationState.step] at hstep
    split at hstep
    · cases hstep
      exact hstay (.inl rfl)
    · cases hstep
  | select c =>
    simp only [ReservationState.step] at hstep
    split at hstep
    · split at hstep <;> cases hstep <;> exact hstay (.inl rfl)
    · cases hstep
  | write c =>
    simp only [ReservationState.step] at hstep
    split at hstep
    · cases hstep
      exact h.move (.inl rfl) fun r hr => .inr (finishRecord_makers hr)
    · cases hstep

theorem phase_of_reclaims (h : row ∈ (s.calls.phase c).bind (·.reclaims)) :
    ∃ turn, s.calls.phase c = some (.reclaiming turn row) := by
  obtain ⟨p, hp, hrow⟩ := Option.bind_eq_some_iff.mp h
  cases p with
  | reclaiming turn row =>
    cases hrow
    exact ⟨turn, hp⟩
  | _ => cases hrow

theorem phase_of_writes (h : row ∈ (s.calls.phase c).bind (·.writes)) :
    ∃ outcome, s.calls.phase c = some (.writing row outcome) := by
  obtain ⟨p, hp, hrow⟩ := Option.bind_eq_some_iff.mp h
  cases p with
  | writing row outcome =>
    cases hrow
    exact ⟨outcome, hp⟩
  | _ => cases hrow

/-- **Step lemma.** A step that leads to an exclusive state was undisturbed. -/
theorem Made.undisturbed {a : ReservationStep Doc} (h : Made s)
    (hstep : ReservationState.step ttl s a = some s') (hexc : Exclusive s') : Undisturbed s a := by
  cases a with
  | reclaim c =>
    intro row hrow ρ hρ
    obtain ⟨turn, hphase⟩ := phase_of_reclaims hrow
    simp only [ReservationState.step, hphase] at hstep
    cases hstep
    have htouch := hexc.ownRecords ⟨c, ρ.maker, ρ.expired row.createdAt⟩
      (List.mem_append_left _ (mem_touch.mpr ⟨ρ, hρ, rfl⟩))
    exact htouch.resolve_left (h.not_mine hphase rfl ρ (getRecord_mem hρ).1)
  | write c =>
    intro row hrow _ ρ hρ
    obtain ⟨outcome, hphase⟩ := phase_of_writes hrow
    simp only [ReservationState.step, hphase] at hstep
    cases hstep
    have htouch := hexc.ownRecords ⟨c, ρ.maker, false⟩
      (List.mem_append_left _ (mem_touch.mpr ⟨ρ, hρ, rfl⟩))
    exact htouch.resolve_right Bool.false_ne_true
  | _ => trivial

end Invariant

/-! ## Runs -/

/-- **Reservations.** One run holds a key and no run touches another's record, in every state of a
run, exactly when the steps of the run are undisturbed. -/
theorem exclusive_iff_undisturbed {ttl clock : ℤ} {as : List (ReservationStep Doc)}
    {s : ReservationState Doc} (hrun : run (step ttl) (init clock) as = some s) :
    Throughout (step ttl) Exclusive (init clock) as ↔
      Along (step ttl) Undisturbed (init clock) as :=
  throughout_iff_along (I := fun s => Sound s ∧ Made s) (fun h => h.1.exclusive)
    (fun h hun hs => ⟨h.1.step hun hs, h.2.step h.1 hs⟩)
    (fun h hs hexc => h.2.undisturbed hs hexc)
    ⟨sound_init clock, made_init clock⟩ hrun

/-- One request is served to its end, and another one reclaims the key a week later. -/
def orderlyRun : List (ReservationStep String) :=
  [.arrive 0 "k" "h", .insert 0, .respond 0 (some ⟨202, "applied"⟩), .select 0, .write 0,
    .tick 604800000000, .arrive 1 "k" "h", .insert 1, .inspect 1, .reclaim 1, .insert 1]

theorem exclusive_iff_undisturbed_sample :
    Throughout (step idempotencyTtl) Exclusive (init 0) orderlyRun := by
  obtain ⟨s, hs⟩ := Option.isSome_iff_exists.mp
    (show (run (step idempotencyTtl) (init 0) orderlyRun).isSome by decide)
  exact (exclusive_iff_undisturbed hs).mpr (by decide)

/-- Two requests find the expired record of a third; the second reclaim deletes the reservation
that the first one has just made. -/
def racingReclaims : List (ReservationStep String) :=
  [.arrive 0 "k" "h", .insert 0, .respond 0 (some ⟨202, "applied"⟩), .select 0, .write 0,
    .tick 604800000000, .arrive 1 "k" "h", .arrive 2 "k" "h", .insert 1, .insert 2, .inspect 1,
    .inspect 2, .reclaim 1, .insert 1, .reclaim 2, .insert 2]

/-- A run outlives its reservation, fails, and deletes the reservation of the next one. -/
def staleOwner : List (ReservationStep String) :=
  [.arrive 0 "k" "h", .insert 0, .tick 604800000000, .arrive 1 "k" "h", .insert 1, .inspect 1,
    .reclaim 1, .insert 1, .respond 0 none, .select 0, .write 0]

/-- Two runs hold one key, and a run deletes the live reservation of another. -/
theorem reclaims_race :
    (∃ s, run (step idempotencyTtl) (init 0) racingReclaims = some s ∧
      s.Holds 1 "k" ∧ s.Holds 2 "k") ∧
    ∃ s, run (step idempotencyTtl) (init 0) staleOwner = some s ∧
      s.Holds 1 "k" ∧ s.table = [] ∧ ⟨0, 1, false⟩ ∈ s.touches := by
  decide

end ReservationState

end Eyenet
