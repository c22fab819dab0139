import Eyenet.Dict
import Mathlib.Algebra.Order.BigOperators.Group.List
import Mathlib.Algebra.Order.Ring.Rat
import Mathlib.Data.List.Sort
import Mathlib.Data.String.Basic
import Mathlib.Tactic.Linarith
import Mathlib.Tactic.Ring

/-!
# Victim countries

`classify_country` (`classifier/geo/_country.py`) attributes a dump to a country. Every check gives
signals, in the title or in the body; `_combine` adds up a score for each country, in which repeated
signals of one check saturate, and resolves to the country that leads with a majority.

* `combine_country_iff` — when the verdict is a country.
* `title_decides_iff` — a title that names one country is outvoted by one distribution of the
  signals in the body, and by no other.
-/

namespace Eyenet

/-! ## Signals -/

/-- The kinds of `CountrySignal`, one for each check. -/
inductive GeoCheck
  | countryName | cctld | nationalId | iban | phone
  deriving DecidableEq

namespace GeoCheck

/-- `_WEIGHTS` -/
def weight : GeoCheck → ℚ
  | countryName => 100
  | cctld => 40
  | nationalId => 20
  | iban => 20
  | phone => 10

def all : List GeoCheck := [countryName, cctld, nationalId, iban, phone]

theorem mem_all (c : GeoCheck) : c ∈ all := by cases c <;> decide

theorem nodup_all : all.Nodup := by decide

theorem weight_pos (c : GeoCheck) : 0 < c.weight := by cases c <;> simp [weight]

end GeoCheck

/-- `CountrySignal` -/
structure CountrySignal where
  iso : String
  kind : GeoCheck
  weight : ℚ
  evidence : String
  deriving DecidableEq

/-- The country and the check. -/
def CountrySignal.group (s : CountrySignal) : String × GeoCheck := (s.iso, s.kind)

inductive CountryStatus
  | resolved | mixed | unknown
  deriving DecidableEq

/-- `CountryVerdict` -/
structure CountryVerdict where
  country : Option String
  status : CountryStatus
  decidedBy : Option GeoCheck
  distribution : List (String × ℚ)
  signals : List CountrySignal

/-- The checks, which find countries and evidence in a text, and the normal form of a text. -/
structure GeoChecks where
  nfc : String → String
  nameSignals : String → List (String × String)
  cctldSignals : String → List (String × String)
  nationalIds : List (String → List (String × String))
  ibanSignals : String → List (String × String)
  phoneSignals : String → List (String × String)

/-- The signals of a check. -/
def GeoCheck.signals (c : GeoCheck) (found : List (String × String)) : List CountrySignal :=
  found.map fun f => ⟨f.1, c, c.weight, f.2⟩

/-- `_all_checks` -/
def GeoChecks.allChecks (checks : GeoChecks) (text title : String) : List CountrySignal :=
  GeoCheck.countryName.signals (checks.nameSignals title) ++
    GeoCheck.cctld.signals (checks.cctldSignals title) ++
    checks.nationalIds.flatMap (fun extractor => GeoCheck.nationalId.signals (extractor text)) ++
    GeoCheck.iban.signals (checks.ibanSignals text) ++
    GeoCheck.phone.signals (checks.phoneSignals text)

/-! ## Scores -/

/-- `_SATURATE_CAP` -/
def saturateCap : ℕ := 3

/-- `_MAJORITY` -/
def majority : ℚ := 3 / 5

/-- `_MIN_SCORE` -/
def minScore : ℚ := 10

/-- What a number of signals of one check counts for. -/
def GeoCheck.contribution (c : GeoCheck) (n : ℕ) : ℚ := c.weight * min n saturateCap

/-- The numbers of signals, by country and check. -/
def grouped (signals : List CountrySignal) : List ((String × GeoCheck) × ℕ) :=
  Dict.count (signals.map CountrySignal.group)

/-- The score of each country. -/
def scores (signals : List CountrySignal) : List (String × ℚ) :=
  Dict.tally (fun g => g.1.1) (fun g => g.1.2.contribution g.2) (grouped signals)

/-- The check that contributes the most to each country. -/
def bestKind (signals : List CountrySignal) : List (String × ℚ × GeoCheck) :=
  (grouped signals).foldl (fun best g =>
    if ((best.lookup g.1.1).map Prod.fst).getD 0 < g.1.2.contribution g.2 then
      Dict.assign best g.1.1 (g.1.2.contribution g.2, g.1.2)
    else best) []

/-- The order of the ranking: the higher score, then the country. -/
def rankLe (a b : String × ℚ) : Bool :=
  decide (b.2 < a.2) || (a.2 == b.2 && decide (a.1 ≤ b.1))

def ranked (signals : List CountrySignal) : List (String × ℚ) :=
  (scores signals).insertionSort fun a b => rankLe a b

/-- `_combine` -/
def combine (signals : List CountrySignal) :
    Option String × CountryStatus × Option GeoCheck × List (String × ℚ) :=
  match ranked signals with
  | [] => (none, .unknown, none, [])
  | (topIso, topScore) :: rest =>
    if topScore < minScore then (none, .unknown, none, (topIso, topScore) :: rest)
    else if topScore / ((scores signals).map Prod.snd).sum < majority then
      (none, .mixed, none, (topIso, topScore) :: rest)
    else (some topIso, .resolved, ((bestKind signals).lookup topIso).map Prod.snd,
      (topIso, topScore) :: rest)

/-- `classify_country` -/
def GeoChecks.classifyCountry (checks : GeoChecks) (text : String) (title : Option String) :
    CountryVerdict :=
  let titleNorm := ((title.filter (· ≠ "")).map checks.nfc).getD ""
  let signals := checks.allChecks (checks.nfc text) titleNorm
  let (country, status, decidedBy, distribution) := combine signals
  ⟨country, status, decidedBy, distribution, signals⟩

/-- How often a check says a country. -/
def hits (signals : List CountrySignal) (iso : String) (c : GeoCheck) : ℕ :=
  signals.countP fun s => s.group = (iso, c)

/-- The score of a country: what each check contributes to it. -/
def scoreOf (signals : List CountrySignal) (iso : String) : ℚ :=
  (GeoCheck.all.map fun c => c.contribution (hits signals iso c)).sum

variable {signals : List CountrySignal} {iso country other : String} {s : CountrySignal}

theorem sum_map_filter {α : Type*} {p : α → Prop} [DecidablePred p] {f : α → ℚ} {l : List α}
    (h : ∀ a ∈ l, ¬ p a → f a = 0) : ((l.filter fun a => p a).map f).sum = (l.map f).sum := by
  induction l with
  | nil => rfl
  | cons a l ih =>
    have ih := ih fun b hb => h b (List.mem_cons_of_mem a hb)
    by_cases hp : p a
    · simp [hp, ih]
    · simp [hp, ih, h a List.mem_cons_self hp]

theorem mem_grouped {c : GeoCheck} {n : ℕ} : ((iso, c), n) ∈ grouped signals ↔
    (∃ s ∈ signals, s.group = (iso, c)) ∧ hits signals iso c = n := by
  rw [grouped, Dict.mem_count, List.mem_map, List.countP_map]
  rfl

/-- The groups of a country are its checks that fired. -/
theorem grouped_perm (signals : List CountrySignal) (iso : String) :
    ((grouped signals).filter fun g => g.1.1 = iso).Perm
      ((GeoCheck.all.filter fun c => ∃ s ∈ signals, s.group = (iso, c)).map fun c =>
        ((iso, c), hits signals iso c)) := by
  have hkeys : ((grouped signals).map Prod.fst).Nodup := Dict.nodup_keys_count _
  refine (List.perm_ext_iff_of_nodup (hkeys.of_map.filter _) ?_).mpr ?_
  · refine (GeoCheck.nodup_all.filter _).map ?_
    intro c c' h
    exact (Prod.mk.inj (Prod.mk.inj h).1).2
  · rintro ⟨⟨i, c⟩, n⟩
    rw [List.mem_filter, mem_grouped]
    simp only [List.mem_map, List.mem_filter, decide_eq_true_eq, Prod.mk.injEq]
    refine ⟨?_, ?_⟩
    · rintro ⟨⟨hin, rfl⟩, rfl⟩
      exact ⟨c, ⟨c.mem_all, hin⟩, ⟨rfl, rfl⟩, rfl⟩
    · rintro ⟨c, ⟨-, hin⟩, ⟨rfl, rfl⟩, rfl⟩
      exact ⟨⟨hin, rfl⟩, rfl⟩

theorem GeoCheck.contribution_zero (c : GeoCheck) : c.contribution 0 = 0 := by
  simp [contribution]

/-- **The scores**: a country that has a signal has the score of its checks. -/
theorem mem_scores {x : ℚ} : (iso, x) ∈ scores signals ↔
    (∃ s ∈ signals, s.iso = iso) ∧ scoreOf signals iso = x := by
  rw [scores, Dict.mem_iff_lookup (Dict.nodup_keys_tally _ _ _)]
  by_cases h : ∃ s ∈ signals, s.iso = iso
  · obtain ⟨s, hs, rfl⟩ := h
    have hg : (s.group, hits signals s.iso s.kind) ∈ grouped signals :=
      mem_grouped.mpr ⟨⟨s, hs, rfl⟩, rfl⟩
    have hlookup := Dict.lookup_tally (fun g => g.1.1) (fun g => g.1.2.contribution g.2) hg
    change _ = some ((((grouped signals).filter fun g => g.1.1 = s.iso).map _).sum) at hlookup
    have hsum : (((grouped signals).filter fun g => g.1.1 = s.iso).map fun g =>
        g.1.2.contribution g.2).sum = scoreOf signals s.iso := by
      rw [((grouped_perm signals s.iso).map _).sum_eq, List.map_map]
      refine sum_map_filter fun c _ hc => ?_
      have hzero : hits signals s.iso c = 0 :=
        List.countP_eq_zero.mpr fun s' hs' h' => hc ⟨s', hs', of_decide_eq_true h'⟩
      rw [Function.comp_apply, hzero]
      exact c.contribution_zero
    rw [← hsum]
    refine (iff_of_eq (congrArg (· = some x) hlookup)).trans ?_
    rw [Option.some.injEq]
    exact ⟨fun h => ⟨⟨s, hs, rfl⟩, h⟩, And.right⟩
  · have hnone : iso ∉ (scores signals).map Prod.fst := by
      rw [scores, Dict.tally, Dict.mem_keys_gather]
      rintro ⟨⟨⟨i, c⟩, n⟩, hg, rfl⟩
      obtain ⟨⟨s, hs, hs'⟩, -⟩ := mem_grouped.mp hg
      exact h ⟨s, hs, congrArg Prod.fst hs'⟩
    rw [← scores, Dict.lookup_eq_none.mpr hnone]
    simp [h]

theorem nodup_keys_scores (signals : List CountrySignal) :
    ((scores signals).map Prod.fst).Nodup := Dict.nodup_keys_tally _ _ _

theorem scoreOf_eq (signals : List CountrySignal) (iso : String) : scoreOf signals iso =
    ((100 * min (hits signals iso .countryName) 3 + 40 * min (hits signals iso .cctld) 3 +
      20 * min (hits signals iso .nationalId) 3 + 20 * min (hits signals iso .iban) 3 +
      10 * min (hits signals iso .phone) 3 : ℕ) : ℚ) := by
  simp only [scoreOf, GeoCheck.all, List.map_cons, List.map_nil, List.sum_cons, List.sum_nil,
    GeoCheck.contribution, GeoCheck.weight, saturateCap]
  push_cast
  ring

theorem hits_pos {c : GeoCheck} : 0 < hits signals iso c ↔ ∃ s ∈ signals, s.group = (iso, c) := by
  simp [hits, List.countP_pos_iff]

/-- Every country that is scored has a score. -/
theorem score_pos {p : String × ℚ} (h : p ∈ scores signals) : 0 < p.2 := by
  obtain ⟨⟨s, hs, hiso⟩, hscore⟩ := mem_scores.mp h
  have hhit : 0 < hits signals p.1 s.kind := hits_pos.mpr ⟨s, hs, by rw [← hiso]; rfl⟩
  rw [← hscore, scoreOf_eq, Nat.cast_pos]
  cases hkind : s.kind <;> rw [hkind] at hhit <;> omega

theorem sum_scores_nonneg {l : List (String × ℚ)} (h : ∀ p ∈ l, 0 < p.2) :
    0 ≤ (l.map Prod.snd).sum := by
  refine List.sum_nonneg fun x hx => ?_
  obtain ⟨p, hp, rfl⟩ := List.mem_map.mp hx
  exact (h p hp).le

/-- Two countries with a score, and the rest. -/
theorem exists_rest {x y : ℚ} (hx : (other, x) ∈ scores signals)
    (hy : (country, y) ∈ scores signals) (hne : other ≠ country) :
    ∃ rest, (scores signals).Perm ((other, x) :: (country, y) :: rest) := by
  have hpair : (country, y) ≠ (other, x) := fun h => hne (congrArg Prod.fst h).symm
  have hy' := (List.mem_erase_of_ne hpair).mpr hy
  exact ⟨_, (List.perm_cons_erase hx).trans ((List.perm_cons_erase hy').cons _)⟩

/-! ## The verdict -/

theorem rankLe_iff {a b : String × ℚ} :
    rankLe a b = true ↔ b.2 < a.2 ∨ a.2 = b.2 ∧ a.1 ≤ b.1 := by
  simp [rankLe]

instance : Std.Total fun a b : String × ℚ => rankLe a b = true where
  total a b := by
    rw [rankLe_iff, rankLe_iff]
    rcases lt_trichotomy a.2 b.2 with hlt | heq | hgt
    · exact Or.inr (Or.inl hlt)
    · rcases le_total a.1 b.1 with hle | hle
      · exact Or.inl (Or.inr ⟨heq, hle⟩)
      · exact Or.inr (Or.inr ⟨heq.symm, hle⟩)
    · exact Or.inl (Or.inl hgt)

instance : IsTrans (String × ℚ) fun a b => rankLe a b = true where
  trans a b c hab hbc := by
    rw [rankLe_iff] at *
    rcases hab with hab | ⟨hab, hle⟩
    · rcases hbc with hbc | ⟨hbc, -⟩
      · exact Or.inl (hbc.trans hab)
      · exact Or.inl (hbc ▸ hab)
    · rcases hbc with hbc | ⟨hbc, hle'⟩
      · exact Or.inl (hab ▸ hbc)
      · exact Or.inr ⟨hab.trans hbc, hle.trans hle'⟩

/-- The leader is a scored country, and no other has a higher score. -/
theorem ranked_head {top : String × ℚ} {rest : List (String × ℚ)}
    (h : ranked signals = top :: rest) :
    top ∈ scores signals ∧ ∀ p ∈ scores signals, p.2 ≤ top.2 := by
  have hperm : (ranked signals).Perm (scores signals) := List.perm_insertionSort _ _
  have hsorted : (ranked signals).Pairwise fun a b => rankLe a b = true :=
    List.pairwise_insertionSort _ _
  rw [h] at hperm hsorted
  refine ⟨hperm.mem_iff.mp List.mem_cons_self, fun p hp => ?_⟩
  rcases List.mem_cons.mp (hperm.mem_iff.mpr hp) with rfl | hrest
  · exact le_refl _
  · rcases rankLe_iff.mp (List.rel_of_pairwise_cons hsorted hrest) with hlt | ⟨heq, -⟩
    · exact hlt.le
    · exact heq.ge

/-- **The verdict** is the country that has the floor and the majority, when there is one. -/
theorem combine_country_iff : (combine signals).1 = some iso ↔ ∃ x, (iso, x) ∈ scores signals ∧
    minScore ≤ x ∧ majority ≤ x / ((scores signals).map Prod.snd).sum := by
  cases hranked : ranked signals with
  | nil =>
    have hnil : scores signals = [] := by
      have hperm : (ranked signals).Perm (scores signals) := List.perm_insertionSort _ _
      rw [hranked] at hperm
      exact hperm.symm.eq_nil
    simp [combine, hranked, hnil]
  | cons top rest =>
    obtain ⟨htop, hmax⟩ := ranked_head hranked
    have hcombine : (combine signals).1 = some iso ↔ minScore ≤ top.2 ∧
        majority ≤ top.2 / ((scores signals).map Prod.snd).sum ∧ top.1 = iso := by
      rw [combine, hranked]
      dsimp only
      split_ifs with hmin hmajority
      · simp [not_le.mpr hmin]
      · simp [not_le.mpr hmajority]
      · simp [not_lt.mp hmin, not_lt.mp hmajority]
    rw [hcombine]
    refine ⟨?_, ?_⟩
    · rintro ⟨hmin, hmajority, rfl⟩
      exact ⟨top.2, htop, hmin, hmajority⟩
    · rintro ⟨x, hx, hmin, hmajority⟩
      have hle : x ≤ top.2 := hmax _ hx
      by_cases hiso : top.1 = iso
      · have hsame : (iso, x) = top := List.inj_on_of_nodup_map (nodup_keys_scores signals) hx htop
          hiso.symm
        subst hsame
        exact ⟨hmin, hmajority, rfl⟩
      · -- two countries cannot both have three fifths
        obtain ⟨others, hperm⟩ := exists_rest hx htop (Ne.symm hiso)
        have hothers : 0 ≤ (others.map Prod.snd).sum := by
          refine sum_scores_nonneg fun p hp => score_pos (hperm.mem_iff.mpr ?_)
          exact List.mem_cons_of_mem _ (List.mem_cons_of_mem _ hp)
        rw [(hperm.map Prod.snd).sum_eq, List.map_cons, List.map_cons, List.sum_cons,
          List.sum_cons] at hmajority
        have hx0 : 0 < x := score_pos hx
        rw [majority, div_le_div_iff₀ (by norm_num) (by linarith)] at hmajority
        linarith

theorem GeoCheck.contribution_pos (c : GeoCheck) {n : ℕ} (h : 0 < n) : 0 < c.contribution n := by
  have hmin : 0 < min n saturateCap := lt_min h (by decide)
  exact mul_pos c.weight_pos (Nat.cast_pos.mpr hmin)

/-- A country that contributes has a best check. -/
theorem bestKind_isSome {groups : List ((String × GeoCheck) × ℕ)} {g : (String × GeoCheck) × ℕ}
    (hpos : ∀ g ∈ groups, 0 < g.1.2.contribution g.2) (h : g ∈ groups) :
    ((groups.foldl (fun (best : List (String × ℚ × GeoCheck)) g =>
      if ((best.lookup g.1.1).map Prod.fst).getD 0 < g.1.2.contribution g.2 then
        Dict.assign best g.1.1 (g.1.2.contribution g.2, g.1.2)
      else best) []).lookup g.1.1).isSome := by
  induction groups using List.reverseRec with
  | nil => cases h
  | append_singleton groups g' ih =>
    have ih := ih fun g hg => hpos g (List.mem_append_left _ hg)
    rw [List.foldl_concat]
    split_ifs with hless
    · rw [Dict.lookup_assign]
      split_ifs with hiso
      · rfl
      · rcases List.mem_append.mp h with h | h
        · exact ih h
        · exact absurd (congrArg (·.1.1) (List.mem_singleton.mp h)) hiso
    · rcases List.mem_append.mp h with h | h
      · exact ih h
      · -- a first contribution beats none
        obtain rfl := List.mem_singleton.mp h
        have hg := hpos g (List.mem_append_right _ h)
        by_contra hnone
        rw [Option.not_isSome_iff_eq_none.mp hnone] at hless
        exact hless hg

/-- **No key error**: a country that the verdict resolves to has a check that decided it. -/
theorem decidedBy_isSome (h : (combine signals).1 = some iso) :
    (combine signals).2.2.1.isSome := by
  obtain ⟨x, hx, -⟩ := combine_country_iff.mp h
  obtain ⟨⟨s, hs, rfl⟩, -⟩ := mem_scores.mp hx
  have hpos : ∀ g ∈ grouped signals, 0 < g.1.2.contribution g.2 := by
    rintro ⟨⟨i, c⟩, n⟩ hg
    obtain ⟨hhit, rfl⟩ := mem_grouped.mp hg
    exact c.contribution_pos (hits_pos.mpr hhit)
  have hbest : ((bestKind signals).lookup s.iso).isSome :=
    bestKind_isSome (g := (s.group, hits signals s.iso s.kind)) hpos
      (mem_grouped.mpr ⟨⟨s, hs, rfl⟩, rfl⟩)
  rw [combine] at h ⊢
  cases hranked : ranked signals with
  | nil =>
    rw [hranked] at h
    cases h
  | cons top rest =>
    rw [hranked] at h
    dsimp only at h ⊢
    split_ifs at h ⊢ with hmin hmajority
    have htop : top.1 = s.iso := Option.some.inj h
    rw [Option.isSome_map, htop]
    exact hbest

/-! ## Titles -/

/-- The title names one country, and has no domain that points to one. -/
structure NamedInTitle (country : String) (signals : List CountrySignal) : Prop where
  named : ∃ s ∈ signals, s.kind = .countryName
  one : ∀ s ∈ signals, s.kind = .countryName → s.iso = country
  noCctld : ∀ s ∈ signals, s.kind ≠ .cctld

/-- The title names its country once, the body has no signal for it, and all that the body has is
for one other country, to which every check in the body saturates. -/
structure Outvoted (country : String) (signals : List CountrySignal) (other : String) : Prop where
  ne : other ≠ country
  once : hits signals country .countryName = 1
  body : ∀ s ∈ signals, s.kind ≠ .countryName → s.iso = other
  nationalIds : 3 ≤ hits signals other .nationalId
  ibans : 3 ≤ hits signals other .iban
  phones : 3 ≤ hits signals other .phone

theorem eq_zero_of_min_eq_zero {n : ℕ} (h : min n 3 = 0) : n = 0 := by omega

/-- Three times one name is twice what the body can give, so the body gives all of it. -/
theorem saturated_of_le {n d i p d' i' p' : ℕ} (hn : 0 < n) (hd' : d' ≤ 3) (hi' : i' ≤ 3)
    (hp' : p' ≤ 3)
    (hle : 3 * (100 * n + 20 * d + 20 * i + 10 * p) ≤ 2 * (20 * d' + 20 * i' + 10 * p')) :
    n = 1 ∧ d = 0 ∧ i = 0 ∧ p = 0 ∧ d' = 3 ∧ i' = 3 ∧ p' = 3 := by
  omega

section NamedInTitle

variable (h : NamedInTitle country signals)

include h

theorem NamedInTitle.hits_country : 0 < hits signals country .countryName := by
  obtain ⟨s, hs, hkind⟩ := h.named
  exact hits_pos.mpr ⟨s, hs, Prod.ext (h.one s hs hkind) hkind⟩

theorem NamedInTitle.mem_country : (country, scoreOf signals country) ∈ scores signals := by
  obtain ⟨s, hs, hkind⟩ := h.named
  exact mem_scores.mpr ⟨⟨s, hs, h.one s hs hkind⟩, rfl⟩

theorem NamedInTitle.hits_cctld (iso : String) : hits signals iso .cctld = 0 :=
  List.countP_eq_zero.mpr fun s hs hgroup =>
    h.noCctld s hs (congrArg Prod.snd (of_decide_eq_true hgroup))

theorem NamedInTitle.hits_other (hne : other ≠ country) : hits signals other .countryName = 0 := by
  refine List.countP_eq_zero.mpr fun s hs hgroup => hne ?_
  have hgroup := of_decide_eq_true hgroup
  exact (congrArg Prod.fst hgroup).symm.trans (h.one s hs (congrArg Prod.snd hgroup))

/-- A verdict for another country takes every point that the body can give. -/
theorem NamedInTitle.outvoted (hne : other ≠ country) (hother : (combine signals).1 = some other) :
    Outvoted country signals other := by
  obtain ⟨x, hx, -, hmajority⟩ := combine_country_iff.mp hother
  obtain ⟨rest, hperm⟩ := exists_rest hx h.mem_country hne
  have hrest : ∀ p ∈ rest, 0 < p.2 := fun p hp =>
    score_pos (hperm.mem_iff.mpr (List.mem_cons_of_mem _ (List.mem_cons_of_mem _ hp)))
  have hsum := sum_scores_nonneg hrest
  have hx0 : 0 < x := score_pos hx
  have hy0 : 0 < scoreOf signals country := score_pos h.mem_country
  rw [(hperm.map Prod.snd).sum_eq, List.map_cons, List.map_cons, List.sum_cons, List.sum_cons,
    majority, div_le_div_iff₀ (by norm_num) (by linarith)] at hmajority
  obtain ⟨-, rfl⟩ := mem_scores.mp hx
  -- the country has a hundred at least, the other a hundred and fifty at most
  have hle : 3 * scoreOf signals country ≤ 2 * scoreOf signals other := by linarith
  have hname := h.hits_country
  rw [scoreOf_eq, scoreOf_eq, h.hits_cctld, h.hits_cctld, h.hits_other hne] at hle hmajority
  norm_cast at hle
  simp only [Nat.zero_min, mul_zero, add_zero, zero_add] at hle
  have hname' : 0 < min (hits signals country .countryName) 3 := lt_min hname (by decide)
  obtain ⟨hone, hid, hiban, hphone, hid', hiban', hphone'⟩ :=
    saturated_of_le hname' (Nat.min_le_right _ 3) (Nat.min_le_right _ 3) (Nat.min_le_right _ 3) hle
  have honce : hits signals country .countryName = 1 := by omega
  have hnone : hits signals country .nationalId = 0 ∧ hits signals country .iban = 0 ∧
      hits signals country .phone = 0 :=
    ⟨eq_zero_of_min_eq_zero hid, eq_zero_of_min_eq_zero hiban, eq_zero_of_min_eq_zero hphone⟩
  have hall : 3 ≤ hits signals other .nationalId ∧ 3 ≤ hits signals other .iban ∧
      3 ≤ hits signals other .phone :=
    ⟨min_eq_right_iff.mp hid', min_eq_right_iff.mp hiban', min_eq_right_iff.mp hphone'⟩
  have hnil : rest = [] := by
    obtain ⟨hid, hiban, hphone⟩ := hall
    rw [honce, hnone.1, hnone.2.1, hnone.2.2, min_eq_right hid, min_eq_right hiban,
      min_eq_right hphone] at hmajority
    norm_num at hmajority
    cases rest with
    | nil => rfl
    | cons p rest =>
      have hp := hrest p List.mem_cons_self
      have hsum' := sum_scores_nonneg fun q hq => hrest q (List.mem_cons_of_mem p hq)
      rw [List.map_cons, List.sum_cons] at hmajority
      linarith
  refine ⟨hne, honce, fun s hs hkind => ?_, hall.1, hall.2.1, hall.2.2⟩
  have hiso := hperm.mem_iff.mp (mem_scores.mpr ⟨⟨s, hs, rfl⟩, rfl⟩)
  rw [hnil, List.mem_pair] at hiso
  rcases hiso with hiso | hiso
  · exact congrArg Prod.fst hiso
  · have hcountry : s.iso = country := congrArg Prod.fst hiso
    have hhit : 0 < hits signals country s.kind := hits_pos.mpr ⟨s, hs, Prod.ext hcountry rfl⟩
    cases hc : s.kind <;> rw [hc] at hhit
    · exact absurd hc hkind
    · exact absurd hc (h.noCctld s hs)
    · omega
    · omega
    · omega

/-- Where the body takes every point, the verdict is its country. -/
theorem NamedInTitle.combine_outvoted (hout : Outvoted country signals other) :
    (combine signals).1 = some other := by
  have hother : (other, scoreOf signals other) ∈ scores signals := by
    have hids := hout.nationalIds
    obtain ⟨s, hs, hgroup⟩ := hits_pos.mp (show 0 < hits signals other .nationalId by omega)
    exact mem_scores.mpr ⟨⟨s, hs, congrArg Prod.fst hgroup⟩, rfl⟩
  obtain ⟨rest, hperm⟩ := exists_rest hother h.mem_country hout.ne
  have hnil : rest = [] := by
    refine List.eq_nil_iff_forall_not_mem.mpr fun p hp => ?_
    have hkeys := (hperm.map Prod.fst).nodup_iff.mp (nodup_keys_scores signals)
    simp only [List.map_cons, List.nodup_cons, List.mem_cons, not_or] at hkeys
    have hmem := List.mem_map_of_mem (f := Prod.fst) hp
    obtain ⟨⟨s, hs, hiso⟩, -⟩ := mem_scores.mp (hperm.mem_iff.mpr
      (List.mem_cons_of_mem _ (List.mem_cons_of_mem _ hp)))
    by_cases hkind : s.kind = .countryName
    · rw [← hiso, h.one s hs hkind] at hmem
      exact hkeys.2.1 hmem
    · rw [← hiso, hout.body s hs hkind] at hmem
      exact hkeys.1.2 hmem
  have hnone {c : GeoCheck} (hc : c ≠ .countryName) : hits signals country c = 0 := by
    refine List.countP_eq_zero.mpr fun s hs hgroup => hout.ne ?_
    have hgroup := of_decide_eq_true hgroup
    have hcountry : s.iso = country := congrArg Prod.fst hgroup
    have hkind : s.kind = c := congrArg Prod.snd hgroup
    rw [← hcountry]
    exact (hout.body s hs (hkind ▸ hc)).symm
  have hx : scoreOf signals other = 150 := by
    rw [scoreOf_eq, h.hits_cctld, h.hits_other hout.ne, min_eq_right hout.nationalIds,
      min_eq_right hout.ibans, min_eq_right hout.phones]
    norm_num
  have hy : scoreOf signals country = 100 := by
    rw [scoreOf_eq, hout.once, hnone (by decide), hnone (by decide), hnone (by decide),
      hnone (by decide)]
    norm_num
  refine combine_country_iff.mpr ⟨_, hother, ?_, ?_⟩
  · rw [hx, minScore]
    norm_num
  · rw [(hperm.map Prod.snd).sum_eq, hnil, hx, hy, majority]
    norm_num

end NamedInTitle

/-- **A title that names one country decides**, unless the body gives every point that it can to one
other country, against a single mention in the title. -/
theorem title_decides_iff (h : NamedInTitle country signals) :
    (∀ other, (combine signals).1 = some other → other = country) ↔
      ¬ ∃ other, Outvoted country signals other := by
  refine ⟨?_, ?_⟩
  · rintro hdecides ⟨other, hout⟩
    exact hout.ne (hdecides other (h.combine_outvoted hout))
  · intro hnot other hother
    by_contra hne
    exact hnot ⟨other, h.outvoted hne hother⟩

/-- Three signals of a check. -/
def threefold (iso : String) (c : GeoCheck) : List CountrySignal :=
  c.signals [(iso, "1"), (iso, "2"), (iso, "3")]

/-- One mention of Peru, in the title of a dump with national ids, bank accounts and phones. -/
def peruDump : List CountrySignal :=
  GeoCheck.countryName.signals [("PE", "Peru")] ++ threefold "CL" .nationalId ++
    threefold "CL" .iban ++ threefold "CL" .phone

theorem peruDump_named : NamedInTitle "PE" peruDump where
  named := by decide
  one := by decide
  noCctld := by decide

/-- Peru in the title, and one Chilean id in the body. -/
def peruWithId : List CountrySignal :=
  GeoCheck.countryName.signals [("PE", "Peru")] ++ GeoCheck.nationalId.signals [("CL", "1")]

theorem peruWithId_named : NamedInTitle "PE" peruWithId where
  named := by decide
  one := by decide
  noCctld := by decide

/-- The title of a single mention decides: one id in the body is less. -/
theorem title_decides_one_id : NamedInTitle "PE" peruWithId ∧
    ∀ other, (combine peruWithId).1 = some other → other = "PE" :=
  ⟨peruWithId_named, (title_decides_iff peruWithId_named).mpr fun ⟨_, hout⟩ =>
    absurd hout.ibans (by simp [peruWithId, hits, GeoCheck.signals, CountrySignal.group])⟩

/-- The dump is attributed to Chile. -/
theorem peruDump_outvoted : ¬ ∀ country signals, NamedInTitle country signals →
    ∀ other, (combine signals).1 = some other → other = country := by
  intro h
  have hchile : (combine peruDump).1 = some "CL" := by decide +kernel
  exact absurd (h "PE" peruDump peruDump_named "CL" hchile) (by decide)

end Eyenet
