import Eyenet.Enums
import Eyenet.OffsetPaging
import Mathlib.Data.List.DropRight

/-!
# The incident feed

`recent_incidents` pages through the incidents that match an operator's filters, newest first, and
`count_incidents` counts them (`storage/sqlmodel_repo/incidents.py`). The order is on
`classified_at` alone, so incidents of one moment may come in another order in every request.

* `IncidentFeed.mem_applyIncidentFilters` — the joins find every matching incident, and
  `IncidentFeed.nodup_applyIncidentFilters` none of them twice.
* `IncidentFeed.feed_complete_iff` — when the pages hold every matching incident exactly once.
-/

namespace Eyenet

namespace IncidentFeed

/-! ## Tables -/

/-- A row of the incident table. -/
structure IncidentTable where
  id : Uuid
  messageId : Uuid
  labels : List String
  classifiedAt : ℤ
  deriving DecidableEq

/-- The columns of a message that the filters read. -/
structure MessageTable where
  id : Uuid
  groupId : Uuid
  sourceId : Uuid
  body : Option String
  deriving DecidableEq

/-- The columns of a geo verdict that the filters read. -/
structure MessageGeoTable where
  messageId : Uuid
  country : Option String
  deriving DecidableEq

/-- The tables, under the keys that the schema declares unique. -/
structure Tables where
  incidents : List IncidentTable
  messages : List MessageTable
  geo : List MessageGeoTable
  incidents_nodup : (incidents.map (·.id)).Nodup
  messages_nodup : (messages.map (·.id)).Nodup
  geo_nodup : (geo.map (·.messageId)).Nodup

/-- What the backend decides: `cast(labels) LIKE '%"label"%'`, and its full-text search. -/
structure Dialect where
  labelLike : String → List String → Bool
  bodyMatch : String → MessageTable → Bool

/-- The filters of the feed; an empty one is not applied. -/
structure Filters where
  labels : List String
  q : String
  groupIds : List Uuid
  sourceIds : List Uuid
  victimCountries : List String
  excludeBodyless : Bool

/-- `length(trim(body)) > 0`, which is not true of a null body. -/
def hasBody (body : Option String) : Bool :=
  body.any fun text => 0 < ((text.toList.dropWhile (· = ' ')).rdropWhile (· = ' ')).length

/-! ## Queries -/

section Queries

variable (d : Dialect) (db : Tables) (f : Filters)

/-- The message is joined once, for whichever filter needs it. -/
def joinsMessage : Bool :=
  f.q ≠ "" || !f.groupIds.isEmpty || !f.sourceIds.isEmpty || f.excludeBodyless

/-- What the filters ask of the joined message. -/
def messageMatches (m : MessageTable) : Bool :=
  (f.q = "" || d.bodyMatch f.q m) &&
    (f.groupIds.isEmpty || f.groupIds.contains m.groupId) &&
    (f.sourceIds.isEmpty || f.sourceIds.contains m.sourceId) &&
    (!f.excludeBodyless || hasBody m.body)

/-- What the filters ask of the joined verdict. -/
def geoMatches (g : MessageGeoTable) : Bool := g.country.any fun c => f.victimCountries.contains c

/-- `WHERE labels LIKE … OR …` -/
def whereLabels (rows : List IncidentTable) : List IncidentTable :=
  if f.labels.isEmpty then rows
  else rows.filter fun i => f.labels.any fun label => d.labelLike label i.labels

/-- `JOIN message`, and what is asked of it. -/
def joinMessage (rows : List IncidentTable) : List IncidentTable :=
  if joinsMessage f then
    rows.flatMap fun i =>
      (db.messages.filter fun m => i.messageId = m.id && messageMatches d f m).map fun _ => i
  else rows

/-- `JOIN message_geo`, and what is asked of it. -/
def joinGeo (rows : List IncidentTable) : List IncidentTable :=
  if f.victimCountries.isEmpty then rows
  else
    rows.flatMap fun i =>
      (db.geo.filter fun g => i.messageId = g.messageId && geoMatches f g).map fun _ => i

/-- `_apply_incident_filters`: the incidents of the joined rows. -/
def applyIncidentFilters : List IncidentTable :=
  joinGeo db f (joinMessage d db f (whereLabels d f db.incidents))

/-- A result of `recent_incidents`, in an order that the database may choose. -/
def RecentIncidents (limit offset : ℕ) (page : List IncidentTable) : Prop :=
  OffsetPaging.IsPage IncidentTable.classifiedAt (applyIncidentFilters d db f) offset limit page

/-- `count_incidents` -/
def countIncidents : ℕ := (applyIncidentFilters d db f).length

/-- The incident matches the filters. -/
structure Matches (i : IncidentTable) : Prop where
  labels : f.labels ≠ [] → ∃ label ∈ f.labels, d.labelLike label i.labels = true
  message : joinsMessage f = true →
    ∃ m ∈ db.messages, i.messageId = m.id ∧ messageMatches d f m = true
  geo : f.victimCountries ≠ [] →
    ∃ g ∈ db.geo, i.messageId = g.messageId ∧ geoMatches f g = true

/-- The pages of size `l` list every matching incident exactly once, whatever order each request
gets, and their length is the count. -/
def FeedComplete (l : ℕ) : Prop :=
  ∀ pages : ℕ → List IncidentTable, (∀ k, RecentIncidents d db f l (k * l) (pages k)) →
    ∀ m, countIncidents d db f ≤ m * l →
      (∀ i, i ∈ (List.range m).flatMap pages ↔ i ∈ db.incidents ∧ Matches d db f i) ∧
        ((List.range m).flatMap pages).Nodup ∧
        ((List.range m).flatMap pages).length = countIncidents d db f

end Queries

/-! ## Joins -/

section Joins

variable {α β κ : Type*} [DecidableEq κ] {foreign : α → κ} {key : β → κ} {p : β → Bool}
  {xs : List α} {ys : List β}

/-- A row finds the rows of its key. -/
theorem mem_join {x : α} :
    x ∈ xs.flatMap (fun x => (ys.filter fun y => foreign x = key y && p y).map fun _ => x) ↔
      x ∈ xs ∧ ∃ y ∈ ys, foreign x = key y ∧ p y = true := by
  simp only [List.mem_flatMap, List.mem_map, List.mem_filter, Bool.and_eq_true, decide_eq_true_eq]
  constructor
  · rintro ⟨x', hx, y, ⟨hy, hkey⟩, rfl⟩
    exact ⟨hx, y, hy, hkey⟩
  · rintro ⟨hx, y, hy, hkey⟩
    exact ⟨x, hx, y, ⟨hy, hkey⟩, rfl⟩

/-- A join on a unique key repeats no row. -/
theorem nodup_join (hxs : xs.Nodup) (hys : (ys.map key).Nodup) :
    (xs.flatMap fun x => (ys.filter fun y => foreign x = key y && p y).map fun _ => x).Nodup := by
  rw [List.nodup_flatMap]
  constructor
  · intro x hx
    have hle : (ys.filter fun y => foreign x = key y && p y).length ≤ 1 := by
      have hsub : ((ys.filter fun y => foreign x = key y && p y).map key).Nodup :=
        hys.sublist (List.filter_sublist.map key)
      have hsame : ∀ k ∈ (ys.filter fun y => foreign x = key y && p y).map key, k = foreign x := by
        intro k hk
        obtain ⟨y, hy, rfl⟩ := List.mem_map.mp hk
        have hy' := (List.mem_filter.mp hy).2
        rw [Bool.and_eq_true, decide_eq_true_eq] at hy'
        exact hy'.1.symm
      rw [List.eq_replicate_of_mem hsame, List.nodup_replicate, List.length_map] at hsub
      exact hsub
    rw [List.map_const', List.nodup_replicate]
    exact hle
  · apply hxs.imp
    intro x x' hne z hz hz'
    obtain ⟨-, -, rfl⟩ := List.mem_map.mp hz
    obtain ⟨-, -, rfl⟩ := List.mem_map.mp hz'
    exact hne rfl

end Joins

section Feed

variable {d : Dialect} {db : Tables} {f : Filters} {rows : List IncidentTable} {i : IncidentTable}

theorem mem_whereLabels : i ∈ whereLabels d f rows ↔ i ∈ rows ∧
    (f.labels ≠ [] → ∃ label ∈ f.labels, d.labelLike label i.labels = true) := by
  rw [whereLabels]
  split_ifs with hlabels
  · simp [List.isEmpty_iff.mp hlabels]
  · rw [List.isEmpty_iff] at hlabels
    simp [hlabels]

theorem mem_joinMessage : i ∈ joinMessage d db f rows ↔ i ∈ rows ∧
    (joinsMessage f = true →
      ∃ m ∈ db.messages, i.messageId = m.id ∧ messageMatches d f m = true) := by
  rw [joinMessage]
  split_ifs with hjoins
  · rw [mem_join]
    simp [hjoins]
  · simp [hjoins]

theorem mem_joinGeo : i ∈ joinGeo db f rows ↔ i ∈ rows ∧
    (f.victimCountries ≠ [] →
      ∃ g ∈ db.geo, i.messageId = g.messageId ∧ geoMatches f g = true) := by
  rw [joinGeo]
  split_ifs with hempty
  · simp [List.isEmpty_iff.mp hempty]
  · rw [List.isEmpty_iff] at hempty
    rw [mem_join]
    simp [hempty]

/-- The joins find every matching incident. -/
theorem mem_applyIncidentFilters :
    i ∈ applyIncidentFilters d db f ↔ i ∈ db.incidents ∧ Matches d db f i := by
  rw [applyIncidentFilters, mem_joinGeo, mem_joinMessage, mem_whereLabels]
  constructor
  · rintro ⟨⟨⟨hi, hlabels⟩, hmessage⟩, hgeo⟩
    exact ⟨hi, hlabels, hmessage, hgeo⟩
  · rintro ⟨hi, hlabels, hmessage, hgeo⟩
    exact ⟨⟨⟨hi, hlabels⟩, hmessage⟩, hgeo⟩

/-- The joins repeat no incident. -/
theorem nodup_applyIncidentFilters : (applyIncidentFilters d db f).Nodup := by
  have hlabelled : (whereLabels d f db.incidents).Nodup := by
    rw [whereLabels]
    split_ifs
    · exact db.incidents_nodup.of_map _
    · exact (db.incidents_nodup.of_map _).filter _
  have hjoined : (joinMessage d db f (whereLabels d f db.incidents)).Nodup := by
    rw [joinMessage]
    split_ifs
    · exact nodup_join hlabelled db.messages_nodup
    · exact hlabelled
  rw [applyIncidentFilters, joinGeo]
  split_ifs
  · exact hjoined
  · exact nodup_join hjoined db.geo_nodup

end Feed

/-! ## The feed -/

/-- The pages are complete exactly when no page ends between two matching incidents of one
moment. -/
theorem feed_complete_iff (d : Dialect) (db : Tables) (f : Filters) (l : ℕ) (hl : 0 < l) :
    FeedComplete d db f l ↔ ∀ k, 0 < k → k * l < countIncidents d db f →
      ∀ t, ¬OffsetPaging.Straddles IncidentTable.classifiedAt (applyIncidentFilters d db f)
        (k * l) t := by
  rw [countIncidents, ← OffsetPaging.pages_complete_iff nodup_applyIncidentFilters hl]
  apply forall_congr'
  intro pages
  apply imp_congr Iff.rfl
  apply forall_congr'
  intro m
  apply imp_congr Iff.rfl
  constructor
  · rintro ⟨hmem, hnodup, -⟩
    apply (List.perm_ext_iff_of_nodup hnodup nodup_applyIncidentFilters).mpr
    intro i
    rw [hmem, mem_applyIncidentFilters]
  · intro hperm
    refine ⟨?_, hperm.nodup_iff.mpr nodup_applyIncidentFilters, hperm.length_eq⟩
    intro i
    rw [hperm.mem_iff, mem_applyIncidentFilters]

/-- Incidents of distinct moments. -/
def twoMoments : Tables where
  incidents := [⟨1, 1, ["leak"], 10⟩, ⟨2, 2, ["leak"], 20⟩]
  messages := []
  geo := []
  incidents_nodup := by decide
  messages_nodup := by decide
  geo_nodup := by decide

/-- Incidents that one page of a backfill has stamped. -/
def oneMoment : Tables where
  incidents := [⟨1, 1, ["leak"], 10⟩, ⟨2, 2, ["leak"], 10⟩]
  messages := []
  geo := []
  incidents_nodup := by decide
  messages_nodup := by decide
  geo_nodup := by decide

/-- A feed without filters. -/
def unfiltered : Filters := ⟨[], "", [], [], [], false⟩

/-- A backend that finds labels by equality and no text. -/
def plainDialect : Dialect := ⟨fun label labels => labels.contains label, fun _ _ => false⟩

theorem feed_complete_iff_moments :
    FeedComplete plainDialect twoMoments unfiltered 1 ↔
      ∀ k, 0 < k → k * 1 < countIncidents plainDialect twoMoments unfiltered →
        ∀ t, ¬OffsetPaging.Straddles IncidentTable.classifiedAt
          (applyIncidentFilters plainDialect twoMoments unfiltered) (k * 1) t :=
  feed_complete_iff plainDialect twoMoments unfiltered 1 Nat.one_pos

/-- Two incidents of one moment, on pages of one: each request may begin with the first. -/
theorem one_moment_skipped : ¬FeedComplete plainDialect oneMoment unfiltered 1 := by
  intro h
  have hpages := h (fun k => if k < 2 then [⟨1, 1, ["leak"], 10⟩] else []) ?_ 2 (by decide)
  · exact absurd hpages.2.1 (by decide)
  · intro k
    match k with
    | 0 =>
      exact ⟨[⟨1, 1, ["leak"], 10⟩, ⟨2, 2, ["leak"], 10⟩], ⟨by decide, by decide⟩, rfl⟩
    | 1 =>
      exact ⟨[⟨2, 2, ["leak"], 10⟩, ⟨1, 1, ["leak"], 10⟩], ⟨by decide, by decide⟩, rfl⟩
    | k + 2 =>
      refine ⟨[⟨1, 1, ["leak"], 10⟩, ⟨2, 2, ["leak"], 10⟩], ⟨by decide, by decide⟩, ?_⟩
      rw [if_neg (by omega), Nat.mul_one, List.drop_eq_nil_of_le (by simp), List.take_nil]

end IncidentFeed

end Eyenet
