import Eyenet.CandidateJoin
import Eyenet.Identity
import Mathlib.Data.List.Sort

/-!
# Memberships of collectors

Which collectors are in which groups (`sqlmodel_repo/memberships.py`). A membership is opened with
a join and closed on a departure, and no row is ever deleted.

* `Memberships.openMembership_columns` — an open is the one that a join makes.
* `Memberships.mem_closeMembership` — what a close leaves of the table.
* `Memberships.mem_listActiveMemberships` — what a listing shows.
-/

namespace Eyenet

/-- A row of `collector_group_membership` with its key, and why the collector left. -/
structure GroupMembership extends MembershipRow where
  id : Uuid
  leftReason : Option String
  deriving DecidableEq

/-- The columns of a collector that those who look at memberships read. -/
structure FleetCollector where
  id : Uuid
  kind : SourceKind
  identityId : Uuid
  /-- its config's `max_auto_join_depth`, if there is one, as `int` reads it, if it does -/
  configDepth : Option (Option ℤ)
  deriving DecidableEq

/-- `collector_group_membership` -/
abbrev Memberships := Table GroupMembership.id

namespace Memberships

variable (t : Memberships)

/-- The active memberships of the collector in the group. -/
def activeIn (collectorId groupId : Uuid) : List GroupMembership :=
  t.rows.filter fun m => m.collectorId = collectorId ∧ m.groupId = groupId ∧ m.leftAt = none

/-- `open_membership`; `none` is the `ValueError` for a collector that is in the group, the error
of `one_or_none` for one that is in it twice, or a key that is taken. -/
def openMembership (m : GroupMembership) : Option Memberships :=
  if t.activeIn m.collectorId m.groupId ≠ [] then none else t.insert m

/-- `close_membership`; `none` is the `ValueError` for a collector that is not in the group, or
the error of `one_or_none` for one that is in it twice. -/
def closeMembership (collectorId groupId : Uuid) (leftAt : ℤ) (leftReason : String) :
    Option Memberships :=
  match t.activeIn collectorId groupId with
  | [m] => some (t.put { m with leftAt := some leftAt, leftReason := some leftReason })
  | _ => none

/-- `list_active_memberships` -/
def listActiveMemberships (collectorId groupId : Option Uuid) : List GroupMembership :=
  (t.rows.filter fun m =>
    m.leftAt = none && collectorId.all (· = m.collectorId) && groupId.all (· = m.groupId))
    |>.insertionSort fun a b => a.joinedAt ≤ b.joinedAt

/-- The memberships as the join's model has them. -/
def columns : List MembershipRow := t.rows.map GroupMembership.toMembershipRow

variable {t} {t' : Memberships} {m x : GroupMembership} {collectorId groupId : Uuid}

theorem mem_activeIn : m ∈ t.activeIn collectorId groupId ↔
    m ∈ t ∧ m.collectorId = collectorId ∧ m.groupId = groupId ∧ m.leftAt = none := by
  rw [activeIn, List.mem_filter, decide_eq_true_eq, Table.mem_rows]

theorem mem_listActiveMemberships {collectorId groupId : Option Uuid} :
    m ∈ t.listActiveMemberships collectorId groupId ↔
      m ∈ t ∧ m.leftAt = none ∧ (∀ c ∈ collectorId, c = m.collectorId) ∧
        ∀ g ∈ groupId, g = m.groupId := by
  rw [listActiveMemberships, List.mem_insertionSort, List.mem_filter, Table.mem_rows]
  simp [Option.all_eq_true, and_assoc]

theorem listActiveMemberships_eq_nil (t : Memberships) (collectorId groupId : Uuid) :
    t.listActiveMemberships (some collectorId) (some groupId) = [] ↔
      t.activeIn collectorId groupId = [] := by
  simp only [List.eq_nil_iff_forall_not_mem, mem_listActiveMemberships, mem_activeIn]
  simp [eq_comm, and_comm]

theorem nodup_listActiveMemberships {collectorId groupId : Option Uuid} :
    (t.listActiveMemberships collectorId groupId).Nodup := by
  rw [listActiveMemberships, (List.perm_insertionSort _ _).nodup_iff]
  exact t.nodup.of_map.filter _

/-- Opening a membership is what `openMembership` of a join does to the columns, as long as the
key is free. -/
theorem openMembership_columns (h : t.get m.id = none) :
    (t.openMembership m).map columns = Eyenet.openMembership t.columns m.toMembershipRow := by
  obtain ⟨t', ht'⟩ := Table.insert_isSome h
  have hactive : (t.activeIn m.collectorId m.groupId ≠ []) ↔ ∃ x ∈ t.columns,
      x.collectorId = m.collectorId ∧ x.groupId = m.groupId ∧ x.leftAt = none := by
    rw [ne_eq, List.eq_nil_iff_forall_not_mem, columns]
    simp [mem_activeIn, Table.mem_rows]
  rw [openMembership, Eyenet.openMembership]
  by_cases hin : t.activeIn m.collectorId m.groupId ≠ []
  · rw [if_pos hin, if_pos (hactive.mp hin)]
    rfl
  · rw [if_neg hin, if_neg (hin ∘ hactive.mpr), ht']
    simp [columns, (Table.insert_eq_some ht').2]

/-- An open succeeds when the collector is not in the group and the key is free. -/
theorem openMembership_isSome (hactive : t.activeIn m.collectorId m.groupId = [])
    (hid : t.get m.id = none) : ∃ t', t.openMembership m = some t' := by
  rw [openMembership, if_neg (not_not_intro hactive)]
  exact Table.insert_isSome hid

theorem openMembership_eq_some (h : t.openMembership m = some t') :
    t.activeIn m.collectorId m.groupId = [] ∧ t.get m.id = none := by
  rw [openMembership] at h
  split_ifs at h with hactive
  exact ⟨not_not.mp hactive, (Table.insert_eq_some h).1⟩

/-- What an open leaves of the table. -/
theorem mem_openMembership (h : t.openMembership m = some t') : x ∈ t' ↔ x ∈ t ∨ x = m := by
  rw [openMembership] at h
  split_ifs at h
  exact Table.mem_insert h

/-- What a close leaves of the table: the one active membership has a departure, and the others
are as they were. -/
theorem mem_closeMembership {leftAt : ℤ} {leftReason : String}
    (h : t.closeMembership collectorId groupId leftAt leftReason = some t') :
    ∃ m ∈ t, t.activeIn collectorId groupId = [m] ∧ ∀ x, x ∈ t' ↔
      x = { m with leftAt := some leftAt, leftReason := some leftReason } ∨ (x ∈ t ∧ x ≠ m) := by
  rw [closeMembership] at h
  split at h
  · next m hm =>
    have hmem : m ∈ t := (mem_activeIn.mp (hm ▸ List.mem_singleton_self m)).1
    obtain rfl := Option.some.inj h
    exact ⟨m, hmem, hm, fun x => Table.mem_put hmem rfl⟩
  · cases h

end Memberships

end Eyenet
