import Mathlib.Data.List.Nodup

/-!
# Tables with a primary key

A table is a list of rows, in the order of their insertion, no two of which have the same key. An
insertion of a key that is there is refused; a write replaces the row with its key.

* `Table.get_eq_some` — a key leads to at most one row.
* `Table.mem_insert`, `Table.mem_put`, `Table.mem_save`, `Table.mem_erase` — what a table holds
  after an operation.
-/

namespace Eyenet

universe u v

/-- Rows under a primary key. -/
@[ext]
structure Table {ρ : Type u} {κ : Type v} (key : ρ → κ) where
  rows : List ρ
  nodup : (rows.map key).Nodup

namespace Table

variable {ρ : Type u} {κ : Type v} {key : ρ → κ}

instance : Membership ρ (Table key) := ⟨fun t r => r ∈ t.rows⟩

theorem mem_rows {t : Table key} {r : ρ} : r ∈ t.rows ↔ r ∈ t := Iff.rfl

/-- The table without rows. -/
def empty : Table key := ⟨[], List.nodup_nil⟩

@[simp] theorem not_mem_empty (r : ρ) : r ∉ (empty : Table key) := List.not_mem_nil

/-- Rows with the same key are one row. -/
theorem eq_of_key {t : Table key} {r r' : ρ} (hr : r ∈ t) (hr' : r' ∈ t) (hkey : key r = key r') :
    r = r' :=
  List.inj_on_of_nodup_map t.nodup hr hr' hkey

instance decidableBAll (t : Table key) (p : ρ → Prop) [DecidablePred p] :
    Decidable (∀ r ∈ t, p r) :=
  List.decidableBAll p t.rows

instance decidableBEx (t : Table key) (p : ρ → Prop) [DecidablePred p] :
    Decidable (∃ r ∈ t, p r) :=
  List.decidableBEx p t.rows

variable [DecidableEq κ]

/-- `SELECT` by primary key. -/
def get (t : Table key) (k : κ) : Option ρ := t.rows.find? fun r => key r = k

theorem get_eq_some {t : Table key} {k : κ} {r : ρ} : t.get k = some r ↔ r ∈ t ∧ key r = k := by
  refine ⟨?_, ?_⟩
  · intro h
    exact ⟨List.mem_of_find?_eq_some h, by simpa using List.find?_some h⟩
  · rintro ⟨hr, rfl⟩
    cases hfind : t.get (key r) with
    | none =>
      have hnone := List.find?_eq_none.mp hfind r hr
      exact absurd (decide_eq_true rfl) hnone
    | some r' =>
      have hkey : key r' = key r := by simpa using List.find?_some hfind
      rw [eq_of_key (List.mem_of_find?_eq_some hfind) hr hkey]

theorem get_eq_none {t : Table key} {k : κ} : t.get k = none ↔ ∀ r ∈ t, key r ≠ k := by
  simp only [get, List.find?_eq_none, decide_eq_true_eq, mem_rows, ne_eq]

theorem get_self {t : Table key} {r : ρ} (hr : r ∈ t) : t.get (key r) = some r :=
  get_eq_some.mpr ⟨hr, rfl⟩

/-- `INSERT`; `none` when the key is taken. -/
def insert (t : Table key) (r : ρ) : Option (Table key) :=
  if h : key r ∈ t.rows.map key then none
  else some ⟨t.rows ++ [r], by
    rw [List.map_append, List.nodup_append]
    refine ⟨t.nodup, List.nodup_singleton _, fun a ha b hb => ?_⟩
    obtain rfl : b = key r := by simpa using hb
    rintro rfl
    exact h ha⟩

theorem insert_eq_some {t t' : Table key} {r : ρ} (h : t.insert r = some t') :
    t.get (key r) = none ∧ t'.rows = t.rows ++ [r] := by
  rw [insert] at h
  split_ifs at h with hkey
  cases h
  refine ⟨get_eq_none.mpr fun x hx hxr => hkey ?_, rfl⟩
  exact hxr ▸ List.mem_map_of_mem hx

/-- An insertion succeeds when the key is free. -/
theorem insert_isSome {t : Table key} {r : ρ} (h : t.get (key r) = none) :
    ∃ t', t.insert r = some t' := by
  rw [insert, dif_neg]
  · exact ⟨_, rfl⟩
  · rw [List.mem_map]
    rintro ⟨x, hx, hkey⟩
    exact get_eq_none.mp h x hx hkey

theorem mem_insert {t t' : Table key} {r x : ρ} (h : t.insert r = some t') :
    x ∈ t' ↔ x ∈ t ∨ x = r := by
  rw [← mem_rows, (insert_eq_some h).2, List.mem_append, List.mem_singleton, mem_rows]

theorem get_insert {t t' : Table key} {r : ρ} (h : t.insert r = some t') (k : κ) :
    t'.get k = if key r = k then some r else t.get k := by
  obtain ⟨hfree, hrows⟩ := insert_eq_some h
  split_ifs with hk
  · exact get_eq_some.mpr ⟨(mem_insert h).mpr (Or.inr rfl), hk⟩
  · simp only [get, hrows, List.find?_append]
    simp [hk]

/-- The insertions of one transaction: all of them, or none. -/
def insertAll (t : Table key) : List ρ → Option (Table key)
  | [] => some t
  | r :: rs => (t.insert r).bind fun t' => t'.insertAll rs

theorem mem_insertAll {t t' : Table key} {rs : List ρ} {x : ρ} (h : t.insertAll rs = some t') :
    x ∈ t' ↔ x ∈ t ∨ x ∈ rs := by
  induction rs generalizing t with
  | nil =>
    obtain rfl := Option.some.inj h
    simp
  | cons r rs ih =>
    obtain ⟨t₁, ht₁, hrest⟩ := Option.bind_eq_some_iff.mp h
    rw [ih hrest, mem_insert ht₁, List.mem_cons, or_assoc]

/-- The insertions succeed when their keys are free and distinct. -/
theorem insertAll_isSome {t : Table key} {rs : List ρ} (hfree : ∀ r ∈ rs, t.get (key r) = none)
    (hdistinct : (rs.map key).Nodup) : ∃ t', t.insertAll rs = some t' := by
  induction rs generalizing t with
  | nil => exact ⟨t, rfl⟩
  | cons r rs ih =>
    obtain ⟨hr, hrs⟩ := List.nodup_cons.mp hdistinct
    obtain ⟨t₁, ht₁⟩ := insert_isSome (hfree r List.mem_cons_self)
    rw [insertAll, ht₁]
    refine ih (fun r' hr' => ?_) hrs
    have hne : key r ≠ key r' := fun heq => hr (heq ▸ List.mem_map_of_mem hr')
    rw [get_insert ht₁, if_neg hne]
    exact hfree r' (List.mem_cons_of_mem r hr')

/-- `UPDATE` of the row with the key of `r`. -/
def put (t : Table key) (r : ρ) : Table key :=
  ⟨t.rows.map fun x => if key x = key r then r else x, by
    rw [List.map_map]
    have hkeys : (key ∘ fun x => if key x = key r then r else x) = key := by
      funext x
      simp only [Function.comp_apply]
      split_ifs with hkey
      · exact hkey.symm
      · rfl
    rw [hkeys]
    exact t.nodup⟩

theorem mem_put {t : Table key} {r r' x : ρ} (hr : r ∈ t) (hkey : key r' = key r) :
    x ∈ t.put r' ↔ x = r' ∨ (x ∈ t ∧ x ≠ r) := by
  rw [← mem_rows, put, List.mem_map]
  refine ⟨?_, ?_⟩
  · rintro ⟨y, hy, rfl⟩
    split_ifs with hyr
    · exact Or.inl rfl
    · exact Or.inr ⟨hy, fun h => hyr (h ▸ hkey.symm)⟩
  · rintro (rfl | ⟨hx, hne⟩)
    · exact ⟨r, hr, if_pos hkey.symm⟩
    · exact ⟨x, hx, if_neg fun h => hne (eq_of_key hx hr (h.trans hkey))⟩

theorem mem_put_self {t : Table key} {r r' : ρ} (hr : r ∈ t) (hkey : key r' = key r) :
    r' ∈ t.put r' :=
  (mem_put hr hkey).mpr (Or.inl rfl)

/-- A write leaves the other rows alone. -/
theorem mem_put_of_ne {t : Table key} {r r' x : ρ} (hr : r ∈ t) (hkey : key r' = key r)
    (hne' : x ≠ r') (hne : x ≠ r) : x ∈ t.put r' ↔ x ∈ t := by
  rw [mem_put hr hkey, or_iff_right hne', and_iff_left hne]

/-- Writing a row as it is changes nothing. -/
theorem put_self {t : Table key} {r : ρ} (hr : r ∈ t) : t.put r = t := by
  apply Table.ext
  rw [put]
  conv_rhs => rw [← List.map_id t.rows]
  refine List.map_congr_left fun x hx => ?_
  split_ifs with hkey
  · exact eq_of_key hr hx hkey.symm
  · rfl

theorem get_put {t : Table key} {r r' : ρ} (hr : r ∈ t) (hkey : key r' = key r) (k : κ) :
    (t.put r').get k = if key r = k then some r' else t.get k := by
  split_ifs with hk
  · exact get_eq_some.mpr ⟨(mem_put hr hkey).mpr (Or.inl rfl), hkey.trans hk⟩
  · apply Option.ext
    intro x
    rw [get_eq_some, get_eq_some, mem_put hr hkey]
    refine ⟨?_, ?_⟩
    · rintro ⟨rfl | ⟨hx, -⟩, hxk⟩
      · exact absurd (hkey.symm.trans hxk) hk
      · exact ⟨hx, hxk⟩
    · rintro ⟨hx, hxk⟩
      exact ⟨Or.inr ⟨hx, fun h => hk (h ▸ hxk)⟩, hxk⟩

/-- `INSERT .. ON CONFLICT DO UPDATE`: the row with the key of `r` becomes `r`. -/
def save (t : Table key) (r : ρ) : Table key :=
  match t.insert r with
  | some t' => t'
  | none => t.put r

/-- Where an insertion is refused there is a row with the key. -/
theorem exists_of_insert_eq_none {t : Table key} {r : ρ} (h : t.insert r = none) :
    ∃ x ∈ t, key x = key r := by
  rw [insert] at h
  split_ifs at h with hkey
  exact List.mem_map.mp hkey

/-- An insertion is refused only when the key is taken. -/
theorem get_ne_none_of_insert_eq_none {t : Table key} {r : ρ} (h : t.insert r = none) :
    t.get (key r) ≠ none := by
  obtain ⟨x, hx, hkey⟩ := exists_of_insert_eq_none h
  exact fun hfree => get_eq_none.mp hfree x hx hkey

theorem mem_save {t : Table key} {r x : ρ} : x ∈ t.save r ↔ x = r ∨ (x ∈ t ∧ key x ≠ key r) := by
  rw [save]
  cases hinsert : t.insert r with
  | some t' =>
    rw [mem_insert hinsert]
    have hfree := get_eq_none.mp (insert_eq_some hinsert).1
    exact ⟨fun h => h.elim (fun hx => Or.inr ⟨hx, hfree x hx⟩) Or.inl,
      fun h => h.elim Or.inr fun hx => Or.inl hx.1⟩
  | none =>
    obtain ⟨y, hy, hyr⟩ := exists_of_insert_eq_none hinsert
    rw [mem_put hy hyr.symm]
    refine or_congr_right (and_congr_right fun hx => not_congr ⟨fun h => h ▸ hyr, fun h => ?_⟩)
    exact eq_of_key hx hy (h.trans hyr.symm)

theorem get_save (t : Table key) (r : ρ) (k : κ) :
    (t.save r).get k = if key r = k then some r else t.get k := by
  rw [save]
  cases hinsert : t.insert r with
  | some t' => exact get_insert hinsert k
  | none =>
    obtain ⟨x, hx, hkey⟩ := exists_of_insert_eq_none hinsert
    rw [← hkey]
    exact get_put hx hkey.symm k

/-- A selection that neither the new nor the old row belongs to stays as it is. -/
theorem filter_save (t : Table key) {r : ρ} {p : ρ → Bool} (hp : ∀ x, key x = key r → p x = false) :
    (t.save r).rows.filter p = t.rows.filter p := by
  rw [save]
  cases hinsert : t.insert r with
  | some t' => simp [(insert_eq_some hinsert).2, hp r rfl]
  | none =>
    have hrows : ∀ l : List ρ,
        (l.map fun x => if key x = key r then r else x).filter p = l.filter p := by
      intro l
      induction l with
      | nil => rfl
      | cons x xs ih =>
        rw [List.map_cons, List.filter_cons, List.filter_cons, ih]
        split_ifs with hkey hr hx hx
        · simp [hp r rfl] at hr
        · simp [hp r rfl] at hr
        · simp [hp x hkey] at hx
        · rfl
        · rfl
        · rfl
    exact hrows t.rows

/-- `UPDATE` of all rows by a function that keeps the keys. -/
def updateAll (t : Table key) (f : ρ → ρ) (hf : ∀ r, key (f r) = key r) : Table key :=
  ⟨t.rows.map f, by
    rw [List.map_map, show key ∘ f = key from funext hf]
    exact t.nodup⟩

theorem get_updateAll (t : Table key) {f : ρ → ρ} (hf : ∀ r, key (f r) = key r) (k : κ) :
    (t.updateAll f hf).get k = (t.get k).map f := by
  simp only [get, updateAll, List.find?_map]
  congr 2
  funext r
  simp [hf]

/-- `DELETE` by primary key. -/
def erase (t : Table key) (k : κ) : Table key :=
  ⟨t.rows.filter fun r => key r ≠ k, t.nodup.sublist (List.filter_sublist.map key)⟩

theorem mem_erase {t : Table key} {k : κ} {x : ρ} : x ∈ t.erase k ↔ x ∈ t ∧ key x ≠ k := by
  rw [← mem_rows, erase, List.mem_filter, decide_eq_true_eq, mem_rows]

theorem get_erase (t : Table key) (k k' : κ) :
    (t.erase k).get k' = if k = k' then none else t.get k' := by
  split_ifs with hk
  · exact get_eq_none.mpr fun r hr => hk ▸ (mem_erase.mp hr).2
  · apply Option.ext
    intro r
    rw [get_eq_some, get_eq_some, mem_erase]
    exact ⟨fun h => ⟨h.1.1, h.2⟩, fun h => ⟨⟨h.1, fun hr => hk (hr.symm.trans h.2)⟩, h.2⟩⟩

end Table

end Eyenet
