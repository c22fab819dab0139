import Eyenet.Enums
import Eyenet.Table
import Mathlib.Order.Interval.Set.Basic
import Mathlib.Data.Rat.Defs
import Mathlib.Algebra.Order.Ring.Rat

/-!
# Linkages

A linkage says that two actors may be one person, by some method
(`sqlmodel_repo/linkages.py`). The table refuses a second linkage of the same pair and method, in
whatever state the first one is.

* `LinkageTable` — the rows, with the constraints of the table as fields.
* `LinkageTable.insertProposedLinkage` — a proposal becomes a new row, or refreshes an open one.
* `LinkageTable.transitionLinkage` — a decision, where `legalTransitions` has it.
* `LinkageTable.insertProposedLinkage_new`, `LinkageTable.insertProposedLinkage_open`,
  `LinkageTable.insertProposedLinkage_decided`, `LinkageTable.transitionLinkage_spec` — what the
  two operations do.
-/

namespace Eyenet

/-! ## States -/

/-- `LinkageState` -/
inductive LinkageState where
  /-- automatic; linker output -/
  | proposed
  /-- operator triage -/
  | suspected
  /-- operator decision; drives the aggregation of personas -/
  | confirmed
  /-- operator decision; terminal -/
  | rejected
  /-- admin; replaced by a newer linkage -/
  | superseded
  deriving DecidableEq, Repr

namespace LinkageState

/-- The member's value. -/
def value : LinkageState → String
  | proposed => "proposed"
  | suspected => "suspected"
  | confirmed => "confirmed"
  | rejected => "rejected"
  | superseded => "superseded"

theorem value_injective : Function.Injective value := by
  intro a b h
  cases a <;> cases b <;> first | rfl | exact absurd h (by decide)

/-- `_LEGAL_TRANSITIONS`, each set in the order of the values, as `sorted` prints it. -/
def legalTransitions : LinkageState → List LinkageState
  | proposed => [confirmed, rejected, superseded, suspected]
  | suspected => [confirmed, rejected]
  | confirmed => []
  | rejected => []
  | superseded => []

end LinkageState

/-! ## JSON columns -/

/-- A value in a JSON object. -/
inductive AttrValue where
  | null
  | text (value : String)
  | number (value : ℚ)
  /-- the text of a UUID -/
  | uuid (value : Uuid)
  /-- the text of a time -/
  | instant (value : ℤ)
  deriving DecidableEq

/-- A JSON object: the value of each key that it has. -/
abbrev Attrs := String → Option AttrValue

namespace Attrs

/-- The object with the given items, the first of a key where it comes twice. -/
def ofList (items : List (String × AttrValue)) : Attrs := fun key => items.lookup key

/-- `{**existing, **attrs}` -/
def merge (existing attrs : Attrs) : Attrs := fun key => (attrs key).or (existing key)

theorem merge_of_isSome {existing attrs : Attrs} {key : String} {value : AttrValue}
    (h : attrs key = some value) : existing.merge attrs key = some value := by
  rw [merge, h, Option.some_or]

end Attrs

/-! ## Rows -/

/-- A similarity; the contracts require `0 ≤ score ≤ 1`. -/
abbrev Score := Set.Icc (0 : ℚ) 1

/-- A row of `linkage`. -/
structure LinkageRow where
  id : Uuid
  actorAId : Uuid
  actorBId : Uuid
  state : LinkageState
  method : String
  score : Score
  evidence : Attrs
  proposedAt : ℤ
  decidedAt : Option ℤ
  decidedBy : Option String
  notes : Option String

/-- The two rows link the same actors by the same method. -/
def LinkageRow.SameLink (r r' : LinkageRow) : Prop :=
  r.actorAId = r'.actorAId ∧ r.actorBId = r'.actorBId ∧ r.method = r'.method

instance (r r' : LinkageRow) : Decidable (r.SameLink r') :=
  inferInstanceAs (Decidable (_ ∧ _ ∧ _))

/-- What the two operations raise. -/
inductive LinkageError where
  | valueError (message : String)
  /-- the database refuses the row -/
  | integrityError
  deriving DecidableEq, Repr

/-- `_sorted_pair`, and `_ordered_pair` of the contracts -/
def sortedPair (a b : Uuid) : Uuid × Uuid := if a < b then (a, b) else (b, a)

theorem sortedPair_lt {a b : Uuid} (h : a ≠ b) : (sortedPair a b).1 < (sortedPair a b).2 := by
  rw [sortedPair]
  split_ifs with hlt
  · exact hlt
  · have hne : a.toNat ≠ b.toNat := fun heq => h (BitVec.eq_of_toNat_eq heq)
    simp only [BitVec.lt_def] at hlt ⊢
    omega

/-- The pairs of one actor with two others differ. -/
theorem sortedPair_inj {a b c : Uuid} (h : sortedPair a b = sortedPair a c) : b = c := by
  rw [sortedPair, sortedPair] at h
  split_ifs at h with hb hc hc
  · exact (Prod.mk.inj h).2
  · obtain ⟨hac, hba⟩ := Prod.mk.inj h
    exact hba.trans hac
  · obtain ⟨hba, hac⟩ := Prod.mk.inj h
    exact hba.trans hac
  · exact (Prod.mk.inj h).1

/-! ## The table -/

/-- The linkages: `linkage_pair_ordered` and `uq_linkage_pair_method` hold of them. -/
structure LinkageTable where
  rows : Table LinkageRow.id
  ordered : ∀ r ∈ rows, r.actorAId < r.actorBId
  unique : ∀ r ∈ rows, ∀ r' ∈ rows, r.SameLink r' → r = r'

namespace LinkageTable

/-- No linkages. -/
def empty : LinkageTable where
  rows := .empty
  ordered := fun r hr => absurd hr (Table.not_mem_empty r)
  unique := fun r hr => absurd hr (Table.not_mem_empty r)

/-- `INSERT`, unless the database refuses the row. -/
def insert (t : LinkageTable) (row : LinkageRow) : Option LinkageTable :=
  if h : row.actorAId < row.actorBId ∧ ∀ r ∈ t.rows, ¬ r.SameLink row then
    match hrows : t.rows.insert row with
    | none => none
    | some rows => some
      { rows
        ordered := fun r hr => by
          obtain hr | rfl := (Table.mem_insert hrows).mp hr
          · exact t.ordered r hr
          · exact h.1
        unique := fun r hr r' hr' hsame => by
          obtain hr | rfl := (Table.mem_insert hrows).mp hr
          · obtain hr' | rfl := (Table.mem_insert hrows).mp hr'
            · exact t.unique r hr r' hr' hsame
            · exact absurd hsame (h.2 r hr)
          · obtain hr' | rfl := (Table.mem_insert hrows).mp hr'
            · exact absurd ⟨hsame.1.symm, hsame.2.1.symm, hsame.2.2.symm⟩ (h.2 r' hr')
            · rfl }
  else none

/-- `UPDATE` of the row with an id, by a function that keeps what identifies it. -/
def modify (t : LinkageTable) (id : Uuid) (f : LinkageRow → LinkageRow)
    (hf : ∀ r, (f r).id = r.id ∧ (f r).SameLink r) : LinkageTable where
  rows := t.rows.updateAll (fun r => if r.id = id then f r else r) fun r => by
    split_ifs
    · exact (hf r).1
    · rfl
  ordered := fun r hr => by
    obtain ⟨x, hx, rfl⟩ := List.mem_map.mp hr
    have hlt := t.ordered x hx
    split_ifs
    · rw [(hf x).2.1, (hf x).2.2.1]
      exact hlt
    · exact hlt
  unique := fun r hr r' hr' hsame => by
    obtain ⟨x, hx, rfl⟩ := List.mem_map.mp hr
    obtain ⟨y, hy, rfl⟩ := List.mem_map.mp hr'
    have hlink (z : LinkageRow) : (if z.id = id then f z else z).SameLink z := by
      split_ifs
      · exact (hf z).2
      · exact ⟨rfl, rfl, rfl⟩
    obtain ⟨hxa, hxb, hxm⟩ := hlink x
    obtain ⟨hya, hyb, hym⟩ := hlink y
    -- the rows were of one link before they were written
    have hxy : x = y := t.unique x hx y hy
      ⟨hxa.symm.trans (hsame.1.trans hya), hxb.symm.trans (hsame.2.1.trans hyb),
        hxm.symm.trans (hsame.2.2.trans hym)⟩
    rw [hxy]

/-- The linkage of a pair by a method. -/
def linkOf (t : LinkageTable) (pair : Uuid × Uuid) (method : String) : Option LinkageRow :=
  t.rows.rows.find? fun r =>
    r.actorAId = pair.1 ∧ r.actorBId = pair.2 ∧ r.method = method

/-- The row of a first proposal. -/
def newProposal (pair : Uuid × Uuid) (method : String) (score : Score) (evidence : Attrs)
    (linkageId : Uuid) (now : ℤ) : LinkageRow where
  id := linkageId
  actorAId := pair.1
  actorBId := pair.2
  state := .proposed
  method := method
  score := score
  evidence := evidence
  proposedAt := now
  decidedAt := none
  decidedBy := none
  notes := none

/-- The row of a proposal that comes again. -/
def refresh (score : Score) (evidence : Attrs) (existing : LinkageRow) : LinkageRow :=
  { existing with score := max existing.score score, evidence }

theorem refresh_link (score : Score) (evidence : Attrs) (r : LinkageRow) :
    (refresh score evidence r).id = r.id ∧ (refresh score evidence r).SameLink r :=
  ⟨rfl, rfl, rfl, rfl⟩

/-- `insert_proposed_linkage`, with the id that a new row gets. -/
def insertProposedLinkage (t : LinkageTable) (actorA actorB : Uuid) (method : String)
    (score : Score) (evidence : Attrs) (linkageId : Uuid) (now : ℤ) :
    LinkageTable × Except LinkageError LinkageRow :=
  let pair := sortedPair actorA actorB
  -- only an open linkage is looked for, while the index counts the decided ones too
  let existing := t.rows.rows.find? fun r =>
    r.actorAId = pair.1 ∧ r.actorBId = pair.2 ∧ r.method = method ∧ r.state = .proposed
  match existing with
  | none =>
    let row := newProposal pair method score evidence linkageId now
    match t.insert row with
    | none => (t, .error .integrityError)
    | some t' => (t', .ok row)
  | some existing =>
    (t.modify existing.id (refresh score evidence) (refresh_link score evidence),
      .ok (refresh score evidence existing))

/-- The text for a transition that the table does not have. -/
def illegalTransitionText (state target : LinkageState) : String :=
  "cannot transition " ++ state.value ++ " → " ++ target.value ++ "; legal targets: " ++
    if state.legalTransitions.isEmpty then "none (terminal)"
    else "[" ++ ", ".intercalate (state.legalTransitions.map fun s => "'" ++ s.value ++ "'") ++ "]"

/-- The row after a decision. -/
def decided (target : LinkageState) (decidedBy : String) (notes : Option String) (now : ℤ)
    (row : LinkageRow) : LinkageRow :=
  { row with state := target, decidedAt := some now, decidedBy := some decidedBy, notes }

theorem decided_link (target : LinkageState) (decidedBy : String) (notes : Option String) (now : ℤ)
    (r : LinkageRow) : (decided target decidedBy notes now r).id = r.id ∧
      (decided target decidedBy notes now r).SameLink r :=
  ⟨rfl, rfl, rfl, rfl⟩

/-- `transition_linkage` -/
def transitionLinkage (t : LinkageTable) (linkageId : Uuid) (target : LinkageState)
    (decidedBy : String) (notes : Option String) (now : ℤ) :
    LinkageTable × Except LinkageError LinkageRow :=
  match t.rows.get linkageId with
  | none => (t, .error (.valueError ("linkage " ++ uuidText linkageId ++ " not found")))
  | some row =>
    if target ∈ row.state.legalTransitions then
      (t.modify linkageId (decided target decidedBy notes now)
        (decided_link target decidedBy notes now), .ok (decided target decidedBy notes now row))
    else (t, .error (.valueError (illegalTransitionText row.state target)))

/-! ## What the operations do -/

variable {t t' : LinkageTable} {row r : LinkageRow} {id : Uuid} {pair : Uuid × Uuid}
  {method : String}

theorem insert_eq_some (h : t.insert row = some t') :
    row.actorAId < row.actorBId ∧ (∀ r ∈ t.rows, ¬ r.SameLink row) ∧
      t.rows.insert row = some t'.rows := by
  rw [insert] at h
  split_ifs at h with hguard
  split at h
  · cases h
  · rename_i rows hrows
    cases h
    exact ⟨hguard.1, hguard.2, hrows⟩

/-- A row with a fresh id, an ordered pair and a new link is stored. -/
theorem insert_isSome (hid : t.rows.get row.id = none) (hlt : row.actorAId < row.actorBId)
    (hnew : ∀ r ∈ t.rows, ¬ r.SameLink row) : ∃ t', t.insert row = some t' := by
  obtain ⟨rows, hrows⟩ := Table.insert_isSome hid
  rw [insert, dif_pos ⟨hlt, hnew⟩]
  split
  · rename_i hnone
    rw [hrows] at hnone
    cases hnone
  · exact ⟨_, rfl⟩

theorem linkOf_eq_some : t.linkOf pair method = some r ↔
    r ∈ t.rows ∧ r.actorAId = pair.1 ∧ r.actorBId = pair.2 ∧ r.method = method := by
  refine ⟨?_, ?_⟩
  · intro h
    exact ⟨List.mem_of_find?_eq_some h, by simpa using List.find?_some h⟩
  · rintro ⟨hr, ha, hb, hm⟩
    cases hfind : t.linkOf pair method with
    | none =>
      have hnone := List.find?_eq_none.mp hfind r hr
      exact absurd (decide_eq_true (⟨ha, hb, hm⟩ : _ ∧ _ ∧ _)) hnone
    | some r' =>
      obtain ⟨ha', hb', hm'⟩ :
          r'.actorAId = pair.1 ∧ r'.actorBId = pair.2 ∧ r'.method = method := by
        simpa using List.find?_some hfind
      rw [t.unique r' (List.mem_of_find?_eq_some hfind) r hr
        ⟨ha'.trans ha.symm, hb'.trans hb.symm, hm'.trans hm.symm⟩]

theorem linkOf_eq_none : t.linkOf pair method = none ↔
    ∀ r ∈ t.rows, ¬ (r.actorAId = pair.1 ∧ r.actorBId = pair.2 ∧ r.method = method) := by
  simp only [linkOf, List.find?_eq_none, decide_eq_true_eq, Table.mem_rows]

/-- A new linkage leaves the other links as they are. -/
theorem linkOf_insert (h : t.insert row = some t')
    (hother : ¬ (row.actorAId = pair.1 ∧ row.actorBId = pair.2 ∧ row.method = method)) :
    t'.linkOf pair method = t.linkOf pair method := by
  obtain ⟨-, -, hrows⟩ := insert_eq_some h
  apply Option.ext
  intro r
  rw [linkOf_eq_some, linkOf_eq_some, Table.mem_insert hrows]
  refine ⟨?_, ?_⟩
  · rintro ⟨hr | rfl, hlink⟩
    · exact ⟨hr, hlink⟩
    · exact absurd hlink hother
  · rintro ⟨hr, hlink⟩
    exact ⟨Or.inl hr, hlink⟩

section Modify

variable {f : LinkageRow → LinkageRow} (hf : ∀ r, (f r).id = r.id ∧ (f r).SameLink r)

include hf in
/-- A row stays what it was, apart from the columns that the function writes. -/
theorem link_modify (id : Uuid) (x : LinkageRow) : (if x.id = id then f x else x).id = x.id ∧
    (if x.id = id then f x else x).SameLink x := by
  split_ifs
  · exact hf x
  · exact ⟨rfl, rfl, rfl, rfl⟩

theorem mem_modify : r ∈ (t.modify id f hf).rows ↔
    ∃ x ∈ t.rows, (if x.id = id then f x else x) = r := List.mem_map

theorem get_modify (k : Uuid) : (t.modify id f hf).rows.get k =
    (t.rows.get k).map fun r => if r.id = id then f r else r :=
  Table.get_updateAll t.rows (fun r => (link_modify hf id r).1) k

theorem linkOf_modify : (t.modify id f hf).linkOf pair method =
    (t.linkOf pair method).map fun r => if r.id = id then f r else r := by
  apply Option.ext
  intro r
  rw [linkOf_eq_some, Option.map_eq_some_iff, mem_modify]
  refine ⟨?_, ?_⟩
  · rintro ⟨⟨x, hx, rfl⟩, ha, hb, hm⟩
    obtain ⟨-, hxa, hxb, hxm⟩ := link_modify hf id x
    exact ⟨x, linkOf_eq_some.mpr ⟨hx, hxa ▸ ha, hxb ▸ hb, hxm ▸ hm⟩, rfl⟩
  · rintro ⟨x, hx, rfl⟩
    obtain ⟨hx, ha, hb, hm⟩ := linkOf_eq_some.mp hx
    obtain ⟨-, hxa, hxb, hxm⟩ := link_modify hf id x
    exact ⟨⟨x, hx, rfl⟩, hxa.trans ha, hxb.trans hb, hxm.trans hm⟩

/-- A write to one linkage leaves the other links as they are. -/
theorem linkOf_modify_of_ne (hrow : row ∈ t.rows)
    (hother : ¬ (row.actorAId = pair.1 ∧ row.actorBId = pair.2 ∧ row.method = method)) :
    (t.modify row.id f hf).linkOf pair method = t.linkOf pair method := by
  rw [linkOf_modify]
  cases hlink : t.linkOf pair method with
  | none => rfl
  | some r =>
    obtain ⟨hr, hlinked⟩ := linkOf_eq_some.mp hlink
    have hne : r.id ≠ row.id := fun hid => hother (Table.eq_of_key hr hrow hid ▸ hlinked)
    rw [Option.map_some, if_neg hne]

end Modify

/-! ### Proposals -/

variable {a b linkageId : Uuid} (score : Score) (evidence : Attrs) (now : ℤ)

/-- The `SELECT` of a proposal finds the linkage of the pair and method while it is open. -/
theorem find_open : (t.rows.rows.find? fun r =>
    r.actorAId = pair.1 ∧ r.actorBId = pair.2 ∧ r.method = method ∧ r.state = .proposed) =
      (t.linkOf pair method).filter fun r => r.state = .proposed := by
  apply Option.ext
  intro r
  rw [Option.filter_eq_some_iff, linkOf_eq_some]
  refine ⟨?_, ?_⟩
  · intro h
    obtain ⟨ha, hb, hm, hs⟩ : r.actorAId = pair.1 ∧ r.actorBId = pair.2 ∧ r.method = method ∧
        r.state = .proposed := by simpa using List.find?_some h
    exact ⟨⟨List.mem_of_find?_eq_some h, ha, hb, hm⟩, by simpa using hs⟩
  · rintro ⟨⟨hr, ha, hb, hm⟩, hs⟩
    cases hfind : t.rows.rows.find? fun r =>
        r.actorAId = pair.1 ∧ r.actorBId = pair.2 ∧ r.method = method ∧ r.state = .proposed with
    | none =>
      have hnone := List.find?_eq_none.mp hfind r hr
      exact absurd (by simpa [ha, hb, hm] using hs) hnone
    | some r' =>
      obtain ⟨ha', hb', hm', -⟩ : r'.actorAId = pair.1 ∧ r'.actorBId = pair.2 ∧
          r'.method = method ∧ r'.state = .proposed := by simpa using List.find?_some hfind
      rw [t.unique r' (List.mem_of_find?_eq_some hfind) r hr
        ⟨ha'.trans ha.symm, hb'.trans hb.symm, hm'.trans hm.symm⟩]

/-- The first proposal of a pair by a method is stored under the id that it comes with. -/
theorem insertProposedLinkage_new (hlink : t.linkOf (sortedPair a b) method = none) (hab : a ≠ b)
    (hid : t.rows.get linkageId = none) :
    ∃ t', t.insert (newProposal (sortedPair a b) method score evidence linkageId now) = some t' ∧
      t.insertProposedLinkage a b method score evidence linkageId now =
        (t', .ok (newProposal (sortedPair a b) method score evidence linkageId now)) := by
  obtain ⟨t', ht'⟩ :
      ∃ t', t.insert (newProposal (sortedPair a b) method score evidence linkageId now) = some t' :=
    insert_isSome hid (sortedPair_lt hab) (linkOf_eq_none.mp hlink)
  refine ⟨t', ht', ?_⟩
  rw [insertProposedLinkage, find_open, hlink]
  simp only [Option.filter_none, ht']

/-- A proposal for an open linkage refreshes it, whatever id it comes with. -/
theorem insertProposedLinkage_open (hlink : t.linkOf (sortedPair a b) method = some r)
    (hopen : r.state = .proposed) :
    t.insertProposedLinkage a b method score evidence linkageId now =
      (t.modify r.id (refresh score evidence) (refresh_link score evidence),
        .ok (refresh score evidence r)) := by
  rw [insertProposedLinkage, find_open, hlink]
  simp [Option.filter, hopen]

/-- A proposal for a decided linkage is refused. -/
theorem insertProposedLinkage_decided (hlink : t.linkOf (sortedPair a b) method = some r)
    (hdecided : r.state ≠ .proposed) :
    t.insertProposedLinkage a b method score evidence linkageId now =
      (t, .error .integrityError) := by
  have hrefused :
      t.insert (newProposal (sortedPair a b) method score evidence linkageId now) = none := by
    rw [insert, dif_neg]
    rintro ⟨-, hnew⟩
    obtain ⟨hr, hlinked⟩ := linkOf_eq_some.mp hlink
    exact hnew r hr hlinked
  rw [insertProposedLinkage, find_open, hlink]
  simp [Option.filter, hdecided, hrefused]

/-! ### Decisions -/

/-- What a decision does to a stored linkage, and that it does nothing else. -/
theorem transitionLinkage_spec (t : LinkageTable) (linkageId : Uuid) (target : LinkageState)
    (decidedBy : String) (notes : Option String) (now : ℤ) :
    (∃ row, t.rows.get linkageId = some row ∧ target ∈ row.state.legalTransitions ∧
      t.transitionLinkage linkageId target decidedBy notes now =
        (t.modify linkageId (decided target decidedBy notes now)
          (decided_link target decidedBy notes now),
            .ok (decided target decidedBy notes now row))) ∨
    ((∀ row, t.rows.get linkageId = some row → target ∉ row.state.legalTransitions) ∧
      ∃ e, t.transitionLinkage linkageId target decidedBy notes now = (t, .error e)) := by
  rw [transitionLinkage]
  cases hget : t.rows.get linkageId with
  | none =>
    refine Or.inr ⟨?_, _, rfl⟩
    intro row hrow
    cases hrow
  | some row =>
    dsimp only
    by_cases hlegal : target ∈ row.state.legalTransitions
    · rw [if_pos hlegal]
      exact Or.inl ⟨row, rfl, hlegal, rfl⟩
    · rw [if_neg hlegal]
      refine Or.inr ⟨fun row' hrow' => ?_, _, rfl⟩
      obtain rfl := Option.some.inj hrow'
      exact hlegal

/-- A linkage after a decision. -/
theorem get_transitionLinkage (t : LinkageTable) (linkageId : Uuid) (target : LinkageState)
    (decidedBy : String) (notes : Option String) (now : ℤ) (k : Uuid) :
    (t.transitionLinkage linkageId target decidedBy notes now).1.rows.get k =
      (t.rows.get k).map fun r =>
        if r.id = linkageId ∧ target ∈ r.state.legalTransitions then
          decided target decidedBy notes now r
        else r := by
  obtain ⟨row, hrow, hlegal, hreply⟩ | ⟨hillegal, e, hreply⟩ :=
    transitionLinkage_spec t linkageId target decidedBy notes now
  · rw [hreply, get_modify]
    refine Option.map_congr fun r hr => ?_
    by_cases hid : r.id = linkageId
    · -- the row under the id is the one that was read
      have hkey : r.id = k := (Table.get_eq_some.mp hr).2
      obtain rfl : row = r := Option.some.inj (hrow.symm.trans ((hkey.symm.trans hid) ▸ hr))
      simp [hid, hlegal]
    · simp [hid]
  · rw [hreply]
    cases hget : t.rows.get k with
    | none => rfl
    | some r =>
      obtain ⟨hr, rfl⟩ := Table.get_eq_some.mp hget
      rw [Option.map_some, if_neg]
      rintro ⟨rfl, hlegal⟩
      exact hillegal r hget hlegal

end LinkageTable

end Eyenet
