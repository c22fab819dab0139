import Eyenet.Dict
import Eyenet.WritingProfile
import Mathlib.Data.Finset.Card
import Mathlib.Data.Finset.Dedup

/-!
# The templates of a corpus

`detect_copypasta_templates` (`sqlmodel_repo/messages.py`) groups the stored bodies by fingerprint,
writes the template of each group, and tags the messages of the groups that are copypasta. It never
visits a template whose messages have other bodies now, and it never takes a tag away.

* `CopypastaStore.lookup_templateGroups` — a group holds the messages of its fingerprint.
* `CopypastaStore.flagged_detect`, `CopypastaStore.tag_detect` — what a run leaves of a fingerprint
  and of a message.
* `CopypastaStore.detect_copypasta_templates_iff` — exactly when a run leaves what it leaves when it
  starts from nothing.
-/

namespace Eyenet

/-- `MessageTable`; a time is the number of microseconds since the epoch. -/
structure TemplatedMessage where
  id : Uuid
  actorId : Uuid
  evidenceRef : String
  body : String
  ingestedAt : ℤ
  templateId : Option Uuid
  deriving DecidableEq

/-- `ContentTemplateTable` -/
structure ContentTemplateRow where
  id : Uuid
  fingerprint : String
  charLen : ℕ
  occurrenceCount : ℕ
  distinctActorCount : ℕ
  isCopypasta : Bool
  sampleBody : String
  firstSeenAtIngest : ℤ
  lastSeenAtIngest : ℤ
  deriving DecidableEq

/-- `_TemplateGroup` -/
structure TemplateGroup where
  sample : String
  charLen : ℕ
  first : ℤ
  last : ℤ
  msgIds : List Uuid
  actors : Finset Uuid
  deriving DecidableEq

/-- The two tables. -/
structure CopypastaStore where
  messages : Table TemplatedMessage.id
  templates : Table ContentTemplateRow.fingerprint

namespace CopypastaStore

/-- The message is tagged with a template, or with none. -/
def setTag (templateId : Option Uuid) (m : TemplatedMessage) : TemplatedMessage :=
  { m with templateId := templateId }

/-- `put_message`; the caller leaves the tag out, and a known id or evidence is a duplicate. -/
def putMessage (s : CopypastaStore) (row : TemplatedMessage) : CopypastaStore :=
  if ∃ m ∈ s.messages, m.evidenceRef = row.evidenceRef then s
  else { s with messages := (s.messages.insert (setTag none row)).getD s.messages }

/-- `update_message_content` -/
def updateMessageContent (s : CopypastaStore) (evidenceRef body : String) : CopypastaStore :=
  { s with
    messages := s.messages.updateAll
      (fun m => if m.evidenceRef = evidenceRef then { m with body := body } else m)
      (fun m => by split_ifs <;> rfl) }

section Detect

variable (sha256 normalizeForTemplate : String → String) (newId : String → Uuid)

/-- The fingerprint of the body. -/
def fingerprintOf (m : TemplatedMessage) : String :=
  templateFingerprint sha256 normalizeForTemplate m.body

/-- The group, or a new one, with one more message. -/
def addToGroup (g : Option TemplateGroup) (m : TemplatedMessage) : TemplateGroup :=
  let g := g.getD ⟨m.body, (normalizeForTemplate m.body).length, m.ingestedAt, m.ingestedAt, [], ∅⟩
  { g with
    msgIds := g.msgIds ++ [m.id]
    actors := insert m.actorId g.actors
    first := min g.first m.ingestedAt
    last := max g.last m.ingestedAt }

/-- The messages that have a body. -/
def texts (s : CopypastaStore) : List TemplatedMessage :=
  s.messages.rows.filter fun m => m.body ≠ ""

/-- The groups, by fingerprint. -/
def templateGroups (s : CopypastaStore) : List (String × TemplateGroup) :=
  Dict.gather (fingerprintOf sha256 normalizeForTemplate) (addToGroup normalizeForTemplate) s.texts

/-- `is_copypasta`, of a group. -/
def flagOf (g : TemplateGroup) : Bool := isCopypasta g.charLen g.actors.card

/-- The template of a group; `newId` draws the id that the template of a fingerprint gets. -/
def templateOf (existing : Option ContentTemplateRow) (fp : String) (g : TemplateGroup) :
    ContentTemplateRow :=
  match existing with
  | none =>
    { id := newId fp, fingerprint := fp, charLen := g.charLen, occurrenceCount := g.msgIds.length
      distinctActorCount := g.actors.card, isCopypasta := flagOf g
      sampleBody := String.ofList (g.sample.toList.take 4000)
      firstSeenAtIngest := g.first, lastSeenAtIngest := g.last }
  | some existing =>
    { existing with
      occurrenceCount := g.msgIds.length
      distinctActorCount := g.actors.card
      isCopypasta := flagOf g
      lastSeenAtIngest := g.last }

/-- The second loop's body. -/
def refreshGroup (s : CopypastaStore) (entry : String × TemplateGroup) : CopypastaStore :=
  let tmpl := templateOf newId (s.templates.get entry.1) entry.1 entry.2
  { templates := s.templates.save tmpl
    messages := s.messages.updateAll
      (fun m => if flagOf entry.2 ∧ m.id ∈ entry.2.msgIds then setTag (some tmpl.id) m else m)
      (fun m => by split_ifs <;> rfl) }

/-- `detect_copypasta_templates`, with the number that it returns. -/
def detectCopypastaTemplates (s : CopypastaStore) : CopypastaStore × ℕ :=
  let groups := s.templateGroups sha256 normalizeForTemplate
  (groups.foldl (refreshGroup newId) s, groups.countP fun entry => flagOf entry.2)

/-- A call. -/
inductive Call where
  | putMessage (row : TemplatedMessage)
  | updateMessageContent (evidenceRef body : String)
  | detectCopypastaTemplates

/-- The store after a call. -/
def call (s : CopypastaStore) : Call → CopypastaStore
  | .putMessage row => s.putMessage row
  | .updateMessageContent evidenceRef body => s.updateMessageContent evidenceRef body
  | .detectCopypastaTemplates =>
    (s.detectCopypastaTemplates sha256 normalizeForTemplate newId).1

/-- The store after the calls, from an empty one. -/
def after (calls : List Call) : CopypastaStore :=
  calls.foldl (call sha256 normalizeForTemplate newId) ⟨.empty, .empty⟩

end Detect

/-! ## What is right -/

/-- The same messages without templates. -/
def fromScratch (s : CopypastaStore) : CopypastaStore where
  messages := s.messages.updateAll (setTag none) fun _ => rfl
  templates := .empty

/-- The counts and the times of the flagged template of a fingerprint. -/
def flagged (s : CopypastaStore) (fp : String) : Option (ℕ × ℕ × ℤ × ℤ) :=
  ((s.templates.get fp).filter ContentTemplateRow.isCopypasta).map fun t =>
    (t.occurrenceCount, t.distinctActorCount, t.firstSeenAtIngest, t.lastSeenAtIngest)

/-- The template that a message is tagged with. -/
def tag (s : CopypastaStore) (id : Uuid) : Option Uuid :=
  (s.messages.get id).bind TemplatedMessage.templateId

/-- The stores flag the same templates and tag the same messages with each of them. -/
structure Agrees (s s' : CopypastaStore) : Prop where
  flagged : ∀ fp, s.flagged fp = s'.flagged fp
  tag : ∀ id, s.tag id = s'.tag id

section Condition

variable (sha256 normalizeForTemplate : String → String)

/-- The messages that have a body of the fingerprint. -/
def copies (s : CopypastaStore) (fp : String) : List TemplatedMessage :=
  s.texts.filter fun m => fingerprintOf sha256 normalizeForTemplate m = fp

/-- The copies are long enough and of enough authors. -/
def Spread (copies : List TemplatedMessage) : Bool :=
  isCopypasta (copies.head?.elim 0 fun m => (normalizeForTemplate m.body).length)
    (copies.map TemplatedMessage.actorId).toFinset.card

/-- Every flagged template has a copy; every tagged message is a copy of a text that is spread; and
the template of such a text has the time of its first copy. -/
structure Current (s : CopypastaStore) : Prop where
  flagged : ∀ t ∈ s.templates, t.isCopypasta →
    s.copies sha256 normalizeForTemplate t.fingerprint ≠ []
  tagged : ∀ m ∈ s.messages, m.templateId ≠ none → m.body ≠ "" ∧
    Spread normalizeForTemplate (s.copies sha256 normalizeForTemplate
      (fingerprintOf sha256 normalizeForTemplate m))
  first : ∀ t ∈ s.templates,
    Spread normalizeForTemplate (s.copies sha256 normalizeForTemplate t.fingerprint) →
    ((s.copies sha256 normalizeForTemplate t.fingerprint).map TemplatedMessage.ingestedAt).min? =
      some t.firstSeenAtIngest

end Condition

variable {sha256 normalizeForTemplate : String → String} {newId : String → Uuid}
  {s : CopypastaStore} {fp : String} {m : TemplatedMessage}

/-! ## Groups -/

/-- The group of the copies of a text. -/
def groupOf (normalizeForTemplate : String → String) (first : TemplatedMessage)
    (rest : List TemplatedMessage) : TemplateGroup where
  sample := first.body
  charLen := (normalizeForTemplate first.body).length
  first := (rest.map TemplatedMessage.ingestedAt).foldl min first.ingestedAt
  last := (rest.map TemplatedMessage.ingestedAt).foldl max first.ingestedAt
  msgIds := (first :: rest).map TemplatedMessage.id
  actors := ((first :: rest).map TemplatedMessage.actorId).toFinset

theorem foldl_addToGroup (first : TemplatedMessage) (rest : List TemplatedMessage) :
    (first :: rest).foldl (fun o m => some (addToGroup normalizeForTemplate o m)) none =
      some (groupOf normalizeForTemplate first rest) := by
  induction rest using List.reverseRec with
  | nil => simp [addToGroup, groupOf]
  | append_singleton rest m ih =>
    have hactors : insert m.actorId ((first :: rest).map TemplatedMessage.actorId).toFinset =
        ((first :: (rest ++ [m])).map TemplatedMessage.actorId).toFinset := by
      ext a
      simp [or_left_comm]
    rw [← List.cons_append, List.foldl_append, ih, List.foldl_cons, List.foldl_nil,
      Option.some.injEq, addToGroup, Option.getD_some, groupOf, groupOf, TemplateGroup.mk.injEq]
    refine ⟨rfl, rfl, ?_, ?_, ?_, hactors⟩
    · rw [List.map_append, List.foldl_append]
      rfl
    · rw [List.map_append, List.foldl_append]
      rfl
    · rw [← List.cons_append, List.map_append]
      rfl

/-- **A group** is made of the messages of its fingerprint. -/
theorem lookup_templateGroups (s : CopypastaStore) (fp : String) :
    (s.templateGroups sha256 normalizeForTemplate).lookup fp =
      match s.copies sha256 normalizeForTemplate fp with
      | [] => none
      | first :: rest => some (groupOf normalizeForTemplate first rest) := by
  rw [templateGroups, Dict.lookup_gather, ← copies]
  cases s.copies sha256 normalizeForTemplate fp with
  | nil => rfl
  | cons first rest => exact foldl_addToGroup first rest

theorem nodup_templateGroups (s : CopypastaStore) :
    ((s.templateGroups sha256 normalizeForTemplate).map Prod.fst).Nodup :=
  Dict.nodup_keys_gather _ _ _

theorem flagOf_groupOf (first : TemplatedMessage) (rest : List TemplatedMessage) :
    flagOf (groupOf normalizeForTemplate first rest) =
      Spread normalizeForTemplate (first :: rest) := rfl

theorem mem_copies : m ∈ s.copies sha256 normalizeForTemplate fp ↔ m ∈ s.messages ∧ m.body ≠ "" ∧
    fingerprintOf sha256 normalizeForTemplate m = fp := by
  rw [copies, texts, List.mem_filter, List.mem_filter, Table.mem_rows, and_assoc,
    decide_eq_true_eq, decide_eq_true_eq]

/-- The flag of a group says whether its text is spread. -/
theorem spread_copies (s : CopypastaStore) (fp : String) :
    Spread normalizeForTemplate (s.copies sha256 normalizeForTemplate fp) =
      ((s.templateGroups sha256 normalizeForTemplate).lookup fp).elim false flagOf := by
  rw [lookup_templateGroups]
  cases s.copies sha256 normalizeForTemplate fp <;> rfl

/-- A message is in no group but that of its text. -/
theorem mem_msgIds {g : TemplateGroup} (hm : m ∈ s.messages)
    (hg : (fp, g) ∈ s.templateGroups sha256 normalizeForTemplate) :
    m.id ∈ g.msgIds ↔ m.body ≠ "" ∧ fingerprintOf sha256 normalizeForTemplate m = fp := by
  have hids : g.msgIds = (s.copies sha256 normalizeForTemplate fp).map TemplatedMessage.id := by
    have hlookup := (Dict.mem_iff_lookup (nodup_templateGroups s)).mp hg
    rw [lookup_templateGroups] at hlookup
    cases hcopies : s.copies sha256 normalizeForTemplate fp with
    | nil => simp [hcopies] at hlookup
    | cons first rest =>
      rw [hcopies] at hlookup
      rw [← Option.some.inj hlookup]
      rfl
  rw [hids, List.mem_map]
  constructor
  · rintro ⟨m', hm', hid⟩
    obtain ⟨hmem, hcopy⟩ := mem_copies.mp hm'
    rwa [Table.eq_of_key hmem hm hid] at hcopy
  · exact fun h => ⟨m, mem_copies.mpr ⟨hm, h⟩, rfl⟩

/-! ## The templates -/

theorem fingerprint_templateOf {existing : Option ContentTemplateRow} {g : TemplateGroup}
    (h : ∀ t, existing = some t → t.fingerprint = fp) :
    (templateOf newId existing fp g).fingerprint = fp := by
  cases existing with
  | none => rfl
  | some t => exact h t rfl

theorem get_refreshGroup (s : CopypastaStore) (entry : String × TemplateGroup) (fp : String) :
    (refreshGroup newId s entry).templates.get fp =
      if entry.1 = fp then some (templateOf newId (s.templates.get fp) fp entry.2)
      else s.templates.get fp := by
  have hkey : (templateOf newId (s.templates.get entry.1) entry.1 entry.2).fingerprint = entry.1 :=
    fingerprint_templateOf fun t ht => (Table.get_eq_some.mp ht).2
  rw [refreshGroup, Table.get_save, hkey]
  split_ifs with hfp
  · rw [hfp]
  · rfl

theorem get_foldl_refreshGroup {groups : List (String × TemplateGroup)}
    (hnodup : (groups.map Prod.fst).Nodup) (s : CopypastaStore) (fp : String) :
    (groups.foldl (refreshGroup newId) s).templates.get fp =
      (groups.lookup fp).elim (s.templates.get fp) fun g =>
        some (templateOf newId (s.templates.get fp) fp g) := by
  induction groups generalizing s with
  | nil => rfl
  | cons entry groups ih =>
    obtain ⟨hnot, hnodup⟩ := List.nodup_cons.mp hnodup
    rw [List.foldl_cons, ih hnodup, get_refreshGroup, List.lookup_cons]
    by_cases hfp : entry.1 = fp
    · subst hfp
      simp [Dict.lookup_eq_none.mpr hnot]
    · have hne : (fp == entry.1) = false := beq_false_of_ne (Ne.symm hfp)
      simp [hfp, hne]

/-- What a run leaves of a fingerprint: a group that is there decides about it, but for the first
time, and otherwise it is as it was. -/
theorem flagged_detect (s : CopypastaStore) (fp : String) :
    (s.detectCopypastaTemplates sha256 normalizeForTemplate newId).1.flagged fp =
      ((s.templateGroups sha256 normalizeForTemplate).lookup fp).elim (s.flagged fp) fun g =>
        if flagOf g then some (g.msgIds.length, g.actors.card,
          (s.templates.get fp).elim g.first ContentTemplateRow.firstSeenAtIngest, g.last)
        else none := by
  rw [flagged, detectCopypastaTemplates, get_foldl_refreshGroup (nodup_templateGroups s)]
  cases (s.templateGroups sha256 normalizeForTemplate).lookup fp with
  | none => rfl
  | some g =>
    simp only [Option.elim_some]
    cases s.templates.get fp <;> cases hflag : flagOf g <;>
      simp [templateOf, hflag, Option.filter]

/-! ## The tags -/

/-- Every template has the id that was drawn for its fingerprint. -/
def Drawn (newId : String → Uuid) (s : CopypastaStore) : Prop :=
  ∀ t ∈ s.templates, t.id = newId t.fingerprint

theorem Drawn.templateOf (h : Drawn newId s) (fp : String) (g : TemplateGroup) :
    (templateOf newId (s.templates.get fp) fp g).id = newId fp := by
  cases ht : s.templates.get fp with
  | none => rfl
  | some t =>
    obtain ⟨hmem, rfl⟩ := Table.get_eq_some.mp ht
    exact h t hmem

theorem Drawn.refreshGroup (h : Drawn newId s) (entry : String × TemplateGroup) :
    Drawn newId (refreshGroup newId s entry) := by
  intro t ht
  rcases Table.mem_save.mp ht with rfl | ⟨hmem, -⟩
  · rw [h.templateOf, fingerprint_templateOf fun t ht => (Table.get_eq_some.mp ht).2]
  · exact h t hmem

theorem tag_refreshGroup (h : Drawn newId s) (entry : String × TemplateGroup) {id : Uuid}
    (hid : (s.messages.get id).isSome) : (refreshGroup newId s entry).tag id =
      if flagOf entry.2 ∧ id ∈ entry.2.msgIds then some (newId entry.1) else s.tag id := by
  obtain ⟨m, hm⟩ := Option.isSome_iff_exists.mp hid
  rw [tag, refreshGroup, Table.get_updateAll, hm, h.templateOf, tag, hm, Option.map_some,
    Option.bind_some, Option.bind_some, (Table.get_eq_some.mp hm).2]
  split_ifs <;> rfl

theorem tag_foldl_refreshGroup {groups : List (String × TemplateGroup)} {id : Uuid}
    (h : Drawn newId s) (hid : (s.messages.get id).isSome)
    (hkey : ∀ entry ∈ groups, id ∈ entry.2.msgIds → entry.1 = fp) :
    (groups.foldl (refreshGroup newId) s).tag id =
      if ∃ entry ∈ groups, flagOf entry.2 ∧ id ∈ entry.2.msgIds then some (newId fp)
      else s.tag id := by
  induction groups generalizing s with
  | nil => simp
  | cons entry groups ih =>
    have hid' : ((refreshGroup newId s entry).messages.get id).isSome := by
      rw [refreshGroup, Table.get_updateAll, Option.isSome_map]
      exact hid
    rw [List.foldl_cons, ih (h.refreshGroup entry) hid' fun e he =>
      hkey e (List.mem_cons_of_mem _ he), tag_refreshGroup h entry hid]
    by_cases htagged : flagOf entry.2 ∧ id ∈ entry.2.msgIds
    · rw [hkey entry List.mem_cons_self htagged.2]
      simp [htagged]
    · simp only [List.mem_cons, exists_eq_or_imp, htagged, false_or, if_false]

/-- What a run leaves of a message: the tag of its text's template, or the tag it had. -/
theorem tag_detect (h : Drawn newId s) (hm : m ∈ s.messages) :
    (s.detectCopypastaTemplates sha256 normalizeForTemplate newId).1.tag m.id =
      if m.body ≠ "" ∧ Spread normalizeForTemplate (s.copies sha256 normalizeForTemplate
        (fingerprintOf sha256 normalizeForTemplate m))
      then some (newId (fingerprintOf sha256 normalizeForTemplate m)) else m.templateId := by
  have hget : s.messages.get m.id = some m := Table.get_self hm
  rw [detectCopypastaTemplates, tag_foldl_refreshGroup h (Option.isSome_of_eq_some hget)
    fun entry hentry hid => ((mem_msgIds hm hentry).mp hid).2.symm, tag, hget, Option.bind_some]
  refine if_congr ?_ rfl rfl
  rw [spread_copies]
  constructor
  · rintro ⟨⟨fp, g⟩, hg, hflag, hid⟩
    obtain ⟨hbody, rfl⟩ := (mem_msgIds hm hg).mp hid
    rw [(Dict.mem_iff_lookup (nodup_templateGroups s)).mp hg]
    exact ⟨hbody, hflag⟩
  · rintro ⟨hbody, hspread⟩
    cases hg : (s.templateGroups sha256 normalizeForTemplate).lookup
        (fingerprintOf sha256 normalizeForTemplate m) with
    | none => simp [hg] at hspread
    | some g =>
      have hmem := (Dict.mem_iff_lookup (nodup_templateGroups s)).mpr hg
      rw [hg] at hspread
      exact ⟨_, hmem, hspread, (mem_msgIds hm hmem).mpr ⟨hbody, rfl⟩⟩

/-! ## From nothing -/

theorem templateGroups_fromScratch (s : CopypastaStore) :
    s.fromScratch.templateGroups sha256 normalizeForTemplate =
      s.templateGroups sha256 normalizeForTemplate := by
  have htexts : s.fromScratch.texts = s.texts.map (setTag none) := List.filter_map
  rw [templateGroups, htexts, Dict.gather, List.foldl_map]
  rfl

theorem drawn_fromScratch (s : CopypastaStore) : Drawn newId s.fromScratch :=
  fun t ht => absurd ht (Table.not_mem_empty t)

theorem flagged_fromScratch (s : CopypastaStore) (fp : String) :
    (s.fromScratch.detectCopypastaTemplates sha256 normalizeForTemplate newId).1.flagged fp =
      ((s.templateGroups sha256 normalizeForTemplate).lookup fp).bind fun g =>
        if flagOf g then some (g.msgIds.length, g.actors.card, g.first, g.last) else none := by
  rw [flagged_detect, templateGroups_fromScratch]
  cases (s.templateGroups sha256 normalizeForTemplate).lookup fp <;> rfl

theorem tag_fromScratch (hm : m ∈ s.messages) :
    (s.fromScratch.detectCopypastaTemplates sha256 normalizeForTemplate newId).1.tag m.id =
      if m.body ≠ "" ∧ Spread normalizeForTemplate (s.copies sha256 normalizeForTemplate
        (fingerprintOf sha256 normalizeForTemplate m))
      then some (newId (fingerprintOf sha256 normalizeForTemplate m)) else none := by
  have hcleared : setTag none m ∈ s.fromScratch.messages :=
    List.mem_map_of_mem (f := setTag none) hm
  rw [spread_copies, ← templateGroups_fromScratch, ← spread_copies]
  exact tag_detect (drawn_fromScratch s) hcleared

/-- A run adds no message. -/
theorem tag_detect_of_none {id : Uuid} (h : s.messages.get id = none) :
    (s.detectCopypastaTemplates sha256 normalizeForTemplate newId).1.tag id = none := by
  have hfold : ∀ (groups : List (String × TemplateGroup)) (s : CopypastaStore),
      s.messages.get id = none → (groups.foldl (refreshGroup newId) s).messages.get id = none := by
    intro groups
    induction groups with
    | nil => exact fun s h => h
    | cons entry groups ih =>
      intro s h
      apply ih
      rw [refreshGroup, Table.get_updateAll, h, Option.map_none]
  rw [tag, detectCopypastaTemplates, hfold _ s h, Option.bind_none]

/-! ## Runs -/

theorem Drawn.detect (h : Drawn newId s) :
    Drawn newId (s.detectCopypastaTemplates sha256 normalizeForTemplate newId).1 := by
  rw [detectCopypastaTemplates]
  generalize s.templateGroups sha256 normalizeForTemplate = groups
  induction groups generalizing s with
  | nil => exact h
  | cons entry groups ih => exact ih (h.refreshGroup entry)

theorem Drawn.call (h : Drawn newId s) (c : Call) :
    Drawn newId (s.call sha256 normalizeForTemplate newId c) := by
  cases c with
  | putMessage row =>
    rw [CopypastaStore.call, putMessage]
    split_ifs
    · exact h
    · exact h
  | updateMessageContent evidenceRef body => exact h
  | detectCopypastaTemplates => exact h.detect

theorem drawn_after (calls : List Call) :
    Drawn newId (after sha256 normalizeForTemplate newId calls) := by
  induction calls using List.reverseRec with
  | nil => exact fun t ht => absurd ht (Table.not_mem_empty t)
  | append_singleton calls c ih =>
    rw [after, List.foldl_concat]
    exact ih.call c

/-- A run leaves what it leaves without templates exactly when the store is current. -/
theorem Drawn.agrees_iff (h : Drawn newId s) :
    (s.detectCopypastaTemplates sha256 normalizeForTemplate newId).1.Agrees
      (s.fromScratch.detectCopypastaTemplates sha256 normalizeForTemplate newId).1 ↔
    s.Current sha256 normalizeForTemplate := by
  constructor
  · intro hagrees
    refine ⟨fun t ht hflag hnone => ?_, fun m hm htag => ?_, fun t ht hspread => ?_⟩
    · have hsame := hagrees.flagged t.fingerprint
      rw [flagged_detect, flagged_fromScratch, lookup_templateGroups, hnone] at hsame
      simp [CopypastaStore.flagged, Table.get_self ht, hflag] at hsame
    · have hsame := hagrees.tag m.id
      rw [tag_detect h hm, tag_fromScratch hm] at hsame
      by_contra hnot
      rw [if_neg hnot, if_neg hnot] at hsame
      exact htag hsame
    · have hsame := hagrees.flagged t.fingerprint
      rw [flagged_detect, flagged_fromScratch, lookup_templateGroups, Table.get_self ht] at hsame
      cases hcopies : s.copies sha256 normalizeForTemplate t.fingerprint with
      | nil =>
        rw [hcopies] at hspread
        exact absurd hspread Bool.false_ne_true
      | cons first rest =>
        rw [hcopies, ← flagOf_groupOf] at hspread
        have hfirst : t.firstSeenAtIngest = (groupOf normalizeForTemplate first rest).first := by
          simpa [hcopies, hspread] using hsame
        rw [hfirst]
        rfl
  · intro hcurrent
    refine ⟨fun fp => ?_, fun id => ?_⟩
    · rw [flagged_detect, flagged_fromScratch, lookup_templateGroups]
      cases hcopies : s.copies sha256 normalizeForTemplate fp with
      | nil =>
        cases ht : s.templates.get fp with
        | none => simp [CopypastaStore.flagged, ht]
        | some t =>
          obtain ⟨hmem, rfl⟩ := Table.get_eq_some.mp ht
          have hflag : ¬ t.isCopypasta := fun hflag => hcurrent.flagged t hmem hflag hcopies
          simp [CopypastaStore.flagged, ht, hflag, Option.filter]
      | cons first rest =>
        simp only [Option.elim_some, Option.bind_some]
        split_ifs with hflag
        · cases ht : s.templates.get fp with
          | none => rfl
          | some t =>
            obtain ⟨hmem, rfl⟩ := Table.get_eq_some.mp ht
            have hfirst := hcurrent.first t hmem (by rwa [hcopies, ← flagOf_groupOf])
            rw [hcopies, List.map_cons, List.min?_cons', Option.some.injEq] at hfirst
            rw [Option.elim_some, ← hfirst]
            rfl
        · rfl
    · cases hget : s.messages.get id with
      | none =>
        have hcleared : s.fromScratch.messages.get id = none :=
          (Table.get_updateAll s.messages (f := setTag none) (fun _ => rfl) id).trans
            (by rw [hget, Option.map_none])
        rw [tag_detect_of_none hget, tag_detect_of_none hcleared]
      | some m =>
        obtain ⟨hm, rfl⟩ := Table.get_eq_some.mp hget
        rw [tag_detect h hm, tag_fromScratch hm]
        split_ifs with hspread
        · rfl
        · by_contra hne
          exact hspread (hcurrent.tagged m hm hne)

/-- After any calls, a run leaves what it leaves without templates exactly when every flagged
template has a copy, every tagged message is a copy of a text that is spread, and the template of a
spread text has the time of its first copy. -/
theorem detect_copypasta_templates_iff (sha256 normalizeForTemplate : String → String)
    (newId : String → Uuid) (calls : List Call) :
    (after sha256 normalizeForTemplate newId (calls ++ [.detectCopypastaTemplates])).Agrees
      ((after sha256 normalizeForTemplate newId calls).fromScratch.detectCopypastaTemplates
        sha256 normalizeForTemplate newId).1 ↔
    (after sha256 normalizeForTemplate newId calls).Current sha256 normalizeForTemplate := by
  rw [← (drawn_after calls).agrees_iff, after, List.foldl_concat]
  rfl

/-- The message of a user. -/
def sampleMessage (n : ℕ) (body : String) : TemplatedMessage :=
  ⟨BitVec.ofNat 128 n, BitVec.ofNat 128 (10 + n), "forum:board:1:" ++ toString n, body, n, none⟩

/-- Three users post an advertisement, which is detected; then the posts are fetched again with
another text in them. -/
def editedCalls : List Call :=
  [.putMessage (sampleMessage 1 Profiling.advertisement),
    .putMessage (sampleMessage 2 Profiling.advertisement),
    .putMessage (sampleMessage 3 Profiling.advertisement), .detectCopypastaTemplates,
    .updateMessageContent "forum:board:1:1" "one", .updateMessageContent "forum:board:1:2" "two",
    .updateMessageContent "forum:board:1:3" "three"]

/-- The template stays flagged and the messages stay tagged. -/
theorem edited_posts_stay_tagged :
    let s := after id id (fun _ => 77) (editedCalls ++ [.detectCopypastaTemplates])
    let fresh := ((after id id (fun _ => 77) editedCalls).fromScratch.detectCopypastaTemplates
      id id fun _ => 77).1
    s.flagged Profiling.advertisement = some (3, 3, 1, 3) ∧
      fresh.flagged Profiling.advertisement = none ∧ s.tag 1 = some 77 ∧ fresh.tag 1 = none := by
  decide +kernel

end CopypastaStore

end Eyenet
