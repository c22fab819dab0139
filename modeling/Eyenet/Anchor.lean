import Eyenet.AuditChain
import Eyenet.Calls
import Eyenet.FileAccessJournal
import Eyenet.Machine

/-!
# Anchors of the two chains

An anchor is a signed record of the head of the audit chain and the head of the file-access
journal, for a witness outside. `AnchorEmitter.emit_anchor` (`services/anchor_emitter.py`) reads
the two heads, then the latest sequence number, and then inserts the record, each in a statement
of its own (`sqlmodel_repo/anchors.py`), while both chains grow.

* `coexisted_iff` — when two heads that were read one after the other had stood together.
* `AnchorRun.run_gapless` — the sequence numbers of a deployment have no gap, come what may.
* `AnchorRun.sound_iff_witnessed` — exactly when the anchors of every interleaving are sound.
-/

namespace Eyenet

open Machine

/-! ## The chains -/

/-- A row that one of the chains got, by its `self_hash`. -/
inductive ChainAppend where
  | audit (selfHash : String)
  | journal (selfHash : Bytes)
  deriving DecidableEq

/-- The head of a chain. The code has the hash alone; the height is the number of rows that the
head closes. -/
structure ChainHead where
  height : ℕ
  hash : String
  deriving DecidableEq

/-- The `self_hash`es of the audit chain, oldest first. -/
def auditHashes (appends : List ChainAppend) : List String :=
  appends.filterMap fun
    | .audit selfHash => some selfHash
    | .journal _ => none

/-- The `self_hash`es of the journal, oldest first. -/
def journalHashes (appends : List ChainAppend) : List Bytes :=
  appends.filterMap fun
    | .audit _ => none
    | .journal selfHash => some selfHash

/-- `audit_head` -/
def auditHead (appends : List ChainAppend) : ChainHead :=
  ⟨(auditHashes appends).length, (auditHashes appends).getLastD genesisPrevHash⟩

/-- `file_access_journal_head`, in hex. -/
def journalHead (appends : List ChainAppend) : ChainHead :=
  ⟨(journalHashes appends).length, hex ((journalHashes appends).getLastD genesisJournalHash)⟩

/-- The two were the heads of the chains at one instant. -/
def Coexisted (appends : List ChainAppend) (a j : ChainHead) : Prop :=
  ∃ l, l <+: appends ∧ auditHead l = a ∧ journalHead l = j

section Heads

variable {appends l l' : List ChainAppend} {a j : ChainHead}

theorem auditHashes_mono (h : l <+: l') : auditHashes l <+: auditHashes l' := h.filterMap _

theorem journalHashes_mono (h : l <+: l') : journalHashes l <+: journalHashes l' := h.filterMap _

theorem auditHead_height_mono (h : l <+: l') : (auditHead l).height ≤ (auditHead l').height :=
  (auditHashes_mono h).length_le

theorem journalHead_height_mono (h : l <+: l') :
    (journalHead l).height ≤ (journalHead l').height :=
  (journalHashes_mono h).length_le

/-- While the audit chain has not grown its head is the same. -/
theorem auditHead_eq_of_height (h : l <+: l')
    (hheight : (auditHead l').height ≤ (auditHead l).height) :
    auditHead l' = auditHead l := by
  rw [auditHead, auditHead, (auditHashes_mono h).eq_of_length_le hheight]

theorem auditHead_concat_journal (selfHash : Bytes) :
    auditHead (l ++ [.journal selfHash]) = auditHead l := by
  simp [auditHead, auditHashes]

theorem journalHead_concat_audit (selfHash : String) :
    journalHead (l ++ [.audit selfHash]) = journalHead l := by
  simp [journalHead, journalHashes]

theorem journalHead_concat_journal_height (selfHash : Bytes) :
    (journalHead (l ++ [.journal selfHash])).height = (journalHead l).height + 1 := by
  simp [journalHead, journalHashes]

theorem Coexisted.mono (h : Coexisted l a j) (hgrow : l <+: l') : Coexisted l' a j := by
  obtain ⟨k, hk, ha, hj⟩ := h
  exact ⟨k, hk.trans hgrow, ha, hj⟩

/-- When the audit chain outgrew the head `a`, the journal had its row at `j` already. -/
def Overlap (appends : List ChainAppend) (a j : ChainHead) : Prop :=
  ∀ l, l <+: appends → a.height < (auditHead l).height → j.height ≤ (journalHead l).height

/-- **Heads read one after the other** stood together exactly when the journal's row was there
before the audit chain moved on. By induction on the rows between the two reads. -/
theorem coexisted_iff (hl : l <+: l') (hl' : l' <+: appends) :
    Coexisted appends (auditHead l) (journalHead l') ↔
      Overlap appends (auditHead l) (journalHead l') := by
  refine ⟨?_, ?_⟩
  · rintro ⟨k, hk, ha, hj⟩ m hm hgrown
    -- at `m` the audit chain is past the instant of the pair
    rcases List.prefix_or_prefix_of_prefix hk hm with hkm | hmk
    · rw [← hj]
      exact journalHead_height_mono hkm
    · have hle := auditHead_height_mono hmk
      rw [ha] at hle
      omega
  · intro hoverlap
    obtain ⟨between, rfl⟩ := hl
    induction between using List.reverseRecOn with
    | nil => exact ⟨l, by simpa using hl', rfl, by simp⟩
    | append_singleton between x ih =>
      rw [← List.append_assoc] at hl' hoverlap ⊢
      have hbefore : l ++ between <+: appends := (List.prefix_append _ [x]).trans hl'
      cases x with
      | audit selfHash =>
        rw [journalHead_concat_audit] at hoverlap ⊢
        exact ih hbefore hoverlap
      | journal selfHash =>
        -- the journal grows, so the audit chain has not
        have hsame : (auditHead (l ++ between)).height ≤ (auditHead l).height := by
          by_contra hgrown
          have hrow := hoverlap _ hbefore (not_le.mp hgrown)
          rw [journalHead_concat_journal_height] at hrow
          omega
        refine ⟨_, hl', ?_, rfl⟩
        rw [auditHead_concat_journal]
        exact auditHead_eq_of_height (List.prefix_append l between) hsame

end Heads

/-! ## Emitters -/

/-- A row of the anchor table. -/
structure AnchorRow where
  deploymentId : Uuid
  anchorSeq : ℤ
  anchoredAt : ℤ
  auditHead : ChainHead
  journalHead : ChainHead
  deriving DecidableEq

/-- The sequence numbers of a deployment, in the order of the inserts. -/
def anchorSeqs (anchors : List AnchorRow) (deploymentId : Uuid) : List ℤ :=
  (anchors.filter fun row => row.deploymentId = deploymentId).map AnchorRow.anchorSeq

/-- `latest_anchor_seq` -/
def latestAnchorSeq (anchors : List AnchorRow) (deploymentId : Uuid) : ℤ :=
  (anchorSeqs anchors deploymentId).max?.getD (-1)

/-- `record_anchor`; `none` when the unique index on the deployment and the number refuses it. -/
def recordAnchor (anchors : List AnchorRow) (row : AnchorRow) : Option (List AnchorRow) :=
  if row.anchorSeq ∈ anchorSeqs anchors row.deploymentId then none else some (anchors ++ [row])

/-- Where an `emit_anchor` call stands. -/
inductive EmitPhase where
  | auditRead (deploymentId : Uuid) (auditHead : ChainHead)
  | journalRead (deploymentId : Uuid) (auditHead journalHead : ChainHead)
  | seqRead (deploymentId : Uuid) (auditHead journalHead : ChainHead) (anchorSeq : ℤ)
  /-- it has recorded its anchor or raised -/
  | finished
  deriving DecidableEq

/-- The rows of both chains in the order of their commits, the anchors, and the calls. -/
structure AnchorRun where
  appends : List ChainAppend
  anchors : List AnchorRow
  calls : Calls EmitPhase

namespace AnchorRun

/-- One statement of one party. -/
inductive Step where
  /-- a writer appends to one of the chains -/
  | append (x : ChainAppend)
  /-- an emitter begins, with the audit head -/
  | readAudit (call : ℕ) (deploymentId : Uuid)
  | readJournal (call : ℕ)
  | readSeq (call : ℕ)
  | record (call : ℕ) (anchoredAt : ℤ)
  /-- an await of the emitter raises -/
  | fail (call : ℕ)

/-- Nothing is stored yet. -/
def init : AnchorRun := ⟨[], [], []⟩

/-- One statement. A call's number names one call, whose statements come in their order; other
labels change nothing. -/
def step (s : AnchorRun) : Step → Option AnchorRun
  | .append x => some { s with appends := s.appends ++ [x] }
  | .readAudit call deploymentId =>
    match s.calls.phase call with
    | some _ => some s
    | none =>
      some { s with calls := s.calls.put call (.auditRead deploymentId (auditHead s.appends)) }
  | .readJournal call =>
    match s.calls.phase call with
    | some (.auditRead deploymentId a) =>
      some { s with
        calls := s.calls.put call (.journalRead deploymentId a (journalHead s.appends)) }
    | _ => some s
  | .readSeq call =>
    match s.calls.phase call with
    | some (.journalRead deploymentId a j) =>
      let anchorSeq := latestAnchorSeq s.anchors deploymentId + 1
      some { s with calls := s.calls.put call (.seqRead deploymentId a j anchorSeq) }
    | _ => some s
  | .record call anchoredAt =>
    match s.calls.phase call with
    | some (.seqRead deploymentId a j anchorSeq) =>
      match recordAnchor s.anchors ⟨deploymentId, anchorSeq, anchoredAt, a, j⟩ with
      | none => some { s with calls := s.calls.put call .finished }
      | some anchors => some { s with anchors := anchors, calls := s.calls.put call .finished }
    | _ => some s
  | .fail call =>
    match s.calls.phase call with
    | none => some s
    | some _ => some { s with calls := s.calls.put call .finished }

/-! ## What the anchors witness -/

/-- The heads of the second anchor lie at or after those of the first. -/
def AtOrAfter (row row' : AnchorRow) : Prop :=
  row.auditHead.height ≤ row'.auditHead.height ∧ row.journalHead.height ≤ row'.journalHead.height

instance (row row' : AnchorRow) : Decidable (AtOrAfter row row') :=
  inferInstanceAs (Decidable (_ ∧ _))

/-- The numbers of every deployment are `0, .., n - 1`, in the order of the inserts. -/
def Gapless (anchors : List AnchorRow) : Prop :=
  ∀ deploymentId, ∃ n : ℕ, anchorSeqs anchors deploymentId = (List.range n).map fun i : ℕ => (i : ℤ)

/-- What an outside witness takes the anchors for. -/
structure Sound (s : AnchorRun) : Prop where
  coexisted : ∀ row ∈ s.anchors, Coexisted s.appends row.auditHead row.journalHead
  ordered : s.anchors.Pairwise AtOrAfter
  gapless : Gapless s.anchors

/-- A call that records an anchor had the journal's row before the audit chain moved on from the
head that it read, and no anchor was recorded meanwhile with a head that is past one of its own. -/
def Witnessed (s : AnchorRun) : Step → Prop
  | .record call _ => ∀ deploymentId a j anchorSeq,
      s.calls.phase call = some (.seqRead deploymentId a j anchorSeq) →
      anchorSeq ∉ anchorSeqs s.anchors deploymentId →
      Overlap s.appends a j ∧
        ∀ row ∈ s.anchors, row.auditHead.height ≤ a.height ∧ row.journalHead.height ≤ j.height
  | _ => True

variable {s s' : AnchorRun} {a : Step}

/-! ### Sequence numbers -/

theorem max?_range (n : ℕ) :
    (((List.range n).map fun i : ℕ => (i : ℤ)).max?).getD (-1) + 1 = n := by
  cases n with
  | zero => rfl
  | succ n =>
    have hmax : ((List.range (n + 1)).map fun i : ℕ => (i : ℤ)).max? = some (n : ℤ) := by
      rw [List.max?_eq_some_iff]
      refine ⟨List.mem_map.mpr ⟨n, by simp, rfl⟩, fun b hb => ?_⟩
      obtain ⟨i, hi, rfl⟩ := List.mem_map.mp hb
      have hlt := List.mem_range.mp hi
      omega
    rw [hmax]
    simp

/-- The next number of a deployment is the number of its anchors. -/
theorem latestAnchorSeq_succ {anchors : List AnchorRow} (h : Gapless anchors)
    (deploymentId : Uuid) :
    latestAnchorSeq anchors deploymentId + 1 = (anchorSeqs anchors deploymentId).length := by
  obtain ⟨n, hn⟩ := h deploymentId
  rw [latestAnchorSeq, hn, max?_range]
  simp

theorem anchorSeqs_concat (anchors : List AnchorRow) (row : AnchorRow) (deploymentId : Uuid) :
    anchorSeqs (anchors ++ [row]) deploymentId =
      if row.deploymentId = deploymentId then anchorSeqs anchors deploymentId ++ [row.anchorSeq]
      else anchorSeqs anchors deploymentId := by
  rw [anchorSeqs, anchorSeqs, List.filter_append]
  split_ifs with h <;> simp [h]

theorem recordAnchor_eq_some {anchors anchors' : List AnchorRow} {row : AnchorRow}
    (h : recordAnchor anchors row = some anchors') :
    row.anchorSeq ∉ anchorSeqs anchors row.deploymentId ∧ anchors' = anchors ++ [row] := by
  rw [recordAnchor] at h
  split_ifs at h with hseq
  exact ⟨hseq, (Option.some.inj h).symm⟩

/-- A number up to the next one is taken or is the next one, so an insert leaves no gap. -/
theorem Gapless.record {anchors anchors' : List AnchorRow} {row : AnchorRow} (h : Gapless anchors)
    (hlow : 0 ≤ row.anchorSeq)
    (hhigh : row.anchorSeq ≤ (anchorSeqs anchors row.deploymentId).length)
    (hrecord : recordAnchor anchors row = some anchors') : Gapless anchors' := by
  obtain ⟨hfree, rfl⟩ := recordAnchor_eq_some hrecord
  intro deploymentId
  rw [anchorSeqs_concat]
  split_ifs with hd
  · subst hd
    obtain ⟨n, hn⟩ := h row.deploymentId
    rw [hn] at hfree hhigh ⊢
    have hnext : row.anchorSeq = n := by
      by_contra hne
      rw [List.length_map, List.length_range] at hhigh
      refine hfree (List.mem_map.mpr ⟨row.anchorSeq.toNat, List.mem_range.mpr ?_, ?_⟩) <;> omega
    exact ⟨n + 1, by rw [List.range_succ, List.map_append, hnext]; rfl⟩
  · exact h deploymentId

/-! ### What a call has read -/

/-- The heads that a call has read are heads of the chains, the audit head no later than the
journal's, and its number is at most the next one. -/
def Reads (s : AnchorRun) : EmitPhase → Prop
  | .auditRead _ a => ∃ l, l <+: s.appends ∧ auditHead l = a
  | .journalRead _ a j => ∃ l l', l <+: l' ∧ l' <+: s.appends ∧ auditHead l = a ∧ journalHead l' = j
  | .seqRead deploymentId a j anchorSeq =>
    (∃ l l', l <+: l' ∧ l' <+: s.appends ∧ auditHead l = a ∧ journalHead l' = j) ∧
      0 ≤ anchorSeq ∧ anchorSeq ≤ (anchorSeqs s.anchors deploymentId).length
  | .finished => True

/-- What holds of every interleaving. -/
structure Inv (s : AnchorRun) : Prop where
  reads : ∀ call p, s.calls.phase call = some p → Reads s p
  gapless : Gapless s.anchors

/-- What was read stays read while the chains and the anchors grow. -/
theorem Reads.mono {p : EmitPhase} (h : Reads s p) (happends : s.appends <+: s'.appends)
    (hseqs : ∀ d, (anchorSeqs s.anchors d).length ≤ (anchorSeqs s'.anchors d).length) :
    Reads s' p := by
  cases p with
  | auditRead d a =>
    obtain ⟨l, hl, ha⟩ := h
    exact ⟨l, hl.trans happends, ha⟩
  | journalRead d a j =>
    obtain ⟨l, l', hl, hl', ha, hj⟩ := h
    exact ⟨l, l', hl, hl'.trans happends, ha, hj⟩
  | seqRead d a j anchorSeq =>
    obtain ⟨⟨l, l', hl, hl', ha, hj⟩, hlow, hhigh⟩ := h
    refine ⟨⟨l, l', hl, hl'.trans happends, ha, hj⟩, hlow, hhigh.trans ?_⟩
    exact_mod_cast hseqs d
  | finished => trivial

/-- A call that moves on keeps the invariant when it has read what it holds. -/
theorem Inv.put (h : s.Inv) {call : ℕ} {p : EmitPhase} (hp : Reads s p) :
    Inv { s with calls := s.calls.put call p } where
  reads c q hq := by
    change (s.calls.put call p).phase c = some q at hq
    rw [Calls.phase_put] at hq
    have hmono {q} (hq : Reads s q) : Reads { s with calls := s.calls.put call p } q :=
      hq.mono (List.prefix_refl _) fun _ => le_rfl
    split_ifs at hq
    · obtain rfl := Option.some.inj hq
      exact hmono hp
    · exact hmono (h.reads c q hq)
  gapless := h.gapless

theorem Inv.append (h : s.Inv) (x : ChainAppend) : Inv { s with appends := s.appends ++ [x] } where
  reads c q hq := (h.reads c q hq).mono (List.prefix_append _ _) fun _ => le_rfl
  gapless := h.gapless

/-- A recorded anchor, with the numbers of all deployments. -/
theorem Inv.record (h : s.Inv) {call : ℕ} {d : Uuid} {a j : ChainHead} {anchorSeq anchoredAt : ℤ}
    {anchors : List AnchorRow}
    (hphase : s.calls.phase call = some (.seqRead d a j anchorSeq))
    (hrecord : recordAnchor s.anchors ⟨d, anchorSeq, anchoredAt, a, j⟩ = some anchors) :
    Inv { s with anchors := anchors, calls := s.calls.put call .finished } where
  reads c q hq := by
    change (s.calls.put call .finished).phase c = some q at hq
    rw [Calls.phase_put] at hq
    split_ifs at hq
    · obtain rfl := Option.some.inj hq
      trivial
    · refine (h.reads c q hq).mono (List.prefix_refl _) fun d' => ?_
      obtain ⟨-, rfl⟩ := recordAnchor_eq_some hrecord
      dsimp only
      rw [anchorSeqs_concat]
      split_ifs <;> simp
  gapless := by
    obtain ⟨-, hlow, hhigh⟩ := h.reads call _ hphase
    exact h.gapless.record hlow hhigh hrecord

theorem inv_init : Inv init where
  reads c q hq := by cases hq
  gapless _ := ⟨0, rfl⟩

/-- Every statement keeps the invariant. -/
theorem Inv.step (h : s.Inv) (hstep : s.step a = some s') : s'.Inv := by
  cases a with
  | append x =>
    obtain rfl := Option.some.inj hstep
    exact h.append x
  | readAudit call d =>
    simp only [AnchorRun.step] at hstep
    split at hstep <;> obtain rfl := Option.some.inj hstep
    · exact h
    · exact h.put ⟨s.appends, List.prefix_refl _, rfl⟩
  | readJournal call =>
    simp only [AnchorRun.step] at hstep
    split at hstep <;> obtain rfl := Option.some.inj hstep
    · next d a hphase =>
      obtain ⟨l, hl, ha⟩ := h.reads call _ hphase
      exact h.put ⟨l, s.appends, hl, List.prefix_refl _, ha, rfl⟩
    · exact h
  | readSeq call =>
    simp only [AnchorRun.step] at hstep
    split at hstep <;> obtain rfl := Option.some.inj hstep
    · next d a j hphase =>
      have hnext := latestAnchorSeq_succ h.gapless d
      exact h.put ⟨h.reads call _ hphase, by omega, by omega⟩
    · exact h
  | record call anchoredAt =>
    simp only [AnchorRun.step] at hstep
    split at hstep
    · next d a j anchorSeq hphase =>
      split at hstep <;> obtain rfl := Option.some.inj hstep
      · exact h.put trivial
      · next anchors hrecord => exact h.record hphase hrecord
    · obtain rfl := Option.some.inj hstep
      exact h
  | fail call =>
    simp only [AnchorRun.step] at hstep
    split at hstep <;> obtain rfl := Option.some.inj hstep
    · exact h
    · exact h.put trivial

/-! ### Soundness of a step -/

/-- A step that records nothing keeps sound anchors sound. -/
theorem Sound.of_anchors (h : s.Sound) (happends : s.appends <+: s'.appends)
    (hanchors : s'.anchors = s.anchors) : s'.Sound where
  coexisted row hrow := (h.coexisted row (hanchors ▸ hrow)).mono happends
  ordered := hanchors ▸ h.ordered
  gapless := hanchors ▸ h.gapless

/-- A recorded anchor keeps the anchors sound exactly when its heads stood together and none
that is past them was recorded before. -/
theorem sound_record_iff (hinv : s.Inv) (h : s.Sound) {call : ℕ} {d : Uuid} {a j : ChainHead}
    {anchorSeq anchoredAt : ℤ} {anchors : List AnchorRow}
    (hphase : s.calls.phase call = some (.seqRead d a j anchorSeq))
    (hrecord : recordAnchor s.anchors ⟨d, anchorSeq, anchoredAt, a, j⟩ = some anchors) :
    Sound { s with anchors := anchors, calls := s.calls.put call .finished } ↔
      Overlap s.appends a j ∧
        ∀ row ∈ s.anchors, row.auditHead.height ≤ a.height ∧ row.journalHead.height ≤ j.height := by
  obtain ⟨⟨l, l', hl, hl', rfl, rfl⟩, -, -⟩ := hinv.reads call _ hphase
  have hgapless := (hinv.record hphase hrecord).gapless
  obtain ⟨-, rfl⟩ := recordAnchor_eq_some hrecord
  rw [← coexisted_iff hl hl']
  refine ⟨?_, ?_⟩
  · intro hs
    refine ⟨hs.coexisted _ (List.mem_append_right _ (List.mem_singleton_self _)),
      fun row hrow => ?_⟩
    exact (List.pairwise_append.mp hs.ordered).2.2 row hrow _ (List.mem_singleton_self _)
  · rintro ⟨hcoexisted, hbefore⟩
    refine ⟨fun row hrow => ?_, ?_, hgapless⟩
    · rcases List.mem_append.mp hrow with hrow | hrow
      · exact h.coexisted row hrow
      · obtain rfl := List.mem_singleton.mp hrow
        exact hcoexisted
    · refine List.pairwise_append.mpr
        ⟨h.ordered, List.pairwise_singleton _ _, fun row hrow x hx => ?_⟩
      obtain rfl := List.mem_singleton.mp hx
      exact hbefore row hrow

/-- One statement keeps the anchors sound exactly when it is witnessed. -/
theorem sound_step_iff (hinv : s.Inv) (h : s.Sound) (hstep : s.step a = some s') :
    s'.Sound ↔ s.Witnessed a := by
  cases a with
  | append x =>
    obtain rfl := Option.some.inj hstep
    exact iff_of_true (h.of_anchors (List.prefix_append _ _) rfl) trivial
  | readAudit call d =>
    simp only [step] at hstep
    split at hstep <;> obtain rfl := Option.some.inj hstep <;>
      exact iff_of_true (h.of_anchors (List.prefix_refl _) rfl) trivial
  | readJournal call =>
    simp only [step] at hstep
    split at hstep <;> obtain rfl := Option.some.inj hstep <;>
      exact iff_of_true (h.of_anchors (List.prefix_refl _) rfl) trivial
  | readSeq call =>
    simp only [step] at hstep
    split at hstep <;> obtain rfl := Option.some.inj hstep <;>
      exact iff_of_true (h.of_anchors (List.prefix_refl _) rfl) trivial
  | record call anchoredAt =>
    simp only [step] at hstep
    split at hstep
    · next d a j anchorSeq hphase =>
      split at hstep
      · -- the number is taken
        next hrecord =>
        obtain rfl := Option.some.inj hstep
        refine iff_of_true (h.of_anchors (List.prefix_refl _) rfl) fun d' a' j' seq hp hfree => ?_
        rw [hphase] at hp
        cases hp
        rw [recordAnchor, if_neg hfree] at hrecord
        cases hrecord
      · next anchors hrecord =>
        obtain rfl := Option.some.inj hstep
        rw [sound_record_iff hinv h hphase hrecord]
        refine ⟨?_, ?_⟩
        · intro hs d' a' j' seq hp _
          rw [hphase] at hp
          cases hp
          exact hs
        · intro hw
          exact hw d a j anchorSeq hphase (recordAnchor_eq_some hrecord).1
    · next hphase =>
      obtain rfl := Option.some.inj hstep
      exact iff_of_true h fun d a j seq hp => absurd hp (hphase d a j seq)
  | fail call =>
    simp only [step] at hstep
    split at hstep <;> obtain rfl := Option.some.inj hstep <;>
      exact iff_of_true (h.of_anchors (List.prefix_refl _) rfl) trivial

theorem sound_init : Sound init where
  coexisted _ hrow := absurd hrow List.not_mem_nil
  ordered := List.Pairwise.nil
  gapless _ := ⟨0, rfl⟩

theorem exists_step (s : AnchorRun) (a : Step) : ∃ s', s.step a = some s' := by
  cases a <;> simp only [step] <;> repeat' first | exact ⟨_, rfl⟩ | split

/-- The numbers of every deployment have no gap and no duplicate in any interleaving. -/
theorem run_gapless {as : List Step} (hrun : run step init as = some s) : Gapless s.anchors :=
  (run_preserves (fun h hstep => Inv.step h hstep) inv_init hrun).gapless

/-- Two emitters take one number, and one of them is refused. -/
theorem run_gapless_two : ∃ s, run step init
    [.readAudit 1 7, .readAudit 2 7, .readJournal 1, .readJournal 2, .readSeq 1, .readSeq 2,
      .record 2 0, .record 1 0] = some s ∧ Gapless s.anchors := by
  obtain ⟨s, hrun⟩ := exists_run exists_step init _
  exact ⟨s, hrun, run_gapless hrun⟩

/-- **Sound anchors.** Over every interleaving of emitters and writers, the heads of each anchor
stood together, later anchors are at or after earlier ones and their numbers have no gap exactly
when every anchor is recorded by a call that is witnessed. -/
theorem sound_iff_witnessed (as : List Step) :
    Throughout step Sound init as ↔ Along step Witnessed init as := by
  obtain ⟨s, hrun⟩ := exists_run exists_step init as
  exact throughout_iff_along (I := fun s => Inv s ∧ Sound s) (fun h => h.2)
    (fun h hw hstep => ⟨h.1.step hstep, (sound_step_iff h.1 h.2 hstep).mpr hw⟩)
    (fun h hstep hsound => (sound_step_iff h.1 h.2 hstep).mp hsound)
    ⟨inv_init, sound_init⟩ hrun

/-- Between the two reads of one emitter both chains grow, the audit chain first: the recorded
pair has never stood. And an emitter that read its heads early can record them late. -/
theorem anchor_never_stood :
    (∃ s, run step init
        [.readAudit 1 7, .append (.audit "a"), .append (.journal [1]), .readJournal 1, .readSeq 1,
          .record 1 0] = some s ∧
      ∃ row ∈ s.anchors, ¬ Coexisted s.appends row.auditHead row.journalHead) ∧
      ∃ s, run step init
        [.readAudit 1 7, .readJournal 1, .append (.audit "a"), .readAudit 2 7, .readJournal 2,
          .readSeq 2, .record 2 0, .readSeq 1, .record 1 0] = some s ∧
        ¬ s.anchors.Pairwise AtOrAfter := by
  refine ⟨⟨_, rfl, _, List.mem_singleton_self _, ?_⟩, _, rfl, by decide⟩
  rintro ⟨l, hl, ha, hj⟩
  have haudit := congrArg ChainHead.height ha
  have hjournal := congrArg ChainHead.height hj
  have hmem := (List.mem_inits l _).mpr hl
  fin_cases hmem
  · exact absurd hjournal (by decide)
  · exact absurd haudit (by decide)
  · exact absurd haudit (by decide)

end AnchorRun

end Eyenet
