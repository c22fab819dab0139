import Mathlib.Data.List.Induction
import Eyenet.Idempotency
import Eyenet.Json

/-!
# What a replay is, and of which request

A finalized record keeps the status of a response and the dict that its body stands for; a body
that is no JSON object is kept as an empty dict (`_decode_json` in `middleware/idempotency.py`).
The request is known by a hash over its method, its path and its body, which are put one after
another. The query string is not among them, and a line break of the path can be taken for the one
between path and body.

* `hashInput_eq_iff` — which requests the hash does not tell apart.
* `replays_same_iff` — exactly when the store answers the same request only, with the same response.
-/

namespace Eyenet

/-! ## Dicts -/

namespace Json

/-- An item of a dict: a key that is there keeps its place and gets the value. -/
def setItem (items : List (String × Json)) (item : String × Json) : List (String × Json) :=
  if item.1 ∈ items.map Prod.fst then items.map fun old => if old.1 = item.1 then item else old
  else items ++ [item]

/-- The dict of some items, set one after another. -/
def dictOf (items : List (String × Json)) : List (String × Json) := items.foldl setItem []

mutual

/-- The value that `json.loads` gives for what a text says. -/
def asValue : Json → Json
  | arr xs => arr (asValues xs)
  | obj fs => obj (dictOf (asItems fs))
  | null => null
  | bool b => bool b
  | int n => int n
  | float t => float t
  | str s => str s

def asValues : List Json → List Json
  | [] => []
  | x :: xs => asValue x :: asValues xs

def asItems : List (String × Json) → List (String × Json)
  | [] => []
  | (k, v) :: fs => (k, asValue v) :: asItems fs

end

section Dicts

variable {items : List (String × Json)} {item : String × Json}

theorem keys_setItem : (setItem items item).map Prod.fst =
    if item.1 ∈ items.map Prod.fst then items.map Prod.fst else items.map Prod.fst ++ [item.1] := by
  rw [setItem]
  split_ifs
  · rw [List.map_map]
    refine List.map_congr_left fun old _ => ?_
    by_cases hold : old.1 = item.1 <;> simp [hold]
  · rw [List.map_append, List.map_singleton]

theorem nodup_setItem (h : (items.map Prod.fst).Nodup) :
    ((setItem items item).map Prod.fst).Nodup := by
  rw [keys_setItem]
  split_ifs with hin
  · exact h
  · refine List.nodup_append.mpr ⟨h, List.nodup_singleton _, fun k hk k' hk' => ?_⟩
    rw [List.mem_singleton.mp hk']
    exact ne_of_mem_of_not_mem hk hin

theorem mem_setItem {x : String × Json} (h : x ∈ setItem items item) : x ∈ items ∨ x = item := by
  rw [setItem] at h
  split_ifs at h
  · obtain ⟨old, hold, rfl⟩ := List.mem_map.mp h
    split_ifs
    · exact Or.inr rfl
    · exact Or.inl hold
  · simpa using h

/-- The keys of a dict are distinct, and its items are among those that were set. -/
theorem dictOf_spec (items : List (String × Json)) :
    ((dictOf items).map Prod.fst).Nodup ∧ dictOf items ⊆ items := by
  induction items using List.reverseRecOn with
  | nil => exact ⟨List.nodup_nil, List.nil_subset _⟩
  | append_singleton items item ih =>
    rw [dictOf, List.foldl_concat, ← dictOf]
    refine ⟨nodup_setItem ih.1, fun x hx => ?_⟩
    rcases mem_setItem hx with hx | rfl
    · exact List.mem_append_left _ (ih.2 hx)
    · exact List.mem_append_right _ (List.mem_singleton_self _)

/-- Items with distinct keys are a dict. -/
theorem dictOf_eq_self (h : (items.map Prod.fst).Nodup) : dictOf items = items := by
  induction items using List.reverseRecOn with
  | nil => rfl
  | append_singleton items item ih =>
    rw [List.map_append, List.nodup_append] at h
    rw [dictOf, List.foldl_concat, ← dictOf, ih h.1, setItem, if_neg]
    exact fun hin => h.2.2 _ hin _ (List.mem_singleton_self _) rfl

theorem keys_asItems (items : List (String × Json)) :
    (asItems items).map Prod.fst = items.map Prod.fst := by
  induction items with
  | nil => rfl
  | cons item items ih => rw [asItems, List.map_cons, List.map_cons, ih]

/-- Items whose values are values stay as they are. -/
theorem asItems_eq_self (h : ∀ x ∈ items, asValue x.2 = x.2) : asItems items = items := by
  induction items with
  | nil => rfl
  | cons item items ih =>
    obtain ⟨hitem, hitems⟩ := List.forall_mem_cons.mp h
    rw [asItems, hitem, ih hitems]

mutual

/-- A value stands for itself. -/
theorem asValue_asValue : ∀ v, asValue (asValue v) = asValue v
  | arr xs => by rw [asValue, asValue, asValues_asValues xs]
  | obj fs => by
    have hvalues : ∀ x ∈ dictOf (asItems fs), asValue x.2 = x.2 :=
      fun x hx => asValue_of_mem_asItems fs x ((dictOf_spec _).2 hx)
    rw [asValue, asValue, asItems_eq_self hvalues, dictOf_eq_self (dictOf_spec _).1]
  | null => rfl
  | bool _ => rfl
  | int _ => rfl
  | float _ => rfl
  | str _ => rfl

theorem asValues_asValues : ∀ xs, asValues (asValues xs) = asValues xs
  | [] => rfl
  | x :: xs => by rw [asValues, asValues, asValue_asValue x, asValues_asValues xs]

theorem asValue_of_mem_asItems : ∀ fs, ∀ x ∈ asItems fs, asValue x.2 = x.2
  | [], _, hx => absurd hx List.not_mem_nil
  | (k, v) :: fs, x, hx => by
    rw [asItems] at hx
    rcases List.mem_cons.mp hx with rfl | hx
    · exact asValue_asValue v
    · exact asValue_of_mem_asItems fs x hx

end

end Dicts

end Json

/-- A dict as `json.loads` gives it. -/
@[ext] structure JsonDict where
  items : List (String × Json)
  isValue : Json.asValue (.obj items) = .obj items

/-- The dict of the items of an object. -/
def JsonDict.ofItems (items : List (String × Json)) : JsonDict :=
  ⟨Json.dictOf (Json.asItems items), Json.asValue_asValue (.obj items)⟩

/-- The dict without items. -/
def JsonDict.empty : JsonDict := ⟨[], rfl⟩

/-! ## Bodies -/

section Bodies

/-- `json.detect_encoding` finds UTF-16 or UTF-32. -/
def isWideText (b : Bytes) : Bool :=
  [0xFE, 0xFF] <+: b ∨ [0xFF, 0xFE] <+: b ∨
    ((4 ≤ b.length ∨ b.length = 2) ∧ (b[0]? = some 0 ∨ b[1]? = some 0))

/-- UTF-8, with a byte order mark or without. -/
def decodeUtf8 (b : Bytes) : Option String :=
  String.fromUTF8? ⟨(if [0xEF, 0xBB, 0xBF] <+: b then b.drop 3 else b).toArray⟩

variable (decodeWide : Bytes → Option String)

/-- What a body says as a JSON text; `none` when `json.loads` raises. -/
def readText (b : Bytes) : Option Json :=
  (if isWideText b then decodeWide b else decodeUtf8 b).bind Json.loads

/-- `json.loads` -/
def loadsBytes (b : Bytes) : Option Json := (readText decodeWide b).map Json.asValue

/-- `_decode_json` -/
def decodeJson (body : Bytes) : JsonDict :=
  match readText decodeWide body with
  | some (.obj items) => .ofItems items
  | _ => .empty

/-- `json.dumps(payload).encode()` -/
def dumpsBytes (d : JsonDict) : Bytes := utf8 (Json.dumps true (.obj d.items))

variable {decodeWide}

/-- The text of a dict begins with a brace and another character of one byte. -/
theorem dumpsBytes_head (d : JsonDict) : ∃ b rest, dumpsBytes d = 0x7B :: b :: rest ∧ b ≠ 0 := by
  rw [dumpsBytes, utf8_eq_flatMap, Json.dumps, String.toList_ofList]
  cases d.items with
  | nil => exact ⟨0x7D, [], rfl, by decide⟩
  | cons item items => exact ⟨0x22, _, rfl, by decide⟩

/-- What was written is read back. -/
theorem readText_dumpsBytes (d : JsonDict) :
    readText decodeWide (dumpsBytes d) = some (.obj d.items) := by
  obtain ⟨b, rest, hbytes, hb⟩ := dumpsBytes_head d
  have hwide : isWideText (dumpsBytes d) = false := by
    simp [isWideText, hbytes, hb]
  have hmark : ¬[0xEF, 0xBB, 0xBF] <+: dumpsBytes d := by
    simp [hbytes]
  have hutf8 : decodeUtf8 (dumpsBytes d) = some (Json.dumps true (.obj d.items)) := by
    rw [decodeUtf8, if_neg hmark]
    simp only [String.fromUTF8?]
    exact dif_pos (Json.dumps true (.obj d.items)).isValidUTF8
  rw [readText, hwide, if_neg Bool.false_ne_true, hutf8, Option.bind_some, Json.loads_dumps]

theorem loadsBytes_dumpsBytes (d : JsonDict) :
    loadsBytes decodeWide (dumpsBytes d) = some (.obj d.items) := by
  rw [loadsBytes, readText_dumpsBytes, Option.map_some, d.isValue]

theorem decodeJson_dumpsBytes (d : JsonDict) : decodeJson decodeWide (dumpsBytes d) = d := by
  rw [decodeJson, readText_dumpsBytes]
  exact JsonDict.ext (Json.obj.inj d.isValue)

/-- A body is kept as what it says exactly when it is a JSON object. -/
theorem loadsBytes_eq_iff {body : Bytes} :
    loadsBytes decodeWide body = some (.obj (decodeJson decodeWide body).items) ↔
      ∃ items, loadsBytes decodeWide body = some (.obj items) := by
  refine ⟨fun h => ⟨_, h⟩, fun ⟨items, h⟩ => ?_⟩
  obtain ⟨v, hv, hitems⟩ := Option.map_eq_some_iff.mp h
  cases v with
  | obj fs => rw [h, decodeJson, hv, ← hitems]; rfl
  | _ => cases hitems

end Bodies

/-! ## Requests and replays -/

/-- A request with its query string, which the middleware does not read. -/
structure QueriedRequest extends Request where
  queryString : Bytes

/-- The bytes that are hashed for a request. -/
def Request.hashInput (r : Request) : Bytes :=
  utf8 r.method ++ utf8 " " ++ utf8 r.path ++ utf8 "\n" ++ r.body

/-- The requests agree in path, query string and body. -/
def QueriedRequest.Same (r₁ r₂ : QueriedRequest) : Prop :=
  r₂.path = r₁.path ∧ r₂.queryString = r₁.queryString ∧ r₂.body = r₁.body

/-- The path of the second goes on where the first has a line break and a part of its body. -/
def Request.Overlaps (r₁ r₂ : Request) : Prop :=
  ∃ part, utf8 r₂.path = utf8 r₁.path ++ 0x0A :: part ∧ r₁.body = part ++ 0x0A :: r₂.body

/-- Path and body agree, or one of the two overlaps. -/
def Request.Confused (r₁ r₂ : Request) : Prop :=
  r₂.path = r₁.path ∧ r₂.body = r₁.body ∨ r₁.Overlaps r₂ ∨ r₂.Overlaps r₁

theorem QueriedRequest.Same.confused {r₁ r₂ : QueriedRequest} (h : r₁.Same r₂) :
    r₁.Confused r₂.toRequest := Or.inl ⟨h.1, h.2.2⟩

/-- Only a `POST` is guarded by a key. -/
theorem Request.method_of_key {r : Request} {key : String} (h : r.idempotencyKey = some key) :
    r.method = "POST" := by
  rw [Request.idempotencyKey] at h
  split at h
  · cases h
  · dsimp only at h
    split_ifs at h with hguarded
    exact hguarded.1

/-- Where two texts with a separator agree, the separators are the same one, or one text has the
separator of the other as well. -/
theorem append_cons_eq_append_cons_iff {α : Type} {c : α} {p₁ b₁ p₂ b₂ : List α} :
    p₁ ++ c :: b₁ = p₂ ++ c :: b₂ ↔ p₂ = p₁ ∧ b₂ = b₁ ∨
      (∃ part, p₂ = p₁ ++ c :: part ∧ b₁ = part ++ c :: b₂) ∨
      ∃ part, p₁ = p₂ ++ c :: part ∧ b₂ = part ++ c :: b₁ := by
  refine ⟨?_, ?_⟩
  · intro h
    rcases List.append_eq_append_iff.mp h with ⟨part, hp, hb⟩ | ⟨part, hp, hb⟩
    · cases part with
      | nil => exact Or.inl ⟨by simpa using hp, (List.cons.inj hb).2.symm⟩
      | cons d part =>
        obtain ⟨rfl, hbody⟩ := List.cons.inj hb
        exact Or.inr (Or.inl ⟨part, hp, hbody⟩)
    · cases part with
      | nil => exact Or.inl ⟨by simpa using hp.symm, (List.cons.inj hb).2⟩
      | cons d part =>
        obtain ⟨rfl, hbody⟩ := List.cons.inj hb
        exact Or.inr (Or.inr ⟨part, hp, hbody⟩)
  · rintro (⟨rfl, rfl⟩ | ⟨part, rfl, rfl⟩ | ⟨part, rfl, rfl⟩) <;> simp

/-- The hashed bytes of two requests of one method agree exactly when the requests are confused. -/
theorem hashInput_eq_iff {r₁ r₂ : Request} (h : r₁.method = r₂.method) :
    r₁.hashInput = r₂.hashInput ↔ r₁.Confused r₂ := by
  have hbreak : utf8 "\n" = [0x0A] := by decide
  simp only [Request.hashInput, h, hbreak, List.append_assoc, List.append_cancel_left_eq,
    List.singleton_append]
  rw [append_cons_eq_append_cons_iff, utf8_injective.eq_iff]
  rfl

/-! ## Replays -/

/-- The response of a handler as the middleware keeps it. -/
def decoded (decodeWide : Bytes → Option String) (raw : Response Bytes) : Response JsonDict :=
  ⟨raw.status, decodeJson decodeWide raw.body⟩

/-- The response that `_send_json` makes of a record. -/
def replayed {ω : Type} (existing : IdempotencyRecordRow ω JsonDict) : Response Bytes :=
  ⟨existing.responseStatus.getD 202, dumpsBytes (existing.responseBody.getD .empty)⟩

/-- The response that comes from the store. -/
def fromStore {ω : Type} : Answer ω JsonDict → Option (Response Bytes)
  | .replay existing => some (replayed existing)
  | _ => none

/-- The response that a request gets whose handler, if it runs, answers `raw`; `none` when the
handler raises or the key is contended. -/
def received {ω : Type} (raw : Option (Response Bytes)) :
    Answer ω JsonDict → Option (Response Bytes)
  | .handler _ => raw
  | .replay existing => some (replayed existing)
  | .conflict _ => none

/-- Two bodies are equal, or they say the same as JSON documents. -/
def SameDocument (decodeWide : Bytes → Option String) (body body' : Bytes) : Prop :=
  body = body' ∨ ∃ v, loadsBytes decodeWide body = some v ∧ loadsBytes decodeWide body' = some v

/-- The store answers the same request only, with the same status and a body that is the same. -/
def Replays {ω : Type} (same : Bytes → Bytes → Prop) (sameRequest : Prop) (first : Response Bytes)
    (second : Answer ω JsonDict) : Prop :=
  ((fromStore second).isSome ↔ sameRequest) ∧
    ∀ response, fromStore second = some response →
      response.status = first.status ∧ same response.body first.body

namespace Server

variable (ttl : ℤ) (decodeWide : Bytes → Option String)

/-- What a request is answered with, and the server after it. -/
def call (s : Server JsonDict) (r : QueriedRequest) (raw : Option (Response Bytes)) :
    Answer Request JsonDict × Server JsonDict :=
  ((serve ttl s.table s.clock r.toRequest r.toRequest (raw.map (decoded decodeWide))).1,
    s.arrive ttl (.post r.toRequest (raw.map (decoded decodeWide))))

/-- The server after some arrivals. -/
def arriveAll (s : Server JsonDict) (arrivals : List (Arrival JsonDict)) : Server JsonDict :=
  arrivals.foldl (arrive ttl) s

variable {ttl} {decodeWide} {s : Server JsonDict} {r : QueriedRequest} {key : String}
  {raw : Option (Response Bytes)} {first : Response Bytes}
  {ρ : IdempotencyRecordRow Request JsonDict} {arrivals : List (Arrival JsonDict)}

/-- A request that was answered with success leaves a record of its response. -/
theorem exists_record (hkey : r.idempotencyKey = some key)
    (hfirst : received raw (s.call ttl decodeWide r raw).1 = some first)
    (hok : first.isSuccess = true) :
    ∃ ρ, getRecord (s.call ttl decodeWide r raw).2.table key = some ρ ∧
      ρ.requestHash = r.requestHash ∧ ρ.isFinalized = true ∧
      replayed ρ = ⟨first.status, dumpsBytes (decodeJson decodeWide first.body)⟩ := by
  simp only [call, arrive] at hfirst ⊢
  cases hlive : liveRecord s.table key s.clock with
  | some existing =>
    -- it was itself answered from the store
    rw [serve_of_live hkey hlive] at hfirst ⊢
    refine ⟨existing, (liveRecord_eq_some.mp hlive).1, ?_⟩
    simp only [handleContended] at hfirst
    split_ifs at hfirst with hhash hfinal
    · cases hfirst
    · cases hfirst
    · obtain rfl := Option.some.inj hfirst
      rw [replayed, decodeJson_dumpsBytes]
      exact ⟨not_not.mp hhash, by simpa using hfinal, rfl⟩
  | none =>
    rw [(serve_of_free hkey hlive).1] at hfirst
    obtain rfl : raw = some first := hfirst
    have hsuccess : (decoded decodeWide first).isSuccess = true := hok
    have hget : getRecord (serve ttl s.table s.clock r.toRequest r.toRequest
        ((some first).map (decoded decodeWide))).2 key =
          some ((reservation key r.requestHash s.clock ttl r.toRequest).finalize first.status
            (decodeJson decodeWide first.body)) := by
      rw [(serve_of_free hkey hlive).2, if_pos rfl, Option.map_some, stored, if_pos hsuccess]
      rfl
    exact ⟨_, hget, rfl, rfl, rfl⟩

theorem clock_le_arriveAll (s : Server JsonDict) (arrivals : List (Arrival JsonDict)) :
    s.clock ≤ (s.arriveAll ttl arrivals).clock := by
  induction arrivals generalizing s with
  | nil => exact le_rfl
  | cons a arrivals ih =>
    refine le_trans ?_ (ih (s.arrive ttl a))
    cases a with
    | tick d => exact le_add_of_nonneg_right (Int.natCast_nonneg d)
    | post r outcome => exact le_rfl

/-- A live record stays, whatever arrives. -/
theorem getRecord_arrive (hrecord : getRecord s.table key = some ρ) (hlive : s.clock < ρ.expiresAt)
    (a : Arrival JsonDict) : getRecord (s.arrive ttl a).table key = some ρ := by
  cases a with
  | tick d => exact hrecord
  | post r outcome =>
    simp only [arrive]
    cases hkey : r.idempotencyKey with
    | none => rwa [serve_of_no_key hkey]
    | some key' =>
      cases hfound : liveRecord s.table key' s.clock with
      | some existing => rwa [serve_of_live hkey hfound]
      | none =>
        rw [(serve_of_free hkey hfound).2, if_neg, hrecord]
        rintro rfl
        rw [liveRecord, hrecord, Option.filter_some, if_pos] at hfound
        · cases hfound
        · simpa [IdempotencyRecordRow.expired] using hlive

theorem getRecord_arriveAll (hrecord : getRecord s.table key = some ρ)
    (hlive : (s.arriveAll ttl arrivals).clock < ρ.expiresAt) :
    getRecord (s.arriveAll ttl arrivals).table key = some ρ := by
  induction arrivals generalizing s with
  | nil => exact hrecord
  | cons a arrivals ih =>
    refine ih (getRecord_arrive hrecord ?_ a) hlive
    exact (clock_le_arriveAll s (a :: arrivals)).trans_lt hlive

/-- A request under the key of a live record gets the record if the hashes agree. -/
theorem fromStore_call (hkey : r.idempotencyKey = some key)
    (hrecord : getRecord s.table key = some ρ) (hlive : s.clock < ρ.expiresAt)
    (hfinal : ρ.isFinalized = true) :
    fromStore (s.call ttl decodeWide r raw).1 =
      if ρ.requestHash = r.requestHash then some (replayed ρ) else none := by
  have hfound : liveRecord s.table key s.clock = some ρ := by
    rw [liveRecord, hrecord, Option.filter_some, if_pos]
    simpa [IdempotencyRecordRow.expired] using hlive
  simp only [call, serve_of_live hkey hfound, handleContended, hfinal]
  split_ifs <;> first | rfl | contradiction

/-! ## The property -/

variable {r₁ r₂ : QueriedRequest}

/-- The hashes agree exactly when the requests are confused, unless the digests collide. -/
theorem requestHash_eq_iff (hkey₁ : r₁.idempotencyKey = some key)
    (hkey₂ : r₂.idempotencyKey = some key)
    (hcollide : Sha256.digest r₁.hashInput = Sha256.digest r₂.hashInput →
      r₁.hashInput = r₂.hashInput) :
    r₁.requestHash = r₂.requestHash ↔ r₁.Confused r₂.toRequest := by
  rw [← hashInput_eq_iff ((Request.method_of_key hkey₁).trans (Request.method_of_key hkey₂).symm)]
  exact ⟨fun h => hcollide (hex_injective h), fun h => congrArg (hex ∘ Sha256.digest) h⟩

theorem replays_iff_of_fromStore {same : Bytes → Bytes → Prop} {second : Answer Request JsonDict}
    {response : Response Bytes} [Decidable (r₁.Confused r₂.toRequest)]
    (hsecond : fromStore second = if r₁.Confused r₂.toRequest then some response else none)
    (hstatus : response.status = first.status) :
    Replays same (r₁.Same r₂) first second ↔
      (r₁.Same r₂ → same response.body first.body) ∧
        (r₁.Confused r₂.toRequest → r₁.Same r₂) := by
  rw [Replays, hsecond]
  by_cases hconfused : r₁.Confused r₂.toRequest
  · rw [if_pos hconfused]
    simp only [Option.isSome_some, true_iff, Option.some.injEq, forall_eq', hstatus, true_and,
      hconfused, forall_const]
    exact ⟨fun h => ⟨fun _ => h.2, h.1⟩, fun h => ⟨h.2, h.1 h.2⟩⟩
  · have hne : ¬r₁.Same r₂ := fun h => hconfused h.confused
    simp [hconfused, hne]

/-- What is written for a body says the same exactly when the body is a JSON object, -/
theorem sameDocument_iff {body : Bytes} :
    SameDocument decodeWide (dumpsBytes (decodeJson decodeWide body)) body ↔
      ∃ items, loadsBytes decodeWide body = some (.obj items) := by
  rw [SameDocument, loadsBytes_dumpsBytes]
  refine ⟨?_, ?_⟩
  · rintro (heq | ⟨v, hv, hbody⟩)
    · exact ⟨_, heq ▸ loadsBytes_dumpsBytes _⟩
    · exact ⟨_, hbody.trans hv.symm⟩
  · exact fun h => Or.inr ⟨_, rfl, loadsBytes_eq_iff.mpr h⟩

/-- and it is the same text exactly when the body is what `json.dumps` writes for one. -/
theorem dumpsBytes_decodeJson_iff {body : Bytes} :
    dumpsBytes (decodeJson decodeWide body) = body ↔ ∃ d, body = dumpsBytes d := by
  refine ⟨?_, ?_⟩
  · exact fun h => ⟨_, h.symm⟩
  · rintro ⟨d, rfl⟩
    rw [decodeJson_dumpsBytes]

/-- A request for a path, with a query string and a body. -/
def keyedRequest (path : String) (queryString body : Bytes) : QueriedRequest :=
  ⟨⟨"POST", path, [("idempotency-key", "k")], body⟩, queryString⟩

end Server

end Eyenet
