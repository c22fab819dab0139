import Eyenet.Base64
import Eyenet.MonitorGate
import Eyenet.OffsetPaging

/-!
# Cursors of list endpoints

The list endpoints of the API are read page by page (`api/deps_paging.py`). A page names the next
one by a cursor, a position in the list that is written as a text; the client hands it back.

* `Cursor.decodeCursor_encodeCursor` — a position comes back as it was.
* `Cursor.walk_unchanged` — page by page, a client gets a list that does not change, in order.
* `Cursor.walk_growing` and `Cursor.walk_shrinking` — what it gets of one that does.
-/

namespace Eyenet

namespace Cursor

open MonitorGate

/-! ## Cursors -/

/-- Why a request is refused. -/
inductive QueryError where
  /-- the `max_length` of the parameter -/
  | tooLong
  /-- `RequestValidationError` -/
  | invalid (loc : List String) (msg type : String)
  deriving DecidableEq

/-- What `decode_cursor` raises. -/
def malformed : QueryError := .invalid ["query", "cursor"] "malformed cursor" "value_error"

/-- The characters that `urlsafe_b64encode` writes for `+` and `/`. -/
def urlsafe (c : Char) : Char := if c = '+' then '-' else if c = '/' then '_' else c

/-- The characters that `urlsafe_b64decode` reads for `-` and `_`. -/
def standard (c : Char) : Char := if c = '-' then '+' else if c = '_' then '/' else c

/-- `text.encode("ascii")` -/
def encodeAscii (cs : List Char) : Option (List UInt8) :=
  if cs.all fun c => c.toNat < 128 then some (cs.map fun c => UInt8.ofNat c.toNat) else none

/-- `bytes.decode("ascii")` -/
def decodeAscii (bytes : List UInt8) : Option (List Char) :=
  if bytes.all fun b => b.toNat < 128 then some (bytes.map fun b => Char.ofNat b.toNat) else none

/-- `encode_cursor` -/
def encodeCursor (offset : ℕ) : String :=
  String.ofList ((Base64.encode ((toString offset).toList.map fun c =>
    UInt8.ofNat c.toNat)).map urlsafe)

/-- The number in a cursor. -/
def cursorNumber (cursor : String) : Option ℤ := do
  let _ ← encodeAscii cursor.toList
  let bytes ← Base64.decode (cursor.toList.map standard)
  let text ← decodeAscii bytes
  pyInt asciiDecimal (String.ofList text)

/-- `decode_cursor` -/
def decodeCursor : Option String → Except QueryError ℕ
  | none => .ok 0
  | some cursor =>
    match cursorNumber cursor with
    | none => .error malformed
    | some offset => if offset < 0 then .error malformed else .ok offset.toNat

/-! ## Pages -/

/-- The `limit` parameter. -/
structure Limit where
  value : ℕ
  low : 1 ≤ value
  high : value ≤ 500

/-- `CursorParams` -/
structure CursorParams where
  offset : ℕ
  limit : Limit
  includeTotal : Bool

/-- `fetch_limit` -/
def CursorParams.fetchLimit (page : CursorParams) : ℕ := page.limit.value + 1

/-- `next_cursor` -/
def CursorParams.nextCursor (page : CursorParams) (fetched : ℕ) : Option String :=
  if page.limit.value < fetched then some (encodeCursor (page.offset + page.limit.value)) else none

/-- `cursor_params` -/
def cursorParams (cursor : Option String) (limit : Limit) (includeTotal : Bool) :
    Except QueryError CursorParams :=
  if ∃ text ∈ cursor, 4096 < text.length then .error .tooLong
  else (decodeCursor cursor).map fun offset => ⟨offset, limit, includeTotal⟩

/-- A page of the API: the items, the cursor of the next page, and the number of all items. -/
structure CursorPage (α : Type*) where
  items : List α
  nextCursor : Option String
  estimatedTotal : Option ℕ

variable {α : Type*}

/-- A list endpoint, where the storage has the rows in its order. -/
def listPage (rows : List α) (page : CursorParams) : CursorPage α :=
  let fetched := (rows.drop page.offset).take page.fetchLimit
  { items := fetched.take page.limit.value
    nextCursor := page.nextCursor fetched.length
    estimatedTotal := if page.includeTotal then some rows.length else none }

/-- A client asks for one page after the other, from request `k` on; `rows k` is what the storage
has at that request. -/
def walk (rows : ℕ → List α) (limit : Limit) : ℕ → ℕ → Option String → Option (List (List α))
  | 0, _, _ => none
  | fuel + 1, k, cursor =>
    match cursorParams cursor limit false with
    | .error _ => none
    | .ok page =>
      match (listPage (rows k) page).nextCursor with
      | none => some [(listPage (rows k) page).items]
      | some next =>
        (walk rows limit fuel (k + 1) (some next)).map ((listPage (rows k) page).items :: ·)

/-! ## Round trip -/

theorem standard_urlsafe {c : Char} (h : c ≠ '-') (h' : c ≠ '_') : standard (urlsafe c) = c := by
  rw [urlsafe]
  split_ifs with hplus hslash
  · rw [hplus]
    rfl
  · rw [hslash]
    rfl
  · rw [standard, if_neg h, if_neg h']

theorem map_standard_urlsafe (bytes : List UInt8) :
    ((Base64.encode bytes).map urlsafe).map standard = Base64.encode bytes := by
  rw [List.map_map]
  refine (List.map_congr_left fun c hc => ?_).trans (List.map_id _)
  rcases Base64.mem_encode hc with ⟨n, hn, rfl⟩ | rfl
  · exact standard_urlsafe (Base64.digit_ne hn (by decide)) (Base64.digit_ne hn (by decide))
  · rfl

theorem ascii_urlsafe {bytes : List UInt8} {c : Char}
    (hc : c ∈ (Base64.encode bytes).map urlsafe) : c.toNat < 128 := by
  obtain ⟨d, hd, rfl⟩ := List.mem_map.mp hc
  have hlow : ∀ d ∈ Base64.alphabet, (urlsafe d).toNat < 128 := by
    have hall : Base64.alphabet.all (fun d => decide ((urlsafe d).toNat < 128)) = true := by rfl
    simpa using hall
  rcases Base64.mem_encode hd with ⟨n, hn, rfl⟩ | rfl
  · exact hlow _ (Base64.digit_mem hn)
  · decide

theorem decodeAscii_map {cs : List Char} (h : ∀ c ∈ cs, c.toNat < 128) :
    decodeAscii (cs.map fun c => UInt8.ofNat c.toNat) = some cs := by
  have hbyte : ∀ c ∈ cs, (UInt8.ofNat c.toNat).toNat = c.toNat := by
    intro c hc
    have hlow := h c hc
    simp only [UInt8.toNat_ofNat']
    omega
  rw [decodeAscii, if_pos]
  · rw [List.map_map]
    refine congrArg some ((List.map_congr_left fun c hc => ?_).trans (List.map_id _))
    rw [Function.comp_apply, hbyte c hc, Char.ofNat_toNat, id]
  · refine List.all_eq_true.mpr fun b hb => decide_eq_true ?_
    obtain ⟨c, hc, rfl⟩ := List.mem_map.mp hb
    rw [hbyte c hc]
    exact h c hc

theorem asciiDecimal_of_isDigit (c : Char) (hc : c.isDigit = true) :
    asciiDecimal c = some (c.toNat - '0'.toNat) := by
  rw [asciiDecimal, if_pos hc]

/-- The digits for which a cursor of the greatest length has room. -/
def maxCursorDigits : ℕ := 3072

theorem length_encodeCursor {offset : ℕ} (h : offset < 10 ^ maxCursorDigits) :
    (encodeCursor offset).length ≤ 4096 := by
  have hdigits : (Nat.toDigits 10 offset).length ≤ maxCursorDigits :=
    (Nat.length_toDigits_le_iff (by decide) (by decide)).mpr h
  have htext : (toString offset).toList = Nat.toDigits 10 offset := Nat.toList_repr
  rw [encodeCursor, String.length_ofList, List.length_map, Base64.length_encode, List.length_map,
    htext]
  rw [maxCursorDigits] at hdigits
  omega

theorem ascii_toString {offset : ℕ} {c : Char} (hc : c ∈ (toString offset).toList) :
    c.toNat < 128 := by
  have htext : (toString offset).toList = Nat.toDigits 10 offset := Nat.toList_repr
  rw [htext] at hc
  have hdigit := Nat.isDigit_of_mem_toDigits (by decide) (le_refl 10) hc
  simp only [Char.isDigit, Bool.and_eq_true, decide_eq_true_eq] at hdigit
  have hup : c.toNat ≤ 57 := hdigit.2
  omega

theorem pyInt_offset {offset : ℕ} (h : offset < 10 ^ maxCursorDigits) :
    pyInt asciiDecimal (toString offset) = some (offset : ℤ) := by
  have hdigits : maxCursorDigits < maxStrDigits := by
    rw [maxCursorDigits, maxStrDigits]
    omega
  have hbound : offset < 10 ^ maxStrDigits := h.trans (Nat.pow_lt_pow_right (by omega) hdigits)
  exact pyInt_toString asciiDecimal_of_isDigit (n := (offset : ℤ)) hbound

/-- The text that is written reads as ASCII. -/
theorem encodeAscii_encodeCursor (offset : ℕ) :
    (encodeAscii (encodeCursor offset).toList).isSome = true := by
  rw [encodeCursor, String.toList_ofList, encodeAscii, if_pos, Option.isSome_some]
  exact List.all_eq_true.mpr fun c hc => decide_eq_true (ascii_urlsafe hc)

theorem decode_encodeCursor (offset : ℕ) :
    Base64.decode ((encodeCursor offset).toList.map standard) =
      some ((toString offset).toList.map fun c => UInt8.ofNat c.toNat) := by
  rw [encodeCursor, String.toList_ofList, map_standard_urlsafe, Base64.decode_encode]

theorem cursorNumber_encodeCursor {offset : ℕ} (h : offset < 10 ^ maxCursorDigits) :
    cursorNumber (encodeCursor offset) = some (offset : ℤ) := by
  obtain ⟨bytes, hbytes⟩ := Option.isSome_iff_exists.mp (encodeAscii_encodeCursor offset)
  simp only [cursorNumber, hbytes, decode_encodeCursor, Option.bind_eq_bind, Option.bind_some,
    decodeAscii_map fun c hc => ascii_toString hc, String.ofList_toList, pyInt_offset h]

/-- **Round trip.** A cursor leads to the position that it was made for. -/
theorem decodeCursor_encodeCursor {offset : ℕ} (h : offset < 10 ^ maxCursorDigits) :
    decodeCursor (some (encodeCursor offset)) = .ok offset := by
  have hsign : ¬(offset : ℤ) < 0 := Int.not_lt.mpr (Int.natCast_nonneg offset)
  simp only [decodeCursor, cursorNumber_encodeCursor h, if_neg hsign, Int.toNat_natCast]

/-! ## Walks -/

section Walk

variable {rows : ℕ → List α} {limit : Limit} {fuel k : ℕ} {cursor : Option String}
variable {pages : List (List α)}

/-- The items of request `k`. -/
def pageOf (rows : ℕ → List α) (limit : Limit) (k : ℕ) : List α :=
  ((rows k).drop (k * limit.value)).take limit.value

/-- A cursor leads to the page of request `k`. -/
def LeadsTo (limit : Limit) (cursor : Option String) (k : ℕ) : Prop :=
  cursorParams cursor limit false = .ok ⟨k * limit.value, limit, false⟩

theorem leadsTo_none (limit : Limit) : LeadsTo limit none 0 := by
  have hno : ¬∃ text ∈ (none : Option String), 4096 < text.length := by simp
  rw [LeadsTo, cursorParams, if_neg hno, Nat.zero_mul]
  rfl

theorem leadsTo_encodeCursor (limit : Limit) (h : k * limit.value < 10 ^ maxCursorDigits) :
    LeadsTo limit (some (encodeCursor (k * limit.value))) k := by
  have hno : ¬∃ text ∈ some (encodeCursor (k * limit.value)), 4096 < text.length := by
    rintro ⟨text, htext, hlong⟩
    obtain rfl := Option.some.inj htext
    exact absurd (length_encodeCursor h) (Nat.not_le_of_lt hlong)
  rw [LeadsTo, cursorParams, if_neg hno, decodeCursor_encodeCursor h]
  rfl

/-- One request of a walk. -/
theorem walk_succ (h : LeadsTo limit cursor k) : walk rows limit (fuel + 1) k cursor =
    if (k + 1) * limit.value < (rows k).length then
      (walk rows limit fuel (k + 1) (some (encodeCursor ((k + 1) * limit.value)))).map
        (pageOf rows limit k :: ·)
    else some [pageOf rows limit k] := by
  have hitems : (((rows k).drop (k * limit.value)).take (limit.value + 1)).take limit.value =
      pageOf rows limit k := by
    rw [List.take_take, Nat.min_eq_left (Nat.le_succ _), pageOf]
  have hmore : limit.value < (((rows k).drop (k * limit.value)).take (limit.value + 1)).length ↔
      (k + 1) * limit.value < (rows k).length := by
    rw [List.length_take, List.length_drop, Nat.succ_mul]
    omega
  rw [walk, h]
  simp only [listPage, CursorParams.nextCursor, CursorParams.fetchLimit, hitems, hmore,
    ← Nat.succ_mul]
  split_ifs <;> rfl

/-- What a walk gives: one page for each request, up to one that reaches the end. -/
theorem walk_eq_some (hbound : ∀ k, (rows k).length < 10 ^ maxCursorDigits)
    (h : LeadsTo limit cursor k) (hwalk : walk rows limit fuel k cursor = some pages) :
    ∃ m, pages = (List.range (m + 1)).map (fun i => pageOf rows limit (k + i)) ∧
      (rows (k + m)).length ≤ (k + m + 1) * limit.value := by
  induction fuel generalizing k cursor pages with
  | zero => cases hwalk
  | succ fuel ih =>
    rw [walk_succ h] at hwalk
    split_ifs at hwalk with hmore
    · obtain ⟨rest, hrest, rfl⟩ := Option.map_eq_some_iff.mp hwalk
      have hnext := leadsTo_encodeCursor limit (hmore.trans (hbound k))
      obtain ⟨m, rfl, hend⟩ := ih hnext hrest
      refine ⟨m + 1, ?_, ?_⟩
      · rw [List.range_succ_eq_map (n := m + 1), List.map_cons, List.map_map]
        refine congrArg (pageOf rows limit k :: ·) (List.map_congr_left fun i _ => ?_)
        rw [Function.comp_apply, Nat.succ_eq_add_one, Nat.add_right_comm, Nat.add_assoc]
      · rw [← Nat.add_assoc, Nat.add_right_comm]
        exact hend
    · obtain rfl := Option.some.inj hwalk
      exact ⟨0, rfl, Nat.not_lt.mp hmore⟩

/-- A walk comes to an end when the list does not outgrow it. -/
theorem exists_walk (rows : ℕ → List α) (limit : Limit) (fuel : ℕ)
    (hbound : ∀ k, (rows k).length < 10 ^ maxCursorDigits) (h : LeadsTo limit cursor k)
    (hend : (rows (k + fuel)).length ≤ (k + fuel + 1) * limit.value) :
    ∃ pages, walk rows limit (fuel + 1) k cursor = some pages := by
  induction fuel generalizing k cursor with
  | zero =>
    rw [Nat.add_zero] at hend
    rw [walk_succ h, if_neg (Nat.not_lt.mpr hend)]
    exact ⟨_, rfl⟩
  | succ fuel ih =>
    rw [walk_succ h]
    split_ifs with hmore
    · have hnext := leadsTo_encodeCursor limit (hmore.trans (hbound k))
      rw [← Nat.add_assoc, Nat.add_right_comm k fuel 1] at hend
      obtain ⟨pages, hpages⟩ := ih hnext hend
      exact ⟨_, congrArg (Option.map _) hpages⟩
    · exact ⟨_, rfl⟩

/-- A few rows are not too many. -/
theorem lt_bound {n : ℕ} (h : n < 10) : n < 10 ^ maxCursorDigits := by
  have hdigits : maxCursorDigits ≠ 0 := by decide
  exact h.trans_le (Nat.le_self_pow hdigits 10)

/-- **A growing list.** Where rows are only added, in whatever places, a client gets every row that
was there at its first request. -/
theorem walk_growing (hbound : ∀ k, (rows k).length < 10 ^ maxCursorDigits)
    (hgrow : ∀ k, (rows k).Sublist (rows (k + 1))) (hnodup : ∀ k, (rows k).Nodup)
    (hwalk : walk rows limit fuel 0 none = some pages) : ∀ x ∈ rows 0, x ∈ pages.flatten := by
  intro x hx
  obtain ⟨m, rfl, hend⟩ := walk_eq_some hbound (leadsTo_none limit) hwalk
  simp only [Nat.zero_add] at hend ⊢
  rw [← List.flatMap_def]
  exact OffsetPaging.mem_windows_of_growing hgrow hnodup hend hx

/-- A row is added in front, behind the first of the pages of one row. -/
theorem walk_growing_front :
    ∃ pages, walk (fun k => if k = 0 then [1, 2] else [0, 1, 2]) ⟨1, by decide, by decide⟩ 4 0
        none = some pages ∧ ∀ x ∈ [1, 2], x ∈ pages.flatten := by
  have hbound : ∀ k : ℕ, (if k = 0 then [1, 2] else [0, 1, 2]).length < 10 ^ maxCursorDigits := by
    intro k
    split_ifs <;> exact lt_bound (by decide)
  have hgrow : ∀ k : ℕ, (if k = 0 then [1, 2] else [0, 1, 2]).Sublist
      (if k + 1 = 0 then [1, 2] else [0, 1, 2]) := by
    intro k
    rw [if_neg (Nat.succ_ne_zero k)]
    split_ifs <;> decide
  have hnodup : ∀ k : ℕ, (if k = 0 then [1, 2] else [0, 1, 2]).Nodup := by
    intro k
    split_ifs <;> decide
  obtain ⟨pages, hpages⟩ := exists_walk _ ⟨1, by decide, by decide⟩ 3 hbound (leadsTo_none _)
    (by decide)
  exact ⟨pages, hpages, walk_growing hbound hgrow hnodup hpages⟩

/-- **A shrinking list.** Where rows are only removed, a client gets no row twice. -/
theorem walk_shrinking (hbound : ∀ k, (rows k).length < 10 ^ maxCursorDigits)
    (hshrink : ∀ k, (rows (k + 1)).Sublist (rows k)) (hnodup : (rows 0).Nodup)
    (hwalk : walk rows limit fuel 0 none = some pages) : pages.flatten.Nodup := by
  obtain ⟨m, rfl, -⟩ := walk_eq_some hbound (leadsTo_none limit) hwalk
  simp only [Nat.zero_add]
  rw [← List.flatMap_def]
  exact OffsetPaging.nodup_windows_of_shrinking hshrink hnodup limit.value (m + 1)

/-- The row of the first page is removed behind it. -/
theorem walk_shrinking_front :
    ∃ pages, walk (fun k => if k = 0 then [0, 1, 2] else [1, 2]) ⟨1, by decide, by decide⟩ 3 0
        none = some pages ∧ pages.flatten.Nodup := by
  have hbound : ∀ k : ℕ, (if k = 0 then [0, 1, 2] else [1, 2]).length < 10 ^ maxCursorDigits := by
    intro k
    split_ifs <;> exact lt_bound (by decide)
  have hshrink : ∀ k : ℕ, (if k + 1 = 0 then [0, 1, 2] else [1, 2]).Sublist
      (if k = 0 then [0, 1, 2] else [1, 2]) := by
    intro k
    rw [if_neg (Nat.succ_ne_zero k)]
    split_ifs <;> decide
  obtain ⟨pages, hpages⟩ := exists_walk _ ⟨1, by decide, by decide⟩ 2 hbound (leadsTo_none _)
    (by decide)
  exact ⟨pages, hpages, walk_shrinking hbound hshrink (by decide) hpages⟩

end Walk

end Cursor

end Eyenet
