import Eyenet.Linker
import Mathlib.Data.List.Induction

/-!
# The search for near simhashes

A simhash is sixteen hexadecimal digits. The store (`storage/sqlmodel_repo/vectors.py`) keeps it in
an integer column, whose integers are signed: `_hex_to_int` wraps the upper half, `_int_to_hex`
unwraps it, and `_hamming64`, the function that the database calls, masks what the sign brings in.
The comparators count on the digits themselves.

* `Vectors.hamming64_eq` — the count on signed integers is the count on words of 64 bits.
* `Vectors.nearestSimhashes_column` — the search on signed integers is the one on words.
* `Vectors.nearest_simhashes_exact` — a search answers what was upserted.
-/

namespace Eyenet

open Linker (hexNumber int16_eq)

namespace Vectors

/-! ## The code -/

/-- `_hex_to_int` -/
def hexToInt (h : String) : Except LinkerError ℤ :=
  (int16 h).map fun unsigned => if 2 ^ 63 ≤ unsigned then unsigned - 2 ^ 64 else unsigned

/-- `format(n, "016x")` -/
def format016x (n : ℤ) : String :=
  let digits (w : ℕ) := Framing.numeral 16 Nat.digitChar (max w (n.natAbs.log2 / 4 + 1)) n.natAbs
  if 0 ≤ n then String.ofList (digits 16) else String.ofList ('-' :: digits 15)

/-- `_int_to_hex` -/
def intToHex (n : ℤ) : String := format016x (if n < 0 then n + 2 ^ 64 else n)

/-- `_hamming64` -/
def hamming64 : Option ℤ → Option ℤ → ℕ
  | some a, some b => popcount (Int.land (Int.xor a b) 0xFFFFFFFFFFFFFFFF).toNat
  | _, _ => 0

/-- What an integer column can hold. -/
def Fits (n : ℤ) : Prop := -2 ^ 63 ≤ n ∧ n < 2 ^ 63

instance (n : ℤ) : Decidable (Fits n) := inferInstanceAs (Decidable (_ ∧ _))

/-- A row of `vector_signature`, with its integer. -/
structure SignatureRow where
  actorId : Uuid
  primitiveName : String
  simhash : ℤ
  deriving DecidableEq

def SignatureRow.key (r : SignatureRow) : Uuid × String := (r.actorId, r.primitiveName)

abbrev SignatureIndex := Table SignatureRow.key

/-- `upsert_simhash` -/
def upsertSimhash (index : SignatureIndex) (actorId : Uuid) (primitiveName simhashHex : String) :
    Except LinkerError SignatureIndex :=
  match hexToInt simhashHex with
  | .error e => .error e
  | .ok n => if Fits n then .ok (index.save ⟨actorId, primitiveName, n⟩) else .error .overflowError

/-- The row that the query gives, as a `VectorMatch`. -/
def SignatureRow.toMatch (query : ℤ) (r : SignatureRow) : VectorMatch :=
  ⟨r.actorId, hamming64 (some query) (some r.simhash), intToHex r.simhash⟩

/-- `LIMIT`, which a negative number does not set. -/
def limited {α : Type*} (limit : ℤ) (rows : List α) : List α :=
  if limit < 0 then rows else rows.take limit.toNat

/-- `nearest_simhashes` -/
def nearestSimhashes (index : SignatureIndex) (primitiveName simhashHex : String)
    (maxDistance limit : ℤ) (excludeActorId : Option Uuid) :
    Except LinkerError (List VectorMatch) :=
  match hexToInt simhashHex with
  | .error e => .error e
  | .ok query =>
    if Fits query then
      let rows := index.rows.filter fun r =>
        r.primitiveName = primitiveName ∧ some r.actorId ≠ excludeActorId
      let near := (rows.map (SignatureRow.toMatch query)).filter fun m =>
        (m.distance : ℤ) ≤ maxDistance
      .ok (limited limit (near.insertionSort fun m m' => m.distance ≤ m'.distance))
    else .error .overflowError

/-! ## Distances -/

theorem testBit_emod {i : ℕ} (hi : i < 64) (x : ℤ) :
    (x % 2 ^ 64).toNat.testBit i = Int.testBit x i := by
  cases x with
  | ofNat n =>
    have hmod : ((Int.ofNat n) % 2 ^ 64).toNat = n % 2 ^ 64 := by
      rw [Int.ofNat_eq_natCast]
      omega
    rw [hmod, Nat.testBit_mod_two_pow, decide_eq_true hi, Bool.true_and]
    rfl
  | negSucc n =>
    have hmod : (Int.negSucc n % 2 ^ 64).toNat = 2 ^ 64 - (n % 2 ^ 64 + 1) := by omega
    rw [hmod, Nat.testBit_two_pow_sub_succ (Nat.mod_lt _ (by decide)), decide_eq_true hi,
      Bool.true_and, Nat.testBit_mod_two_pow, decide_eq_true hi, Bool.true_and]
    rfl

theorem testBit_land_mask (x : ℤ) (i : ℕ) :
    (Int.land x 0xFFFFFFFFFFFFFFFF).toNat.testBit i = (decide (i < 64) && Int.testBit x i) := by
  have hmask : Int.testBit 0xFFFFFFFFFFFFFFFF i = decide (i < 64) :=
    Nat.testBit_two_pow_sub_one 64 i
  have hbit := Int.testBit_land x 0xFFFFFFFFFFFFFFFF i
  rw [hmask, Bool.and_comm] at hbit
  rw [← hbit]
  cases x <;> rfl

/-- **The distance** of two integers is that of their words: the mask takes off the sign. -/
theorem hamming64_eq (a b : ℤ) :
    hamming64 (some a) (some b) = storedDistance (BitVec.ofInt 64 a) (BitVec.ofInt 64 b) := by
  rw [hamming64, storedDistance, BitVec.toNat_xor, BitVec.toNat_ofInt, BitVec.toNat_ofInt]
  congr 1
  refine Nat.eq_of_testBit_eq fun i => ?_
  rw [testBit_land_mask, Int.testBit_lxor, Nat.testBit_xor]
  by_cases hi : i < 64
  · rw [decide_eq_true hi, Bool.true_and]
    exact congrArg₂ _ (testBit_emod hi a).symm (testBit_emod hi b).symm
  · have hlow (x : ℤ) : (x % 2 ^ 64).toNat.testBit i = false := by
      have hpow : 2 ^ 64 ≤ 2 ^ i := Nat.pow_le_pow_right (by decide) (by omega)
      exact Nat.testBit_lt_two_pow (by omega)
    change _ = Bool.xor ((a % 2 ^ 64).toNat.testBit i) ((b % 2 ^ 64).toNat.testBit i)
    rw [hlow, hlow, decide_eq_false hi]
    rfl

/-- The text of an integer that fits is that of its word. -/
theorem intToHex_eq {n : ℤ} (h : Fits n) : intToHex n = Eyenet.intToHex (BitVec.ofInt 64 n) := by
  obtain ⟨hlow, hhigh⟩ := h
  have hword : (BitVec.ofInt 64 n).toNat = (if n < 0 then n + 2 ^ 64 else n).natAbs := by
    rw [BitVec.toNat_ofInt]
    split_ifs <;> omega
  have hnonneg : 0 ≤ if n < 0 then n + 2 ^ 64 else n := by split_ifs <;> omega
  have hlt : (BitVec.ofInt 64 n).toNat < 2 ^ 64 := (BitVec.ofInt 64 n).isLt
  have hwidth : max 16 ((BitVec.ofInt 64 n).toNat.log2 / 4 + 1) = 16 := by
    have hlog : (BitVec.ofInt 64 n).toNat.log2 < 64 := by
      by_cases hzero : (BitVec.ofInt 64 n).toNat = 0
      · rw [hzero]
        decide
      · exact (Nat.log2_lt hzero).mpr hlt
    omega
  rw [intToHex, format016x, if_pos hnonneg, ← hword]
  dsimp only
  rw [hwidth]
  rfl

/-! ## Hexadecimal texts -/

/-- Sixteen hexadecimal digits. -/
structure HexText where
  text : String
  length : text.toList.length = 16
  digits : ∀ c ∈ text.toList, (hexValue c).isSome = true

/-- The hexadecimal digits that `format` writes. -/
def lowerDigits : List Char := "0123456789abcdef".toList

/-- A simhash: sixteen hexadecimal digits in lower case. -/
structure SimhashHex extends HexText where
  lower : ∀ c ∈ text.toList, c ∈ lowerDigits

theorem hexValue_lt {c : Char} {d : ℕ} (h : hexValue c = some d) : d < 16 := by
  have hle {c c' : Char} (h : c ≤ c') : c.toNat ≤ c'.toNat := UInt32.le_iff_toNat_le.mp h
  rw [hexValue] at h
  split_ifs at h with hdigit hlower hupper
  · obtain rfl := Option.some.inj h
    have := hle hdigit.2
    change c.toNat ≤ 57 at this
    change c.toNat - 48 < 16
    omega
  · obtain rfl := Option.some.inj h
    have := hle hlower.2
    change c.toNat ≤ 102 at this
    change c.toNat - 97 + 10 < 16
    omega
  · obtain rfl := Option.some.inj h
    have := hle hupper.2
    change c.toNat ≤ 70 at this
    change c.toNat - 65 + 10 < 16
    omega

theorem hexNumber_append_singleton (cs : List Char) (c : Char) :
    hexNumber (cs ++ [c]) = 16 * hexNumber cs + (hexValue c).getD 0 := by
  rw [hexNumber, List.foldl_concat, ← hexNumber]

theorem getD_hexValue_lt (c : Char) : (hexValue c).getD 0 < 16 := by
  cases h : hexValue c with
  | none => decide
  | some d => exact hexValue_lt h

theorem hexNumber_lt (cs : List Char) : hexNumber cs < 16 ^ cs.length := by
  induction cs using List.reverseRec with
  | nil => decide
  | append_singleton cs c ih =>
    have hdigit := getD_hexValue_lt c
    rw [hexNumber_append_singleton, List.length_append, List.length_singleton, pow_succ]
    omega

theorem lowerDigits_eq : lowerDigits = (List.range 16).map Nat.digitChar := by decide

theorem digitChar_hexValue {c : Char} (h : c ∈ lowerDigits) :
    Nat.digitChar ((hexValue c).getD 0) = c := by
  rw [lowerDigits_eq] at h
  obtain ⟨d, hd, rfl⟩ := List.mem_map.mp h
  rw [hexValue_digitChar d (List.mem_range.mp hd), Option.getD_some]

/-- Digits in lower case are the digits that are written for their number. -/
theorem numeral_hexNumber {cs : List Char} (h : ∀ c ∈ cs, c ∈ lowerDigits) :
    Framing.numeral 16 Nat.digitChar cs.length (hexNumber cs) = cs := by
  induction cs using List.reverseRec with
  | nil => rfl
  | append_singleton cs c ih =>
    have hdigit := getD_hexValue_lt c
    have hdiv : (16 * hexNumber cs + (hexValue c).getD 0) / 16 = hexNumber cs := by omega
    have hmod : (16 * hexNumber cs + (hexValue c).getD 0) % 16 = (hexValue c).getD 0 := by omega
    rw [hexNumber_append_singleton, List.length_append, List.length_singleton, Framing.numeral,
      hdiv, hmod, ih fun x hx => h x (List.mem_append_left _ hx),
      digitChar_hexValue (h c (List.mem_append_right _ (List.mem_singleton_self c)))]

namespace HexText

/-- The word of sixteen digits. -/
def word (h : HexText) : Simhash := BitVec.ofNat 64 (hexNumber h.text.toList)

theorem hexNumber_lt (h : HexText) : hexNumber h.text.toList < 2 ^ 64 := by
  have hlt := Vectors.hexNumber_lt h.text.toList
  rw [h.length] at hlt
  exact hlt

theorem toNat_word (h : HexText) : h.word.toNat = hexNumber h.text.toList := by
  rw [word, BitVec.toNat_ofNat, Nat.mod_eq_of_lt h.hexNumber_lt]

theorem int16_text (h : HexText) : int16 h.text = .ok (hexNumber h.text.toList) := by
  cases htext : h.text.toList with
  | nil =>
    have hlength := h.length
    rw [htext] at hlength
    cases hlength
  | cons c cs =>
    have hdigits := h.digits
    rw [htext] at hdigits
    exact int16_eq htext hdigits

/-- The integer of sixteen digits fits the column, and its word is theirs. -/
theorem hexToInt_text (h : HexText) :
    ∃ n, hexToInt h.text = .ok n ∧ Fits n ∧ BitVec.ofInt 64 n = h.word := by
  have hlt := h.hexNumber_lt
  refine ⟨_, by rw [hexToInt, h.int16_text]; rfl, ?_, ?_⟩
  · dsimp only [Fits]
    split_ifs <;> omega
  · refine BitVec.eq_of_toNat_eq ?_
    rw [BitVec.toNat_ofInt, h.toNat_word]
    dsimp only
    split_ifs <;> omega

/-- **The comparators' distance** is that of the words. -/
theorem hamming64_text (h h' : HexText) :
    Eyenet.hamming64 h.text h'.text = .ok (storedDistance h.word h'.word) := by
  have hlength (h : HexText) : h.text.length = 16 := h.length
  rw [Eyenet.hamming64, if_neg (by simp [hlength]), h.int16_text, h'.int16_text, storedDistance,
    BitVec.toNat_xor, h.toNat_word, h'.toNat_word]
  rfl

end HexText

/-- **The text of a simhash** is written back as it was. -/
theorem SimhashHex.intToHex_word (h : SimhashHex) : Eyenet.intToHex h.word = h.text := by
  have hnumeral := numeral_hexNumber h.lower
  rw [h.length] at hnumeral
  rw [Eyenet.intToHex, h.toNat_word, hnumeral, String.ofList_toList]

/-! ## The column -/

/-- A row as the database holds it: its integer is a word. -/
def SignatureRow.column (r : SignatureRow) : VectorRow :=
  ⟨r.actorId, r.primitiveName, BitVec.ofInt 64 r.simhash⟩

/-- The table as the database holds it. -/
def column (index : SignatureIndex) : VectorIndex where
  rows := index.rows.map SignatureRow.column
  nodup := by
    rw [List.map_map]
    exact index.nodup

/-- Every integer of the table fits the column. -/
def Stored (index : SignatureIndex) : Prop := ∀ r ∈ index, Fits r.simhash

/-- The word that a text goes to, in terms of its integer. -/
theorem hexToInt_column (h : String) : Eyenet.hexToInt h =
    match hexToInt h with
    | .error e => .error e
    | .ok n => if Fits n then .ok (BitVec.ofInt 64 n) else .error .overflowError := by
  rw [Eyenet.hexToInt, hexToInt]
  cases int16 h <;> rfl

theorem SignatureRow.toMatch_column {r : SignatureRow} (h : Fits r.simhash) (query : ℤ) :
    r.column.toMatch (BitVec.ofInt 64 query) = r.toMatch query := by
  rw [toMatch, VectorRow.toMatch, hamming64_eq, intToHex_eq h]
  rfl

/-- **The search on signed integers** is the one on words. -/
theorem nearestSimhashes_column {index : SignatureIndex} (h : Stored index)
    (primitiveName simhashHex : String) (maxDistance : ℤ) (excludeActorId : Uuid) :
    Eyenet.nearestSimhashes (column index) primitiveName simhashHex maxDistance excludeActorId =
      nearestSimhashes index primitiveName simhashHex maxDistance 50 (some excludeActorId) := by
  rw [Eyenet.nearestSimhashes, nearestSimhashes, hexToInt_column]
  cases hexToInt simhashHex with
  | error e => rfl
  | ok query =>
    by_cases hfits : Fits query
    · have hrows : ((column index).rows.filter fun r =>
          r.primitiveName = primitiveName ∧ r.actorId ≠ excludeActorId).map
            (VectorRow.toMatch (BitVec.ofInt 64 query)) =
          (index.rows.filter fun r =>
            r.primitiveName = primitiveName ∧ some r.actorId ≠ some excludeActorId).map
              (SignatureRow.toMatch query) := by
        rw [column, List.filter_map, List.map_map]
        have hfilter : (fun r : VectorRow => decide (r.primitiveName = primitiveName ∧
            r.actorId ≠ excludeActorId)) ∘ SignatureRow.column = fun r =>
              decide (r.primitiveName = primitiveName ∧ some r.actorId ≠ some excludeActorId) := by
          refine funext fun r => decide_eq_decide.mpr ?_
          rw [ne_eq, ne_eq, Option.some.injEq]
          rfl
        rw [hfilter]
        refine List.map_congr_left fun r hr => ?_
        exact SignatureRow.toMatch_column (h r (List.mem_of_mem_filter hr)) query
      simp only [if_pos hfits, hrows]
      rfl
    · simp only [if_neg hfits]

/-! ## Searches after upserts -/

/-- A call of `upsert_simhash`. -/
structure Upsert where
  actorId : Uuid
  primitiveName : String
  simhash : SimhashHex

/-- Calls one after another, on an empty table. -/
def upsertAll (upserts : List Upsert) : Except LinkerError SignatureIndex :=
  upserts.foldlM (fun index u => upsertSimhash index u.actorId u.primitiveName u.simhash.text)
    .empty

/-- The simhash that the last call for an actor and a primitive gave. -/
def upserted (upserts : List Upsert) (actorId : Uuid) (primitiveName : String) :
    Option SimhashHex :=
  ((upserts.filter fun u => u.actorId = actorId ∧ u.primitiveName = primitiveName).getLast?).map
    Upsert.simhash

/-- A match that a search is for: another actor, with the text that was upserted for it and the
distance that the comparators give, within the bound. -/
structure InRange (upserts : List Upsert) (primitiveName : String) (query : HexText)
    (maxDistance : ℤ) (excludeActorId : Option Uuid) (m : VectorMatch) : Prop where
  other : some m.actorId ≠ excludeActorId
  hex : ∃ h, upserted upserts m.actorId primitiveName = some h ∧ m.simhashHex = h.text
  distance : Eyenet.hamming64 query.text m.simhashHex = .ok m.distance
  near : (m.distance : ℤ) ≤ maxDistance

/-- The nearest of the matches in range, as many as the limit lets through. -/
structure Nearest (inRange : VectorMatch → Prop) (limit : ℤ) (found : List VectorMatch) : Prop where
  sound : ∀ m ∈ found, inRange m
  nodup : (found.map VectorMatch.actorId).Nodup
  sorted : found.Pairwise fun m m' => m.distance ≤ m'.distance
  all : ∀ l : List VectorMatch, (∀ m, inRange m → m ∈ l) → (l.length : ℤ) ≤ limit →
    ∀ m, inRange m → m ∈ found
  closest : ∀ m, inRange m → m ∉ found → ∀ m' ∈ found, m'.distance ≤ m.distance
  full : ∀ m, inRange m → m ∉ found → (found.length : ℤ) = limit

theorem upsertAll_append_singleton (upserts : List Upsert) (u : Upsert) :
    upsertAll (upserts ++ [u]) = match upsertAll upserts with
      | .error e => .error e
      | .ok index => upsertSimhash index u.actorId u.primitiveName u.simhash.text := by
  rw [upsertAll, List.foldlM_append, ← upsertAll]
  cases upsertAll upserts with
  | error e => rfl
  | ok index => exact bind_pure (m := Except LinkerError) _

/-- Upserts succeed, and leave the word of the last simhash for each key. -/
theorem upsertAll_spec (upserts : List Upsert) : ∃ index, upsertAll upserts = .ok index ∧
    Stored index ∧ ∀ a p, (index.get (a, p)).map SignatureRow.column =
      (upserted upserts a p).map fun h => ⟨a, p, h.word⟩ := by
  induction upserts using List.reverseRec with
  | nil => exact ⟨.empty, rfl, fun r hr => absurd hr (Table.not_mem_empty r), fun _ _ => rfl⟩
  | append_singleton upserts u ih =>
    obtain ⟨index, hindex, hstored, hget⟩ := ih
    obtain ⟨n, hn, hfits, hword⟩ := u.simhash.hexToInt_text
    refine ⟨index.save ⟨u.actorId, u.primitiveName, n⟩, ?_, fun r hr => ?_, fun a p => ?_⟩
    · rw [upsertAll_append_singleton, hindex]
      dsimp only
      rw [upsertSimhash, hn]
      exact if_pos hfits
    · rcases Table.mem_save.mp hr with rfl | ⟨hr, -⟩
      · exact hfits
      · exact hstored r hr
    · rw [Table.get_save, upserted, List.filter_append]
      by_cases hkey : (a, p) = (u.actorId, u.primitiveName)
      · obtain ⟨rfl, rfl⟩ := Prod.mk.inj hkey
        simp [SignatureRow.key, SignatureRow.column, hword]
      · have hnil : [u].filter (fun u => u.actorId = a ∧ u.primitiveName = p) = [] := by
          refine List.filter_eq_nil_iff.mpr fun x hx h => hkey ?_
          obtain rfl := List.mem_singleton.mp hx
          have h := of_decide_eq_true h
          rw [h.1, h.2]
        rw [hnil, List.append_nil, if_neg fun h => hkey h.symm]
        exact hget a p

/-! ## What a search finds -/

section Nearest

variable {near found : List VectorMatch} {limit : ℤ}

theorem limited_prefix {α : Type*} (limit : ℤ) (rows : List α) :
    ∃ rest, rows = limited limit rows ++ rest ∧
      (rest ≠ [] → ((limited limit rows).length : ℤ) = limit) := by
  rw [limited]
  split_ifs with hneg
  · exact ⟨[], by rw [List.append_nil], fun h => absurd rfl h⟩
  · refine ⟨rows.drop limit.toNat, (List.take_append_drop _ _).symm, fun h => ?_⟩
    have hlt : limit.toNat < rows.length := by
      by_contra hle
      exact h (List.drop_eq_nil_of_le (not_lt.mp hle))
    rw [List.length_take]
    omega

/-- Sorted and cut off, some matches are the nearest. -/
theorem nearest_limited (limit : ℤ) (hnodup : (near.map VectorMatch.actorId).Nodup) :
    Nearest (· ∈ near) limit
      (limited limit (near.insertionSort fun m m' => m.distance ≤ m'.distance)) := by
  have hperm := List.perm_insertionSort (fun m m' : VectorMatch => m.distance ≤ m'.distance) near
  have hsorted := List.pairwise_insertionSort
    (fun m m' : VectorMatch => m.distance ≤ m'.distance) near
  obtain ⟨rest, hrest, hfull⟩ :=
    limited_prefix limit (near.insertionSort fun m m' => m.distance ≤ m'.distance)
  generalize limited limit (near.insertionSort fun m m' => m.distance ≤ m'.distance) = found
    at hrest hfull
  rw [hrest] at hperm hsorted
  have hnodup' := (hperm.map VectorMatch.actorId).nodup_iff.mpr hnodup
  have homitted {m : VectorMatch} (hm : m ∈ near) (hnot : m ∉ found) : m ∈ rest :=
    (List.mem_append.mp (hperm.mem_iff.mpr hm)).resolve_left hnot
  have hlength {m : VectorMatch} (hm : m ∈ near) (hnot : m ∉ found) :
      (found.length : ℤ) = limit := hfull (List.ne_nil_of_mem (homitted hm hnot))
  refine
    { sound := fun m hm => hperm.mem_iff.mp (List.mem_append_left _ hm)
      nodup := ?_
      sorted := (List.pairwise_append.mp hsorted).1
      all := ?_
      closest := fun m hm hnot m' hm' =>
        (List.pairwise_append.mp hsorted).2.2 m' hm' m (homitted hm hnot)
      full := fun m hm hnot => hlength hm hnot }
  · rw [List.map_append] at hnodup'
    exact hnodup'.of_append_left
  · intro l hl hle m hm
    by_contra hnot
    have hsub : near ⊆ l := fun m hm => hl m hm
    have hcard := (hnodup.of_map _).length_le_of_subset hsub
    have hnear := hperm.length_eq
    rw [List.length_append] at hnear
    have hpos := List.length_pos_of_mem (homitted hm hnot)
    have hfound := hlength hm hnot
    omega

end Nearest

/-- The match of a row with the word of a simhash. -/
theorem toMatch_eq {r : SignatureRow} {a : Uuid} {p : String} {h : SimhashHex} {query : HexText}
    {q : ℤ} (hfits : Fits r.simhash) (hcolumn : r.column = ⟨a, p, h.word⟩)
    (hq : BitVec.ofInt 64 q = query.word) :
    r.toMatch q = ⟨a, storedDistance query.word h.word, h.text⟩ := by
  obtain ⟨ha, -, hword⟩ := VectorRow.mk.inj hcolumn
  rw [SignatureRow.toMatch, hamming64_eq, intToHex_eq hfits, hword, hq, h.intToHex_word, ha]

/-- **The search is exact**: after any upserts, a search for any sixteen digits finds the matches in
range, the nearest first, all of them if the limit lets them through and the nearest otherwise. -/
theorem nearest_simhashes_exact (upserts : List Upsert) (primitiveName : String) (query : HexText)
    (maxDistance limit : ℤ) (excludeActorId : Option Uuid) :
    ∃ index found, upsertAll upserts = .ok index ∧
      nearestSimhashes index primitiveName query.text maxDistance limit excludeActorId =
        .ok found ∧
      Nearest (InRange upserts primitiveName query maxDistance excludeActorId) limit found := by
  obtain ⟨index, hindex, hstored, hget⟩ := upsertAll_spec upserts
  obtain ⟨q, hq, hfits, hword⟩ := query.hexToInt_text
  refine ⟨index, _, hindex, by rw [nearestSimhashes, hq]; exact if_pos hfits, ?_⟩
  have hrange : InRange upserts primitiveName query maxDistance excludeActorId = fun m =>
      m ∈ ((index.rows.filter fun r => r.primitiveName = primitiveName ∧
        some r.actorId ≠ excludeActorId).map (SignatureRow.toMatch q)).filter
          fun m => (m.distance : ℤ) ≤ maxDistance := by
    refine funext fun m => propext ?_
    simp only [List.mem_filter, List.mem_map, decide_eq_true_eq]
    refine ⟨fun h => ?_, ?_⟩
    · obtain ⟨hex, hupserted, htext⟩ := h.hex
      have hrow := hget m.actorId primitiveName
      rw [hupserted] at hrow
      obtain ⟨r, hr, hcolumn⟩ := Option.map_eq_some_iff.mp hrow
      obtain ⟨hmem, hkey⟩ := Table.get_eq_some.mp hr
      have hmatch := toMatch_eq (hstored r hmem) hcolumn hword
      have hdistance := h.distance
      rw [htext, query.hamming64_text hex.toHexText] at hdistance
      obtain ⟨hactor, hprimitive⟩ := Prod.mk.inj hkey
      refine ⟨⟨r, ⟨hmem, hprimitive, hactor ▸ h.other⟩, ?_⟩, h.near⟩
      rw [hmatch, Except.ok.inj hdistance, ← htext]
    · rintro ⟨⟨r, ⟨hmem, rfl, hother⟩, rfl⟩, hnear⟩
      have hrow := hget r.actorId r.primitiveName
      have hself : index.get (r.actorId, r.primitiveName) = some r := Table.get_self hmem
      rw [hself] at hrow
      obtain ⟨hex, hupserted, hcolumn⟩ := Option.map_eq_some_iff.mp hrow.symm
      have hmatch := toMatch_eq (hstored r hmem) hcolumn.symm hword
      refine ⟨hother, ⟨hex, hupserted, by rw [hmatch]⟩, ?_, hnear⟩
      rw [hmatch]
      exact query.hamming64_text hex.toHexText
  rw [hrange]
  refine nearest_limited limit ?_
  -- one row for an actor and a primitive
  refine List.Nodup.sublist (List.filter_sublist.map VectorMatch.actorId) ?_
  rw [List.map_map]
  refine List.Nodup.map_on (fun r hr r' hr' hactor => ?_) (index.nodup.of_map.filter _)
  simp only [List.mem_filter, decide_eq_true_eq] at hr hr'
  exact Table.eq_of_key hr.1 hr'.1 (Prod.ext hactor (hr.2.1.trans hr'.2.1.symm))

end Vectors

end Eyenet
