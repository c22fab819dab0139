import Eyenet.Framing
import Mathlib.Order.Basic
import Mathlib.Order.Nat

/-!
# Shared vocabulary

Identifiers and the enumerations that several stores share.
-/

namespace Eyenet

/-- A UUID, as its 128-bit value. -/
abbrev Uuid := BitVec 128

instance : LawfulBEq Uuid := inferInstance

/-- `UUID.bytes`: the sixteen big-endian bytes. -/
def uuidBytes (u : Uuid) : Bytes := Framing.toBytesBE 16 u.toNat

@[simp] theorem length_uuidBytes (u : Uuid) : (uuidBytes u).length = 16 := by
  simp [uuidBytes]

theorem uuidBytes_injective : Function.Injective uuidBytes := by
  intro u v h
  apply BitVec.eq_of_toNat_eq
  exact Framing.numeral_inj Framing.uint8_ofNat_inj u.isLt v.isLt h

/-- `str(UUID)` -/
def uuidText (u : Uuid) : String :=
  let digits := (hex (uuidBytes u)).toList
  String.ofList (digits.take 8 ++ '-' :: (digits.drop 8).take 4 ++ '-' :: (digits.drop 12).take 4 ++
    '-' :: (digits.drop 16).take 4 ++ '-' :: digits.drop 20)

/-- `UUID(text)`, for a text without a scheme and without braces. -/
def parseUuid (s : String) : Option Uuid :=
  let digits := s.toList.filter fun c => c ≠ '-'
  if digits.length = 32 then (readHex digits).map (BitVec.ofNat 128) else none

/-- A UUID is read back from its text. -/
theorem parseUuid_uuidText (u : Uuid) : parseUuid (uuidText u) = some u := by
  have hdigits : (uuidText u).toList.filter (fun c => c ≠ '-') = (uuidBytes u).flatMap hexByte := by
    have hpart : ∀ l ⊆ (uuidBytes u).flatMap hexByte, l.filter (fun c => c ≠ '-') = l := by
      refine fun l hl => List.filter_eq_self.mpr fun c hc => decide_eq_true ?_
      obtain ⟨b, -, hb⟩ := List.mem_flatMap.mp (hl hc)
      exact hexByte_ne_dash b c hb
    have hmiddle (n k : ℕ) : ((((uuidBytes u).flatMap hexByte).drop n).take k).filter
        (fun c => c ≠ '-') = (((uuidBytes u).flatMap hexByte).drop n).take k :=
      hpart _ (List.Subset.trans (List.take_subset _ _) (List.drop_subset _ _))
    have hjoin (n k : ℕ) (l : List Char) : (l.drop n).take k ++ l.drop (n + k) = l.drop n := by
      rw [← List.drop_drop, List.take_append_drop]
    have hdash (l : List Char) : ('-' :: l).filter (fun c => c ≠ '-') = l.filter fun c => c ≠ '-' :=
      List.filter_cons_of_neg (by decide)
    simp only [uuidText, hex, String.toList_ofList, List.filter_append, hdash]
    rw [hpart _ (List.take_subset _ _), hmiddle, hmiddle, hmiddle, hpart _ (List.drop_subset _ _)]
    simp only [List.append_assoc, hjoin, List.take_append_drop]
  rw [parseUuid, hdigits, length_flatMap_hexByte, length_uuidBytes, if_pos rfl, uuidBytes,
    Framing.readHex_bytes 16 u.isLt, Option.map_some, BitVec.ofNat_toNat, BitVec.setWidth_eq]

/-- The text of a UUID is written with hexadecimal digits and dashes. -/
theorem mem_uuidText {u : Uuid} {c : Char} (h : c ∈ (uuidText u).toList) :
    c = '-' ∨ (hexValue c).isSome = true := by
  have hdigits : ∀ l ⊆ (uuidBytes u).flatMap hexByte, c ∈ l → (hexValue c).isSome = true := by
    intro l hl hc
    obtain ⟨b, -, hb⟩ := List.mem_flatMap.mp (hl hc)
    exact isSome_hexValue b c hb
  have hpart (n k : ℕ) : (((uuidBytes u).flatMap hexByte).drop n).take k ⊆
      (uuidBytes u).flatMap hexByte :=
    List.Subset.trans (List.take_subset _ _) (List.drop_subset _ _)
  simp only [uuidText, hex, String.toList_ofList, List.mem_append, List.mem_cons, or_assoc] at h
  rcases h with h | rfl | h | rfl | h | rfl | h | rfl | h
  · exact Or.inr (hdigits _ (List.take_subset _ _) h)
  · exact Or.inl rfl
  · exact Or.inr (hdigits _ (hpart _ _) h)
  · exact Or.inl rfl
  · exact Or.inr (hdigits _ (hpart _ _) h)
  · exact Or.inl rfl
  · exact Or.inr (hdigits _ (hpart _ _) h)
  · exact Or.inl rfl
  · exact Or.inr (hdigits _ (List.drop_subset _ _) h)

theorem uuidText_injective : Function.Injective uuidText := by
  intro u v h
  have hu := parseUuid_uuidText u
  rw [h, parseUuid_uuidText] at hu
  exact (Option.some.inj hu).symm

/-- Evidence sensitivity tier; a later tier is more sensitive. -/
inductive SensitivityTier where
  /-- the default at ingest -/
  | normal
  /-- reads need `read:restricted` -/
  | restricted
  /-- reads need `read:classified` -/
  | classified
  deriving DecidableEq, Repr

namespace SensitivityTier

/-- The member's name, which is also what the database stores. -/
def name : SensitivityTier → String
  | normal => "NORMAL"
  | restricted => "RESTRICTED"
  | classified => "CLASSIFIED"

theorem name_injective : Function.Injective name := by
  intro a b h
  cases a <;> cases b <;> first | rfl | exact absurd h (by decide)

/-- The member's value. -/
def value : SensitivityTier → String
  | normal => "normal"
  | restricted => "restricted"
  | classified => "classified"

/-- The position of a tier in the order `normal < restricted < classified`. -/
def rank : SensitivityTier → ℕ
  | normal => 0
  | restricted => 1
  | classified => 2

theorem rank_injective : Function.Injective rank := by
  intro a b h
  cases a <;> cases b <;> first | rfl | exact absurd h (by decide)

instance : LinearOrder SensitivityTier := LinearOrder.lift' rank rank_injective

end SensitivityTier

/-- How bytes were served. -/
inductive FileServedVia where
  | inlineJson
  | attachmentStream
  | thumbnailOnly
  deriving DecidableEq, Repr

/-- The member's name. -/
def FileServedVia.name : FileServedVia → String
  | inlineJson => "INLINE_JSON"
  | attachmentStream => "ATTACHMENT_STREAM"
  | thumbnailOnly => "THUMBNAIL_ONLY"

theorem FileServedVia.name_injective : Function.Injective FileServedVia.name := by
  intro a b h
  cases a <;> cases b <;> first | rfl | exact absurd h (by decide)

end Eyenet
