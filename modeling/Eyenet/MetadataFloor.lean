import Eyenet.Dict
import Eyenet.DocumentTier
import Eyenet.Json
import Eyenet.ModelText

/-!
# The floor of the metadata

What a document says about itself is sanitised before it is stored, and the rules are matched
against what was sanitised (`classifier/ingest.py`), so that a marking among the keywords raises the
tier.

* `MetadataFloor.floor_lawful_iff` — exactly when no rule loses a match to the sanitising.
-/

namespace Eyenet

namespace MetadataFloor

open ModelText

section Normalize

variable (normalize : String → String)

/-- `_META_STR_CAP` -/
def metaStrCap : ℕ := 4096

/-- `_META_KEY_CAP` -/
def metaKeyCap : ℕ := 128

/-- `_sani_key` -/
def saniKey (key : String) : String := sanitizeModelText normalize metaKeyCap key

mutual

/-- `_sani_value` -/
def saniValue : Json → Json
  | .str s => .str (sanitizeModelText normalize metaStrCap s)
  | .obj fields => .obj (Dict.ofPairs (saniFields fields))
  | .arr items => .arr (saniItems items)
  | .null => .null
  | .bool b => .bool b
  | .int n => .int n
  | .float t => .float t

def saniItems : List Json → List Json
  | [] => []
  | item :: items => saniValue item :: saniItems items

def saniFields : List (String × Json) → List (String × Json)
  | [] => []
  | (key, item) :: fields => (saniKey normalize key, saniValue item) :: saniFields fields

end

/-- `_sanitize_meta` -/
def sanitizeMeta (fields : List (String × Json)) : List (String × Json) :=
  Dict.ofPairs (saniFields normalize fields)

end Normalize

mutual

/-- `_walk` -/
def walk : Json → List String
  | .str s => [s]
  | .obj fields => walkFields fields
  | .arr items => walkItems items
  | _ => []

def walkItems : List Json → List String
  | [] => []
  | item :: items => walk item ++ walkItems items

def walkFields : List (String × Json) → List String
  | [] => []
  | (key, item) :: fields => key :: (walk item ++ walkFields fields)

end

/-- `_meta_text` -/
def metaText (fields : List (String × Json)) : String := "\n".intercalate (walk (.obj fields))

/-- `meta_regex`, in `classify_blob`. -/
def metaRegex (normalize : String → String) (rawMeta : List (String × Json)) (version : String)
    (rules : List CompiledRule) : RegexVerdict :=
  classify normalize (metaText (sanitizeMeta normalize rawMeta)) version rules

/-- Whatever the rules, one that matches the metadata as it is has its tier under the floor. -/
def FloorLawful (normalize : String → String) (rawMeta : List (String × Json)) : Prop :=
  ∀ version rules, ∀ rule ∈ rules, rule.finditer (normalize (metaText rawMeta)) ≠ [] →
    rule.tierFloor ≤ (metaRegex normalize rawMeta version rules).tierFloor

/-! ## The texts of a tree -/

mutual

/-- The texts of a tree and their bounds. -/
def pieces : Json → List (ℕ × String)
  | .str s => [(metaStrCap, s)]
  | .obj fields => piecesFields fields
  | .arr items => piecesItems items
  | _ => []

def piecesItems : List Json → List (ℕ × String)
  | [] => []
  | item :: items => pieces item ++ piecesItems items

def piecesFields : List (String × Json) → List (ℕ × String)
  | [] => []
  | (key, item) :: fields => (metaKeyCap, key) :: (pieces item ++ piecesFields fields)

end

mutual

/-- The keys of each dict of a tree. -/
def dicts : Json → List (List String)
  | .obj fields => fields.map Prod.fst :: dictsFields fields
  | .arr items => dictsItems items
  | _ => []

def dictsItems : List Json → List (List String)
  | [] => []
  | item :: items => dicts item ++ dictsItems items

def dictsFields : List (String × Json) → List (List String)
  | [] => []
  | (_, item) :: fields => dicts item ++ dictsFields fields

end

mutual

theorem walk_eq_pieces : ∀ v, walk v = (pieces v).map Prod.snd
  | .str _ => rfl
  | .obj fields => walkFields_eq_pieces fields
  | .arr items => walkItems_eq_pieces items
  | .null => rfl
  | .bool _ => rfl
  | .int _ => rfl
  | .float _ => rfl

theorem walkItems_eq_pieces : ∀ items, walkItems items = (piecesItems items).map Prod.snd
  | [] => rfl
  | item :: items => by
    rw [walkItems, piecesItems, List.map_append, walk_eq_pieces item, walkItems_eq_pieces items]

theorem walkFields_eq_pieces : ∀ fields, walkFields fields = (piecesFields fields).map Prod.snd
  | [] => rfl
  | (key, item) :: fields => by
    rw [walkFields, piecesFields, List.map_cons, List.map_append, walk_eq_pieces item,
      walkFields_eq_pieces fields]

end

theorem length_walkFields (fields : List (String × Json)) :
    (walkFields fields).length = (fields.map fun p => (walk p.2).length + 1).sum := by
  induction fields with
  | nil => rfl
  | cons p fields ih =>
    rw [walkFields, List.length_cons, List.length_append, ih, List.map_cons, List.sum_cons]
    omega

section Sanitized

variable {normalize : String → String}

theorem keys_saniFields (fields : List (String × Json)) :
    (saniFields normalize fields).map Prod.fst = (fields.map Prod.fst).map (saniKey normalize) := by
  induction fields with
  | nil => rfl
  | cons p fields ih => rw [saniFields, List.map_cons, ih]; rfl

mutual

/-- Where no keys become one, each text is sanitised. -/
theorem walk_saniValue : ∀ v, (∀ keys ∈ dicts v, (keys.map (saniKey normalize)).Nodup) →
    walk (saniValue normalize v) =
      (pieces v).map fun p => sanitizeModelText normalize p.1 p.2
  | .str _, _ => rfl
  | .obj fields, h => by
    obtain ⟨hkeys, hfields⟩ := List.forall_mem_cons.mp h
    rw [saniValue, walk, Dict.ofPairs_eq_self (keys_saniFields fields ▸ hkeys)]
    exact walk_saniFields fields hfields
  | .arr items, h => walk_saniItems items h
  | .null, _ => rfl
  | .bool _, _ => rfl
  | .int _, _ => rfl
  | .float _, _ => rfl

theorem walk_saniItems : ∀ items,
    (∀ keys ∈ dictsItems items, (keys.map (saniKey normalize)).Nodup) →
    walkItems (saniItems normalize items) =
      (piecesItems items).map fun p => sanitizeModelText normalize p.1 p.2
  | [], _ => rfl
  | item :: items, h => by
    obtain ⟨hitem, hitems⟩ := List.forall_mem_append.mp h
    rw [saniItems, walkItems, piecesItems, List.map_append, walk_saniValue item hitem,
      walk_saniItems items hitems]

theorem walk_saniFields : ∀ fields,
    (∀ keys ∈ dictsFields fields, (keys.map (saniKey normalize)).Nodup) →
    walkFields (saniFields normalize fields) =
      (piecesFields fields).map fun p => sanitizeModelText normalize p.1 p.2
  | [], _ => rfl
  | (key, item) :: fields, h => by
    obtain ⟨hitem, hfields⟩ := List.forall_mem_append.mp h
    rw [saniFields, walkFields, piecesFields, List.map_cons, List.map_append,
      walk_saniValue item hitem, walk_saniFields fields hfields]
    rfl

end

mutual

/-- Sanitising loses texts exactly where keys become one. -/
theorem length_walk_saniValue : ∀ v, (walk (saniValue normalize v)).length ≤ (pieces v).length ∧
    ((pieces v).length ≤ (walk (saniValue normalize v)).length →
      ∀ keys ∈ dicts v, (keys.map (saniKey normalize)).Nodup)
  | .str _ => ⟨le_refl _, fun _ _ h => absurd h List.not_mem_nil⟩
  | .obj fields => by
    obtain ⟨hle, hfields⟩ := length_walk_saniFields fields
    obtain ⟨hmerged, hkeys⟩ := Dict.sum_ofPairs
      (w := fun p : String × Json => (walk p.2).length + 1) (fun _ => Nat.succ_pos _)
      (saniFields normalize fields)
    rw [← length_walkFields, ← length_walkFields] at hmerged hkeys
    rw [saniValue, walk, pieces, dicts]
    refine ⟨hmerged.trans hle, fun h => List.forall_mem_cons.mpr ⟨?_, hfields (h.trans hmerged)⟩⟩
    rw [← keys_saniFields]
    exact hkeys (hle.trans h)
  | .arr items => length_walk_saniItems items
  | .null => ⟨le_refl _, fun _ _ h => absurd h List.not_mem_nil⟩
  | .bool _ => ⟨le_refl _, fun _ _ h => absurd h List.not_mem_nil⟩
  | .int _ => ⟨le_refl _, fun _ _ h => absurd h List.not_mem_nil⟩
  | .float _ => ⟨le_refl _, fun _ _ h => absurd h List.not_mem_nil⟩

theorem length_walk_saniItems : ∀ items,
    (walkItems (saniItems normalize items)).length ≤ (piecesItems items).length ∧
    ((piecesItems items).length ≤ (walkItems (saniItems normalize items)).length →
      ∀ keys ∈ dictsItems items, (keys.map (saniKey normalize)).Nodup)
  | [] => ⟨le_refl _, fun _ _ h => absurd h List.not_mem_nil⟩
  | item :: items => by
    obtain ⟨hle, hitem⟩ := length_walk_saniValue item
    obtain ⟨hles, hitems⟩ := length_walk_saniItems items
    rw [saniItems, walkItems, piecesItems, dictsItems, List.length_append, List.length_append]
    exact ⟨by omega, fun h => List.forall_mem_append.mpr ⟨hitem (by omega), hitems (by omega)⟩⟩

theorem length_walk_saniFields : ∀ fields,
    (walkFields (saniFields normalize fields)).length ≤ (piecesFields fields).length ∧
    ((piecesFields fields).length ≤ (walkFields (saniFields normalize fields)).length →
      ∀ keys ∈ dictsFields fields, (keys.map (saniKey normalize)).Nodup)
  | [] => ⟨le_refl _, fun _ _ h => absurd h List.not_mem_nil⟩
  | (key, item) :: fields => by
    obtain ⟨hle, hitem⟩ := length_walk_saniValue item
    obtain ⟨hles, hfields⟩ := length_walk_saniFields fields
    rw [saniFields, walkFields, piecesFields, dictsFields, List.length_cons, List.length_cons,
      List.length_append, List.length_append]
    exact ⟨by omega, fun h => List.forall_mem_append.mpr ⟨hitem (by omega), hfields (by omega)⟩⟩

end

theorem mem_walkFields {fields : List (String × Json)} {s : String} (h : s ∈ walkFields fields) :
    ∃ p ∈ fields, s = p.1 ∨ s ∈ walk p.2 := by
  induction fields with
  | nil => cases h
  | cons p fields ih =>
    rcases List.mem_cons.mp h with h | h
    · exact ⟨p, List.mem_cons_self, Or.inl h⟩
    · rcases List.mem_append.mp h with h | h
      · exact ⟨p, List.mem_cons_self, Or.inr h⟩
      · obtain ⟨q, hq, hs⟩ := ih h
        exact ⟨q, List.mem_cons_of_mem p hq, hs⟩

mutual

/-- The sanitised texts are single lines. -/
theorem newline_not_mem_walk : ∀ v, ∀ s ∈ walk (saniValue normalize v), '\n' ∉ s.toList
  | .str s => by
    intro s' hs
    rw [List.mem_singleton.mp hs]
    exact newline_not_mem normalize metaStrCap s
  | .obj fields => by
    intro s hs
    obtain ⟨p, hp, hs⟩ := mem_walkFields hs
    obtain ⟨hkey, hitem⟩ := newline_not_mem_saniFields fields p (Dict.mem_of_mem_ofPairs hp)
    rcases hs with rfl | hs
    · exact hkey
    · exact hitem s hs
  | .arr items => newline_not_mem_walkItems items
  | .null => fun _ h => absurd h List.not_mem_nil
  | .bool _ => fun _ h => absurd h List.not_mem_nil
  | .int _ => fun _ h => absurd h List.not_mem_nil
  | .float _ => fun _ h => absurd h List.not_mem_nil

theorem newline_not_mem_walkItems : ∀ items,
    ∀ s ∈ walkItems (saniItems normalize items), '\n' ∉ s.toList
  | [] => fun _ h => absurd h List.not_mem_nil
  | item :: items => by
    rw [saniItems, walkItems]
    exact List.forall_mem_append.mpr
      ⟨newline_not_mem_walk item, newline_not_mem_walkItems items⟩

theorem newline_not_mem_saniFields : ∀ fields, ∀ p ∈ saniFields normalize fields,
    '\n' ∉ p.1.toList ∧ ∀ s ∈ walk p.2, '\n' ∉ s.toList
  | [] => fun _ h => absurd h List.not_mem_nil
  | (key, item) :: fields => by
    rw [saniFields]
    exact List.forall_mem_cons.mpr ⟨⟨newline_not_mem normalize metaKeyCap key,
      newline_not_mem_walk item⟩, newline_not_mem_saniFields fields⟩

end

end Sanitized

/-! ## Lines -/

section Lines

variable {α : Type*} [DecidableEq α] {x : α} {ls ms : List (List α)}

theorem count_intercalate (h : ls ≠ []) :
    ([x].intercalate ls).count x + 1 = ls.length + (ls.map (List.count x)).sum := by
  induction ls with
  | nil => exact absurd rfl h
  | cons l ls ih =>
    cases ls with
    | nil => simp [add_comm]
    | cons l' ls =>
      have hrest := ih (List.cons_ne_nil l' ls)
      rw [List.intercalate_cons_cons, List.count_append, List.count_append, List.map_cons,
        List.sum_cons, List.count_singleton_self, List.length_cons]
      omega

/-- What is joined from at least as many texts as lines was joined from the lines. -/
theorem eq_of_intercalate_eq (hms : ∀ m ∈ ms, x ∉ m) (hne : ms ≠ [])
    (hlen : ms.length ≤ ls.length) (h : [x].intercalate ls = [x].intercalate ms) : ls = ms := by
  have hls : ls ≠ [] := by
    rintro rfl
    exact hne (List.length_eq_zero_iff.mp (Nat.le_zero.mp hlen))
  have hcount := count_intercalate (x := x) hls
  have hzero : (ms.map (List.count x)).sum = 0 := by
    rw [List.sum_eq_zero_iff]
    intro n hn
    obtain ⟨m, hm, rfl⟩ := List.mem_map.mp hn
    exact List.count_eq_zero_of_not_mem (hms m hm)
  have hcount' := count_intercalate (x := x) hne
  rw [h] at hcount
  have hclean : (ls.map (List.count x)).sum = 0 := by omega
  have hlines : ∀ l ∈ ls, x ∉ l := fun l hl => List.count_eq_zero.mp
    (List.sum_eq_zero_iff.mp hclean _ (List.mem_map_of_mem hl))
  rw [← List.splitOn_intercalate x hlines hls, h, List.splitOn_intercalate x hms hne]

end Lines

/-! ## The floor -/

mutual

theorem pieces_of_dicts : ∀ v, ∀ keys ∈ dicts v, ∀ key ∈ keys, (metaKeyCap, key) ∈ pieces v
  | .obj fields => by
    obtain ⟨hkeys, hitems⟩ := pieces_of_fields fields
    exact List.forall_mem_cons.mpr ⟨hkeys, hitems⟩
  | .arr items => pieces_of_items items
  | .str _ => fun _ h => absurd h List.not_mem_nil
  | .null => fun _ h => absurd h List.not_mem_nil
  | .bool _ => fun _ h => absurd h List.not_mem_nil
  | .int _ => fun _ h => absurd h List.not_mem_nil
  | .float _ => fun _ h => absurd h List.not_mem_nil

theorem pieces_of_items : ∀ items, ∀ keys ∈ dictsItems items, ∀ key ∈ keys,
    (metaKeyCap, key) ∈ piecesItems items
  | [] => fun _ h => absurd h List.not_mem_nil
  | item :: items => by
    intro keys hkeys key hkey
    rcases List.mem_append.mp hkeys with hkeys | hkeys
    · exact List.mem_append_left _ (pieces_of_dicts item keys hkeys key hkey)
    · exact List.mem_append_right _ (pieces_of_items items keys hkeys key hkey)

theorem pieces_of_fields : ∀ fields,
    (∀ key ∈ fields.map Prod.fst, (metaKeyCap, key) ∈ piecesFields fields) ∧
      ∀ keys ∈ dictsFields fields, ∀ key ∈ keys, (metaKeyCap, key) ∈ piecesFields fields
  | [] => ⟨fun _ h => absurd h List.not_mem_nil, fun _ h => absurd h List.not_mem_nil⟩
  | (name, item) :: fields => by
    obtain ⟨hnames, hfields⟩ := pieces_of_fields fields
    have htail : ∀ {p}, p ∈ piecesFields fields → p ∈ piecesFields ((name, item) :: fields) :=
      fun hp => List.mem_cons_of_mem _ (List.mem_append_right _ hp)
    constructor
    · refine List.forall_mem_cons.mpr ⟨List.mem_cons_self, fun key hkey => ?_⟩
      exact htail (hnames key hkey)
    · intro keys hkeys key hkey
      rcases List.mem_append.mp hkeys with hkeys | hkeys
      · exact List.mem_cons_of_mem _
          (List.mem_append_left _ (pieces_of_dicts item keys hkeys key hkey))
      · exact htail (hfields keys hkeys key hkey)

end

section Floor

variable {normalize : String → String}

/-- Every text of the metadata is inert, and the keys of a dict differ, in `NFC` form. -/
structure IsInertMeta (normalize : String → String) (rawMeta : List (String × Json)) : Prop where
  texts : ∀ p ∈ pieces (.obj rawMeta), IsInert p.1 (normalize p.2).toList
  keys : ∀ keys ∈ dicts (.obj rawMeta), (keys.map normalize).Nodup

theorem normalize_intercalate (hN : Nfc normalize) (texts : List String) :
    normalize ("\n".intercalate texts) = "\n".intercalate (texts.map normalize) := by
  have hnewline : "\n" = String.singleton '\n' := by decide
  induction texts with
  | nil => exact hN.ascii _ fun c hc => absurd hc (by simp)
  | cons text texts ih =>
    cases texts with
    | nil => simp
    | cons text' texts =>
      rw [List.map_cons] at ih ⊢
      rw [List.map_cons, String.intercalate_cons_cons, String.intercalate_cons_cons, ← ih, hnewline]
      exact hN.boundary '\n' List.mem_cons_self text _

/-- The rules see the same text exactly if every piece comes out the same. -/
theorem texts_eq_of_normalize_eq (hN : Nfc normalize) {rawMeta : List (String × Json)}
    (h : normalize (metaText rawMeta) = normalize (metaText (sanitizeMeta normalize rawMeta))) :
    (walk (.obj rawMeta)).map normalize =
      (walk (saniValue normalize (.obj rawMeta))).map normalize := by
  cases rawMeta with
  | nil => rfl
  | cons field fields =>
    have hlen : (walk (saniValue normalize (.obj (field :: fields)))).length ≤ _ :=
      (length_walk_saniValue (.obj (field :: fields))).1
    have hlines : ∀ s ∈ walk (saniValue normalize (.obj (field :: fields))), _ :=
      newline_not_mem_walk (.obj (field :: fields))
    have hne : walk (saniValue normalize (.obj (field :: fields))) ≠ [] := by
      have hkey : saniKey normalize field.1 ∈
          (Dict.ofPairs (saniFields normalize (field :: fields))).map Prod.fst := by
        rw [Dict.mem_keys_ofPairs, keys_saniFields]
        exact List.mem_map_of_mem List.mem_cons_self
      obtain ⟨p, hp, -⟩ := List.mem_map.mp hkey
      obtain ⟨q, qs, hqs⟩ := List.exists_cons_of_ne_nil (List.ne_nil_of_mem hp)
      rw [saniValue, hqs]
      exact List.cons_ne_nil _ _
    rw [metaText, metaText, normalize_intercalate hN, normalize_intercalate hN] at h
    have hlists := congrArg String.toList h
    rw [String.toList_intercalate, String.toList_intercalate] at hlists
    refine List.map_injective_iff.mpr (fun _ _ heq => String.toList_injective heq) ?_
    refine eq_of_intercalate_eq (x := '\n') ?_ ?_ ?_ hlists
    · intro line hline
      obtain ⟨s, hs, rfl⟩ := List.mem_map.mp hline
      obtain ⟨text, htext, rfl⟩ := List.mem_map.mp hs
      exact fun hmem => hlines text htext (hN.control text '\n' hmem (by decide))
    · simpa using hne
    · rw [List.length_map, List.length_map, List.length_map, List.length_map,
        walk_eq_pieces (.obj (field :: fields)), List.length_map]
      exact hlen

theorem normalize_eq_iff (hN : Nfc normalize) (rawMeta : List (String × Json)) :
    normalize (metaText rawMeta) = normalize (metaText (sanitizeMeta normalize rawMeta)) ↔
      IsInertMeta normalize rawMeta := by
  have hsani : ∀ {n : ℕ} {text : String}, IsInert n (normalize text).toList →
      sanitizeModelText normalize n text = normalize text := by
    intro n text hinert
    rw [sanitizeModelText, hinert.inert_eq, String.ofList_toList]
  have hkeys : (∀ p ∈ pieces (.obj rawMeta), IsInert p.1 (normalize p.2).toList) →
      ∀ keys ∈ dicts (.obj rawMeta), keys.map (saniKey normalize) = keys.map normalize := by
    intro htexts keys hkeys
    refine List.map_congr_left fun key hkey => ?_
    exact hsani (htexts _ (pieces_of_dicts _ keys hkeys key hkey))
  constructor
  · intro h
    have htexts := texts_eq_of_normalize_eq hN h
    have hlen := congrArg List.length htexts
    rw [List.length_map, List.length_map, walk_eq_pieces, List.length_map] at hlen
    have hdistinct := (length_walk_saniValue (.obj rawMeta)).2 hlen.le
    rw [walk_saniValue _ hdistinct, walk_eq_pieces, List.map_map, List.map_map] at htexts
    have hinert : ∀ p ∈ pieces (.obj rawMeta), IsInert p.1 (normalize p.2).toList := by
      intro p hp
      rw [← hN.sanitizeModelText_eq_iff]
      exact (List.map_inj_left.mp htexts p hp).symm
    refine ⟨hinert, fun keys hmem => ?_⟩
    rw [← hkeys hinert keys hmem]
    exact hdistinct keys hmem
  · intro h
    have hdistinct : ∀ keys ∈ dicts (.obj rawMeta), (keys.map (saniKey normalize)).Nodup := by
      intro keys hmem
      rw [hkeys h.texts keys hmem]
      exact h.keys keys hmem
    have hwalk : walk (.obj (sanitizeMeta normalize rawMeta)) =
        (pieces (.obj rawMeta)).map fun p => sanitizeModelText normalize p.1 p.2 :=
      walk_saniValue (.obj rawMeta) hdistinct
    rw [metaText, metaText, normalize_intercalate hN, normalize_intercalate hN, hwalk,
      walk_eq_pieces, List.map_map, List.map_map]
    refine congrArg "\n".intercalate (List.map_congr_left fun p hp => ?_)
    exact ((hN.sanitizeModelText_eq_iff p.1 p.2).mpr (h.texts p hp)).symm

/-- **No match is lost** exactly where sanitising leaves all texts, and all keys apart. -/
theorem floor_lawful_iff (hN : Nfc normalize) (rawMeta : List (String × Json)) :
    FloorLawful normalize rawMeta ↔ IsInertMeta normalize rawMeta := by
  rw [← normalize_eq_iff hN]
  constructor
  · intro h
    by_contra hne
    -- a rule that matches this text and no other
    have hrule := h "" [⟨"", fun text => if text = normalize (metaText rawMeta) then [(0, 0, "")]
      else [], .classified, none⟩] _ List.mem_cons_self (by simp)
    rw [metaRegex, classify] at hrule
    simp [Ne.symm hne, maxTier] at hrule
    exact absurd hrule (by decide)
  · intro h version rules rule hrule hfound
    rw [h] at hfound
    exact tierFloor_le_classify hrule hfound

theorem nfc_id : Nfc id where
  idem _ := rfl
  substring _ _ _ _ := rfl
  ascii _ _ := rfl
  boundary _ _ _ _ := rfl
  control _ _ hc _ := hc

theorem floor_lawful_iff_memo : FloorLawful id [("title", .str "Memo")] := by
  apply (floor_lawful_iff nfc_id _).mpr
  constructor
  · intro p hp
    fin_cases hp
    · exact inert_eq_self_iff.mp (by decide)
    · exact inert_eq_self_iff.mp (by decide)
  · decide

end Floor

/-! ## A marking that is lost -/

/-- The matches of `(?m:^SECRET$)` in the lines from a place on. -/
def secretLines : ℕ → List (List Char) → List (ℕ × ℕ × String)
  | _, [] => []
  | start, line :: lines =>
    let rest := secretLines (start + line.length + 1) lines
    if line = "SECRET".toList then (start, start + line.length, "SECRET") :: rest else rest

/-- The rule of the pattern `(?m:^SECRET$)`. -/
def secretLine : CompiledRule where
  name := "banner_en"
  finditer text := secretLines 0 (text.toList.splitOn '\n')
  tierFloor := .classified
  lang := some "en"

/-- The marking has a line of its own among the keywords, and none after the line ends are gone. -/
theorem keyword_line_lost : ¬ FloorLawful id [("keywords", .str "Memo\nSECRET")] := by
  intro h
  have hfloor := h "" [secretLine] secretLine List.mem_cons_self (by decide)
  exact absurd hfloor (by decide)

end MetadataFloor

end Eyenet
