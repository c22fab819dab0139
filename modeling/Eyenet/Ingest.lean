import Eyenet.Chokepoint
import Eyenet.Identity
import Eyenet.Machine

/-!
# From bytes to a tier

A document that is uploaded is stored as classified (`classifier/ingest.py`). A task reads its bytes
back, routes them by their first bytes to a parser behind the gate (`classifier/extract`), sends the
text through the gate again for the personal data (`classifier/presidio/_detect.py`), and settles
the tier. Tasks, uploads, and whoever arms the gate take turns.

* `Ingest.below_classified` — a document below classified was read in full and searched
  in full, by jails that ended well, behind a gate that a proof of containment armed.
-/

namespace Eyenet

open Framing Machine PyJson Sandbox

/-! ## Sniffing -/

/-- `DocKind` -/
inductive DocKind where
  | pdf
  | zipOoxml
  | image
  | text
  | rtf
  | html
  | unknown
  deriving DecidableEq

/-- The member's value. -/
def DocKind.value : DocKind → String
  | pdf => "pdf"
  | zipOoxml => "zip_ooxml"
  | image => "image"
  | text => "text"
  | rtf => "rtf"
  | html => "html"
  | unknown => "unknown"

namespace Ingest

/-- `_IMAGE_SIGNATURES` -/
def imageSignatures : List Bytes :=
  [[137, 80, 78, 71, 13, 10, 26, 10], [255, 216, 255], [73, 73, 42, 0], [77, 77, 0, 42],
    utf8 "GIF87a", utf8 "GIF89a", utf8 "BM"]

/-- `_HTML_MARKERS` -/
def htmlMarkers : List Bytes :=
  [utf8 "<!doctype html", utf8 "<html", utf8 "<head", utf8 "<?xml"]

/-- `_PREFIX_KINDS` -/
def prefixKinds : List (Bytes × DocKind) :=
  [(utf8 "%PDF", .pdf), ([80, 75, 3, 4], .zipOoxml), (utf8 "\x7b\\rtf", .rtf)]

/-- `_is_webp` -/
def isWebp (blob : Bytes) : Bool :=
  decide (12 ≤ blob.length) && blob.take 4 == utf8 "RIFF" && (blob.drop 8).take 4 == utf8 "WEBP"

/-- `_TEXTISH` -/
def textish (b : UInt8) : Bool :=
  b = 9 || b = 10 || b = 13 || decide (32 ≤ b ∧ b < 127) || decide (160 ≤ b)

/-- `_looks_textual`: below nine tenths is below `_PRINTABLE_FLOOR`. -/
def looksTextual (head : Bytes) : Bool :=
  if 0 ∈ head then false
  else (Utf8.decode head).isSome ||
    (!head.isEmpty && decide (9 * head.length ≤ 10 * head.countP textish))

/-- A byte that `bytes.lstrip` takes away. -/
def isAsciiSpace (b : UInt8) : Bool := b ∈ [9, 10, 11, 12, 13, 32]

/-- A byte of `bytes.lower`. -/
def lowerByte (b : UInt8) : UInt8 := if 65 ≤ b ∧ b ≤ 90 then b + 32 else b

/-- `sniff` -/
def sniff (blob : Bytes) : DocKind :=
  if blob = [] then .unknown
  else
    match prefixKinds.find? fun p => p.1.isPrefixOf blob with
    | some p => p.2
    | none =>
      if (imageSignatures.any fun sig => sig.isPrefixOf blob) || isWebp blob then .image
      else
        let markerHead := ((blob.take 512).dropWhile isAsciiSpace).map lowerByte
        if htmlMarkers.any fun marker => marker.isPrefixOf markerHead then .html
        else if looksTextual (blob.take 8192) then .text
        else .unknown

/-! ## Routing -/

/-- What is installed: the venv of the parsers, and Tesseract. -/
structure Host where
  venv : Bool
  tesseract : Bool
  deriving DecidableEq

/-- `stdlib_profile` -/
def stdlibProfile : SandboxProfile := ⟨"stdlib", false⟩

/-- `venv_profile` -/
def venvProfile (host : Host) : Option SandboxProfile :=
  if host.venv then some ⟨"venv", false⟩ else none

/-- `tesseract_profile` -/
def tesseractProfile (host : Host) : Option SandboxProfile :=
  if host.tesseract then some ⟨"tesseract", true⟩ else none

/-- `_build_profile` -/
def buildProfile (host : Host) : DocKind → Option SandboxProfile
  | .pdf | .zipOoxml => venvProfile host
  | .image => tesseractProfile host
  | _ => some stdlibProfile

/-- `_ROUTES` -/
def routes : DocKind → Option (Option String × Interpret)
  | .pdf => some (some "pdf_worker.py", .envelope)
  | .zipOoxml => some (some "docx_worker.py", .envelope)
  | .text => some (some "text_worker.py", .envelope)
  | .rtf => some (some "rtf_worker.py", .envelope)
  | .html => some (some "html_worker.py", .envelope)
  | .image => some (none, .rawText)
  | .unknown => none

/-- `_normalize` -/
def normalize (result : ExtractResult) (kind : DocKind) : ExtractResult :=
  let kinded :=
    if (result.meta_.lookup (py "doc_kind")).isSome then result.meta_
    else result.meta_ ++ [(py "doc_kind", .str (py kind.value))]
  let ocr := Dict.assign kinded (py "ocr_applied") (.bool (decide (kind = .image)))
  ⟨result.text,
    Dict.assign ocr (py "empty") (.bool (AdvisoryRepair.strip result.text).isEmpty)⟩

/-- What the interpreter makes of decoded values, and the stages that are matched against the text:
the rules on it and on the metadata, the conversions of a finding's entries, which may be refused
(`.error none`) or raise something that is not caught, and the map of the entities. -/
structure Stages where
  json : PyJson.Limits
  str : PyValue → String
  int : PyValue → Scan ℤ
  float : PyValue → Scan ℚ
  rules : PyStr → RegexVerdict
  metaRules : List (PyStr × PyValue) → RegexVerdict
  piiMap : PiiMap

/-- Where a pass of the pipeline leads. -/
inductive Pass where
  /-- an image that was read, before its EXIF -/
  | ocr (result : ExtractResult)
  | extracted (extracted : Extracted)

section Passes

variable (stages : Stages) (gate : Gate) (host : Host)

/-- `extract_document`, up to the second pass of an image. -/
def extractDocument (blob : Bytes) (jail : Jail) : Option (Except Raised Pass) :=
  let kind := sniff blob
  match kind with
  | .image =>
    match tesseractProfile host with
    | none =>
      some (.ok (.extracted (.failedClosed .extractorUnavailable
        "tesseract is not installed on this host")))
    | some profile =>
      (gate.extractSandboxed defaultLimits stages.json none profile .rawText jail).map fun ocr =>
        ocr.map fun ocr =>
          match ocr with
          | .failedClosed reason detail => .extracted (.failedClosed reason detail)
          | .result result => .ocr result
  | _ =>
    match routes kind with
    | none =>
      some (.ok (.extracted (.failedClosed .unsupportedType
        ("no parser routes blob of kind=" ++ kind.value))))
    | some (worker, interpret) =>
      match buildProfile host kind with
      | none =>
        some (.ok (.extracted (.failedClosed .extractorUnavailable
          ("extractor for kind=" ++ kind.value ++ " is not installed on this host"))))
      | some profile =>
        (gate.extractSandboxed defaultLimits stages.json worker profile interpret jail).map
          fun extracted => extracted.map fun extracted =>
            match extracted with
            | .failedClosed reason detail => .extracted (.failedClosed reason detail)
            | .result result => .extracted (.result (normalize result kind))

/-- `exif if isinstance(exif, dict) else {}` -/
def exifOf : Extracted → List (PyStr × PyValue)
  | .failedClosed _ _ => []
  | .result result =>
    match result.meta_.lookup (py "exif") with
    | some (.dict exif) => exif
    | _ => []

/-- `_extract_image_exif`, and the rest of `_extract_image`. -/
def extractExif (ocr : ExtractResult) (jail : Jail) : Option (Except Raised Extracted) :=
  let merged := fun exif : List (PyStr × PyValue) => Extracted.result
    (normalize ⟨ocr.text, Dict.assign ocr.meta_ (py "exif") (.dict exif)⟩ .image)
  match venvProfile host with
  | none => some (.ok (merged []))
  | some profile =>
    (gate.extractSandboxed defaultLimits stages.json (some "image_meta_worker.py") profile .envelope
      jail).map fun extracted => extracted.map fun extracted => merged (exifOf extracted)

/-- An item of the findings. -/
def findingOf : PyValue → Scan PiiFinding
  | .dict item => do
    let entry := fun key : String =>
      match item.lookup (py key) with
      | some v => Except.ok v
      | none => Except.error (none : Option Raised)
    let entityType ← entry "entity_type"
    let start ← (entry "start").bind stages.int
    let end_ ← (entry "end").bind stages.int
    let score ← (entry "score").bind stages.float
    let language ← entry "language"
    let text ← entry "text"
    .ok ⟨stages.str entityType, start, end_, score, stages.str language, stages.str text⟩
  | _ => .error none

/-- `_parse_findings` -/
def parseFindings (meta_ : List (PyStr × PyValue)) : Except Raised (Option (List PiiFinding)) :=
  match meta_.lookup (py "findings") with
  | some (.list raw) =>
    match raw.mapM (findingOf stages) with
    | .ok findings => .ok (some findings)
    | .error none => .ok none
    | .error (some e) => .error e
  | _ => .ok none

/-- `detect`, up to the findings; `text.encode("utf-8")` raises on a lone surrogate. -/
def detectFindings (text : PyStr) (jail : Jail) :
    Option (Except Raised (Option (List PiiFinding))) :=
  match venvProfile host with
  | none => some (.ok none)
  | some profile =>
    if text.all fun c => c.toChar.isSome then
      (gate.extractSandboxed presidioLimits stages.json (some "presidio_worker.py") profile
        .envelope jail).map fun extracted =>
        match extracted with
        | .error e => .error e
        | .ok (.failedClosed _ _) => .ok none
        | .ok (.result result) => parseFindings stages result.meta_
    else some (.error .valueError)

end Passes

/-! ## Settling -/

/-- What the aggregator reads of an extraction. -/
def seen (stages : Stages) : Extracted → Extraction
  | .failedClosed reason detail => .failedClosed reason detail
  | .result result =>
    .extracted ((result.meta_.lookup (py "doc_kind")).map stages.str)
      ((result.meta_.lookup (py "empty")) matches some (.bool true))
      ((result.meta_.lookup (py "ocr_applied")) matches some (.bool true))

/-- `extraction.text if isinstance(extraction, ExtractResult) else ""` -/
def textOf : Extracted → PyStr
  | .failedClosed _ _ => []
  | .result result => result.text

/-- `extraction.meta if isinstance(extraction, ExtractResult) else {}` -/
def metaOf : Extracted → List (PyStr × PyValue)
  | .failedClosed _ _ => []
  | .result result => result.meta_

/-- The verdict of `classify_blob`. -/
def verdictOf (stages : Stages) (extracted : Extracted) (findings : Option (List PiiFinding))
    (llm : LlmOutcome) : ClassificationVerdict :=
  let verdict := aggregate (seen stages extracted) (stages.rules (textOf extracted))
    (detect findings stages.piiMap) (some (stages.metaRules (metaOf extracted)))
  if verdict.consultLlm then applyLlmAdvisory verdict llm else verdict

/-- `DocumentRow`, with the bytes under its address. -/
structure Row where
  blob : Bytes
  docKind : Option String
  extractedText : Option PyStr
  reviewRequired : Bool
  classifierTier : SensitivityTier

/-- The row of `stage_document`. -/
def stagedRow (blob : Bytes) : Row := ⟨blob, none, none, false, .classified⟩

/-- What `settle_document_classification` and `ingest_document` store. -/
def settledRow (stages : Stages) (blob : Bytes) (extracted : Extracted)
    (findings : Option (List PiiFinding)) (llm : LlmOutcome) : Row :=
  let verdict := verdictOf stages extracted findings llm
  { blob
    docKind := ((metaOf extracted).lookup (py "doc_kind")).map stages.str
    extractedText := if textOf extracted = [] then none else some (textOf extracted)
    reviewRequired := !verdict.reviewFlags.isEmpty
    classifierTier := verdict.tier }

/-- Where a task is. -/
inductive Phase where
  | extracting
  | exif (ocr : ExtractResult)
  | detecting (extracted : Extracted)
  | settling (extracted : Extracted) (findings : Option (List PiiFinding))

/-- A task of `settle_document`, or of `ingest_document`, which has no row yet. -/
structure Task where
  documentId : Uuid
  blob : Bytes
  ingests : Bool
  phase : Phase

structure Pipeline where
  gate : Gate
  rows : Uuid → Option Row
  tasks : ℕ → Option Task

/-- Before anything happened. -/
def Pipeline.initial : Pipeline := ⟨.unarmed, fun _ => none, fun _ => none⟩

inductive Action where
  | arm (force : Bool) (boot : Boot)
  | reset
  | stage (documentId : Uuid) (blob : Bytes)
  | ingest (task : ℕ) (documentId : Uuid) (blob : Bytes)
  | settle (task : ℕ) (documentId : Uuid)
  | extract (task : ℕ) (host : Host) (jail : Jail)
  | exif (task : ℕ) (host : Host) (jail : Jail)
  | detect (task : ℕ) (host : Host) (jail : Jail)
  | store (task : ℕ) (llm : LlmOutcome)

namespace Pipeline

/-- What a task has become; one that raised is gone. -/
def put (s : Pipeline) (t : ℕ) (task : Option Task) : Pipeline :=
  { s with tasks := Function.update s.tasks t task }

/-- A row is written. -/
def write (s : Pipeline) (documentId : Uuid) (row : Row) : Pipeline :=
  { s with rows := Function.update s.rows documentId (some row) }

/-- The task goes on with what a pass gave, or raises. -/
def proceed {α : Type} (s : Pipeline) (t : ℕ) (task : Task) (next : α → Phase)
    (pass : Option (Except Raised α)) : Option Pipeline :=
  pass.map fun pass =>
    match pass with
    | .error _ => s.put t none
    | .ok a => s.put t (some { task with phase := next a })

/-- The phase after the first pass. -/
def afterPass : Pass → Phase
  | .ocr result => .exif result
  | .extracted extracted => .detecting extracted

/-- A step of a task, of an upload, or of whoever arms the gate. -/
def step (stages : Stages) (s : Pipeline) : Action → Option Pipeline
  | .arm force boot => (s.gate.arm defaultLimits force boot).map fun gate => { s with gate }
  | .reset => some { s with gate := .unarmed }
  | .stage documentId blob =>
    match s.rows documentId with
    | none => some (s.write documentId (stagedRow blob))
    | some _ => none
  | .ingest t documentId blob =>
    match s.tasks t with
    | none => some (s.put t (some ⟨documentId, blob, true, .extracting⟩))
    | some _ => none
  | .settle t documentId =>
    match s.tasks t, s.rows documentId with
    | none, some row => some (s.put t (some ⟨documentId, row.blob, false, .extracting⟩))
    | _, _ => none
  | .extract t host jail =>
    match s.tasks t with
    | some ⟨documentId, blob, ingests, .extracting⟩ =>
      s.proceed t ⟨documentId, blob, ingests, .extracting⟩ afterPass
        (extractDocument stages s.gate host blob jail)
    | _ => none
  | .exif t host jail =>
    match s.tasks t with
    | some ⟨documentId, blob, ingests, .exif ocr⟩ =>
      s.proceed t ⟨documentId, blob, ingests, .exif ocr⟩ Phase.detecting
        (extractExif stages s.gate host ocr jail)
    | _ => none
  | .detect t host jail =>
    match s.tasks t with
    | some ⟨documentId, blob, ingests, .detecting extracted⟩ =>
      s.proceed t ⟨documentId, blob, ingests, .detecting extracted⟩ (Phase.settling extracted)
        (detectFindings stages s.gate host (textOf extracted) jail)
    | _ => none
  | .store t llm =>
    match s.tasks t with
    | some ⟨documentId, blob, ingests, .settling extracted findings⟩ =>
      match s.rows documentId, ingests with
      | none, true =>
        some ((s.write documentId (settledRow stages blob extracted findings llm)).put t none)
      | some row, false =>
        some ((s.write documentId (settledRow stages row.blob extracted findings llm)).put t none)
      -- the row is gone
      | none, false => some (s.put t none)
      -- an id that is taken
      | some _, true => none
    | _ => none

end Pipeline

/-! ## What a pass found -/

/-- The text of the bytes, as a parser printed it. -/
def ReadFrom (stages : Stages) (blob : Bytes) (jail : Jail) (text : PyStr) : Prop :=
  ∃ worker interpret stdout result, routes (sniff blob) = some (worker, interpret) ∧
    Clean defaultLimits jail stdout ∧ Reads stages.json interpret stdout result ∧
    result.text = text

/-- The findings in a text, as the search printed them. -/
def FoundIn (stages : Stages) (text : PyStr) (jail : Jail) (findings : List PiiFinding) : Prop :=
  (text.all fun c => c.toChar.isSome) = true ∧
  ∃ stdout result, Clean presidioLimits jail stdout ∧ Reads stages.json .envelope stdout result ∧
    parseFindings stages result.meta_ = .ok (some findings)

section Passes

variable {stages : Stages} {gate : Gate} {host : Host} {blob : Bytes} {jail : Jail}

/-- A parser is behind the gate. -/
theorem readFrom_of_extracted {worker : Option String} {profile : SandboxProfile}
    {interpret : Interpret} {result : ExtractResult}
    (hroute : routes (sniff blob) = some (worker, interpret))
    (h : gate.extractSandboxed defaultLimits stages.json worker profile interpret jail =
      some (.ok (.result result))) :
    gate.state = .healthy ∧ ReadFrom stages blob jail result.text := by
  obtain ⟨-, hgate, stdout, hclean, hreads⟩ := Gate.extracted_iff.mp h
  exact ⟨hgate.1, worker, interpret, stdout, result, hroute, hclean, hreads, rfl⟩

/-- What a pass gives was given by the jail, after something was made of it. -/
theorem map_map_eq_ok {α β : Type} {run : Option (Except Raised α)} {f : α → β} {b : β}
    (h : (run.map fun x => x.map f) = some (.ok b)) : ∃ a, run = some (.ok a) ∧ f a = b := by
  obtain ⟨x, rfl, hx⟩ := Option.map_eq_some_iff.mp h
  obtain ⟨a, rfl, hb⟩ := map_eq_ok.mp hx
  exact ⟨a, rfl, hb⟩

theorem extractDocument_ocr {result : ExtractResult}
    (h : extractDocument stages gate host blob jail = some (.ok (.ocr result))) :
    gate.state = .healthy ∧ ReadFrom stages blob jail result.text := by
  rw [extractDocument] at h
  split at h
  · next himage =>
    split at h
    · cases h
    · obtain ⟨extracted, hrun, hocr⟩ := map_map_eq_ok h
      cases extracted with
      | failedClosed reason detail => cases hocr
      | result result' =>
        obtain rfl := Pass.ocr.inj hocr
        exact readFrom_of_extracted (by rw [himage]; rfl) hrun
  · split at h
    · cases h
    · split at h
      · cases h
      · obtain ⟨extracted, -, hocr⟩ := map_map_eq_ok h
        cases extracted <;> cases hocr

theorem extractDocument_result {result : ExtractResult}
    (h : extractDocument stages gate host blob jail = some (.ok (.extracted (.result result)))) :
    gate.state = .healthy ∧ ReadFrom stages blob jail result.text := by
  rw [extractDocument] at h
  split at h
  · split at h
    · cases h
    · obtain ⟨extracted, -, hocr⟩ := map_map_eq_ok h
      cases extracted <;> cases hocr
  · split at h
    · cases h
    · next worker interpret hroute =>
      split at h
      · cases h
      · obtain ⟨extracted, hrun, hresult⟩ := map_map_eq_ok h
        cases extracted with
        | failedClosed reason detail => cases hresult
        | result result' =>
          cases hresult
          have hread := readFrom_of_extracted hroute hrun
          exact hread

/-- The second pass of an image keeps its text. -/
theorem extractExif_result {ocr : ExtractResult} {extracted : Extracted}
    (h : extractExif stages gate host ocr jail = some (.ok extracted)) :
    ∃ result, extracted = .result result ∧ result.text = ocr.text := by
  rw [extractExif] at h
  split at h
  · cases h
    exact ⟨_, rfl, rfl⟩
  · obtain ⟨exif, -, rfl⟩ := map_map_eq_ok h
    exact ⟨_, rfl, rfl⟩

theorem detectFindings_some {text : PyStr} {findings : List PiiFinding}
    (h : detectFindings stages gate host text jail = some (.ok (some findings))) :
    gate.state = .healthy ∧ FoundIn stages text jail findings := by
  rw [detectFindings] at h
  split at h
  · cases h
  · split_ifs at h with htext
    · obtain ⟨x, hrun, hx⟩ := Option.map_eq_some_iff.mp h
      rcases x with e | result | reason
      · cases hx
      · obtain ⟨-, hgate, stdout, hclean, hreads⟩ := Gate.extracted_iff.mp hrun
        exact ⟨hgate.1, htext, stdout, result, hclean, hreads, hx⟩
      · cases hx
    · cases h

end Passes

/-! ## Steps -/

namespace Pipeline

variable {stages : Stages} {s s' : Pipeline} {a : Action}

/-- What a step does to a task. -/
inductive Moves (stages : Stages) (gate : Gate) (t : ℕ) : Action → Option Task → Option Task → Prop
  | same {a task} : Moves stages gate t a task task
  | gone {a task} : Moves stages gate t a task none
  | ingests {documentId blob} : Moves stages gate t (.ingest t documentId blob) none
      (some ⟨documentId, blob, true, .extracting⟩)
  | settles {documentId blob} : Moves stages gate t (.settle t documentId) none
      (some ⟨documentId, blob, false, .extracting⟩)
  | extracts {documentId blob ingests host jail pass}
      (h : extractDocument stages gate host blob jail = some (.ok pass)) :
      Moves stages gate t (.extract t host jail) (some ⟨documentId, blob, ingests, .extracting⟩)
        (some ⟨documentId, blob, ingests, afterPass pass⟩)
  | exif {documentId blob ingests host jail ocr extracted}
      (h : extractExif stages gate host ocr jail = some (.ok extracted)) :
      Moves stages gate t (.exif t host jail) (some ⟨documentId, blob, ingests, .exif ocr⟩)
        (some ⟨documentId, blob, ingests, .detecting extracted⟩)
  | detects {documentId blob ingests host jail extracted findings}
      (h : detectFindings stages gate host (textOf extracted) jail = some (.ok findings)) :
      Moves stages gate t (.detect t host jail)
        (some ⟨documentId, blob, ingests, .detecting extracted⟩)
        (some ⟨documentId, blob, ingests, .settling extracted findings⟩)

/-- What a step writes to a row. -/
inductive Writes (stages : Stages) (tasks : ℕ → Option Task) (documentId : Uuid) :
    Action → Option Row → Option Row → Prop
  | same {a row} : Writes stages tasks documentId a row row
  | stages {blob} :
      Writes stages tasks documentId (.stage documentId blob) none (some (stagedRow blob))
  | ingests {t llm blob extracted findings}
      (h : tasks t = some ⟨documentId, blob, true, .settling extracted findings⟩) :
      Writes stages tasks documentId (.store t llm) none
        (some (settledRow stages blob extracted findings llm))
  | settles {t llm blob extracted findings row}
      (h : tasks t = some ⟨documentId, blob, false, .settling extracted findings⟩) :
      Writes stages tasks documentId (.store t llm) (some row)
        (some (settledRow stages row.blob extracted findings llm))

@[simp] theorem put_tasks (t t' : ℕ) (task : Option Task) :
    (s.put t task).tasks t' = if t' = t then task else s.tasks t' :=
  Function.update_apply _ _ _ _

@[simp] theorem put_rows (t : ℕ) (task : Option Task) : (s.put t task).rows = s.rows := rfl

@[simp] theorem put_gate (t : ℕ) (task : Option Task) : (s.put t task).gate = s.gate := rfl

@[simp] theorem write_rows (documentId documentId' : Uuid) (row : Row) :
    (s.write documentId row).rows documentId' =
      if documentId' = documentId then some row else s.rows documentId' :=
  Function.update_apply _ _ _ _

@[simp] theorem write_tasks (documentId : Uuid) (row : Row) :
    (s.write documentId row).tasks = s.tasks := rfl

@[simp] theorem write_gate (documentId : Uuid) (row : Row) :
    (s.write documentId row).gate = s.gate := rfl

/-- Going on moves one task and writes nothing. -/
theorem proceed_eq_some {α : Type} {t : ℕ} {task : Task} {next : α → Phase}
    {pass : Option (Except Raised α)} (h : s.proceed t task next pass = some s') :
    (∃ e, pass = some (.error e) ∧ s' = s.put t none) ∨
      ∃ a, pass = some (.ok a) ∧ s' = s.put t (some { task with phase := next a }) := by
  obtain ⟨pass, rfl, hs⟩ := Option.map_eq_some_iff.mp h
  cases pass with
  | error e => exact Or.inl ⟨e, rfl, hs.symm⟩
  | ok a => exact Or.inr ⟨a, rfl, hs.symm⟩

/-- What a step does. -/
inductive Effect (stages : Stages) (s : Pipeline) (a : Action) : Pipeline → Prop
  | arms {force boot gate} (ha : a = .arm force boot)
      (h : s.gate.arm defaultLimits force boot = some gate) : Effect stages s a { s with gate }
  | resets (ha : a = .reset) : Effect stages s a { s with gate := .unarmed }
  | writes {documentId row}
      (h : Writes stages s.tasks documentId a (s.rows documentId) (some row)) :
      Effect stages s a (s.write documentId row)
  | moves {t task} (h : Moves stages s.gate t a (s.tasks t) task) : Effect stages s a (s.put t task)
  | stores {documentId row t}
      (h : Writes stages s.tasks documentId a (s.rows documentId) (some row)) :
      Effect stages s a ((s.write documentId row).put t none)

theorem step_effect (h : step stages s a = some s') : Effect stages s a s' := by
  cases a with
  | arm force boot =>
    obtain ⟨gate, hgate, rfl⟩ := Option.map_eq_some_iff.mp h
    exact .arms rfl hgate
  | reset =>
    obtain rfl := Option.some.inj h
    exact .resets rfl
  | stage documentId blob =>
    rw [step] at h
    split at h
    · next hfree =>
      obtain rfl := Option.some.inj h
      exact .writes (hfree ▸ .stages)
    · cases h
  | ingest t documentId blob =>
    rw [step] at h
    split at h
    · next hfree =>
      obtain rfl := Option.some.inj h
      exact .moves (hfree ▸ .ingests)
    · cases h
  | settle t documentId =>
    rw [step] at h
    split at h
    · next hfree hrow =>
      obtain rfl := Option.some.inj h
      exact .moves (hfree ▸ .settles)
    · cases h
  | extract t host jail =>
    rw [step] at h
    split at h
    · next htask =>
      obtain ⟨e, -, rfl⟩ | ⟨pass, hpass, rfl⟩ := proceed_eq_some h
      · exact .moves .gone
      · exact .moves (htask ▸ .extracts hpass)
    · cases h
  | exif t host jail =>
    rw [step] at h
    split at h
    · next htask =>
      obtain ⟨e, -, rfl⟩ | ⟨extracted, hpass, rfl⟩ := proceed_eq_some h
      · exact .moves .gone
      · exact .moves (htask ▸ .exif hpass)
    · cases h
  | detect t host jail =>
    rw [step] at h
    split at h
    · next htask =>
      obtain ⟨e, -, rfl⟩ | ⟨findings, hpass, rfl⟩ := proceed_eq_some h
      · exact .moves .gone
      · exact .moves (htask ▸ .detects hpass)
    · cases h
  | store t llm =>
    rw [step] at h
    split at h
    · next htask =>
      split at h
      · next hrow =>
        obtain rfl := Option.some.inj h
        exact .stores (hrow ▸ .ingests htask)
      · next row hrow =>
        obtain rfl := Option.some.inj h
        exact .stores (hrow ▸ .settles htask)
      · obtain rfl := Option.some.inj h
        exact .moves .gone
      · cases h
    · cases h

/-- Of a task, a step does what it does to this task. -/
theorem step_moves (h : step stages s a = some s') (t : ℕ) :
    Moves stages s.gate t a (s.tasks t) (s'.tasks t) := by
  cases step_effect h with
  | arms ha hgate => exact .same
  | resets ha => exact .same
  | writes hrow => exact .same
  | @moves t' task htask =>
    rw [put_tasks]
    split_ifs with ht
    · exact ht ▸ htask
    · exact .same
  | @stores documentId row t' hrow =>
    rw [put_tasks, write_tasks]
    split_ifs
    · exact .gone
    · exact .same

theorem step_writes (h : step stages s a = some s') (documentId : Uuid) :
    Writes stages s.tasks documentId a (s.rows documentId) (s'.rows documentId) := by
  cases step_effect h with
  | arms ha hgate => exact .same
  | resets ha => exact .same
  | moves htask => exact .same
  | @writes documentId' row hrow =>
    rw [write_rows]
    split_ifs with hid
    · exact hid ▸ hrow
    · exact .same
  | @stores documentId' row t hrow =>
    rw [put_rows, write_rows]
    split_ifs with hid
    · exact hid ▸ hrow
    · exact .same

/-- What arms the gate is a proof. -/
theorem step_armed (h : step stages s a = some s') (harmed : s'.gate.state = .healthy) :
    s.gate.state = .healthy ∨ ∃ force boot, a = .arm force boot ∧ boot.Holds defaultLimits := by
  cases step_effect h with
  | @arms force boot gate ha hgate =>
    obtain rfl | ⟨v, hv, rfl⟩ := Gate.arm_eq_some hgate
    · exact Or.inl harmed
    · refine Or.inr ⟨force, boot, ha, (verified_iff hv).mp ?_⟩
      obtain ⟨v', hv', hok⟩ := Gate.sound_proved v harmed
      rw [Gate.proved] at hv'
      split_ifs at hv' <;> exact Option.some.inj hv' ▸ hok
  | resets ha => cases harmed
  | moves htask => exact Or.inl harmed
  | writes hrow => exact Or.inl harmed
  | stores hrow => exact Or.inl harmed

/-! ## Runs -/

/-- The bytes of a row stay, and a task that settles a row has its bytes. -/
def Attached (s : Pipeline) : Prop :=
  ∀ t task, s.tasks t = some task → task.ingests = false →
    ∃ row, s.rows task.documentId = some row ∧ row.blob = task.blob

theorem step_attached (hs : s.Attached) (h : step stages s a = some s') : s'.Attached := by
  have hrow : ∀ documentId row, s.rows documentId = some row →
      ∃ row', s'.rows documentId = some row' ∧ row'.blob = row.blob := by
    intro documentId row hold
    have hwrites := step_writes h documentId
    rw [hold] at hwrites
    generalize s'.rows documentId = new at hwrites ⊢
    cases hwrites with
    | same => exact ⟨row, rfl, rfl⟩
    | settles htask => exact ⟨_, rfl, rfl⟩
  intro t task htask hingests
  have hmoves := step_moves h t
  rw [htask] at hmoves
  generalize hold : s.tasks t = old at hmoves
  have hkept : ∀ old', s.tasks t = some old' → old'.ingests = task.ingests →
      old'.documentId = task.documentId → old'.blob = task.blob →
      ∃ row, s'.rows task.documentId = some row ∧ row.blob = task.blob := by
    intro old' hold' hsame hid hblob
    obtain ⟨row, hrow', hattached⟩ := hs t old' hold' (hsame.trans hingests)
    obtain ⟨row', hnew, hkeeps⟩ := hrow _ row hrow'
    exact ⟨row', hid ▸ hnew, hkeeps.trans (hattached.trans hblob)⟩
  cases hmoves with
  | same => exact hkept task hold rfl rfl rfl
  | ingests => cases hingests
  | @settles documentId blob =>
    -- the bytes were read of the row
    rw [step] at h
    split at h
    · next row hfree hrow' =>
      obtain rfl := Option.some.inj h
      rw [put_tasks, if_pos rfl] at htask
      cases htask
      exact ⟨row, hrow', rfl⟩
    · cases h
  | extracts hpass => exact hkept _ hold rfl rfl rfl
  | exif hpass => exact hkept _ hold rfl rfl rfl
  | detects hpass => exact hkept _ hold rfl rfl rfl

variable {as : List Action}

/-- The gate is armed, by a proof that the jail holds. -/
structure Guarded (stages : Stages) (as : List Action) : Prop where
  healthy : ∃ s, run (step stages) .initial as = some s ∧ s.gate.state = .healthy
  proved : ∃ force boot, Action.arm force boot ∈ as ∧ boot.Holds defaultLimits

theorem guarded_of_healthy (hrun : run (step stages) .initial as = some s)
    (h : s.gate.state = .healthy) : Guarded stages as := by
  refine ⟨⟨s, hrun, h⟩, ?_⟩
  obtain hinitial | ⟨bs, a, cs, u, rfl, -, force, boot, rfl, hholds⟩ :=
    exists_step_origin (I := fun _ => True) (R := fun s _ => s.gate.state = .healthy)
      (P := fun _ a _ => ∃ force boot, a = .arm force boot ∧ boot.Holds defaultLimits) (r := ())
      (fun _ _ => trivial) (fun _ hstep hr => step_armed hstep hr) trivial hrun h
  · cases hinitial
  · exact ⟨force, boot, List.mem_append_right _ List.mem_cons_self, hholds⟩

/-- A task has read a text of its bytes. -/
def HasText (t : ℕ) (s : Pipeline) (x : Uuid × Bytes × PyStr) : Prop :=
  ∃ ingests result, result.text = x.2.2 ∧
    (s.tasks t = some ⟨x.1, x.2.1, ingests, .exif result⟩ ∨
      s.tasks t = some ⟨x.1, x.2.1, ingests, .detecting (.result result)⟩)

/-- A text is read by a parser behind the gate. -/
theorem step_hasText {t : ℕ} {x : Uuid × Bytes × PyStr} (h : step stages s a = some s')
    (hx : HasText t s' x) : HasText t s x ∨ s.gate.state = .healthy ∧
      ∃ host jail, a = .extract t host jail ∧ ReadFrom stages x.2.1 jail x.2.2 := by
  obtain ⟨documentId, blob, text⟩ := x
  obtain ⟨ingests, result, rfl, hnew⟩ := hx
  have hmoves := step_moves h t
  rcases hnew with hnew | hnew
  · rw [hnew] at hmoves
    generalize hold : s.tasks t = old at hmoves
    generalize hphase : (some ⟨documentId, blob, ingests, .exif result⟩ : Option Task) = new
      at hmoves
    cases hmoves with
    | same =>
      subst hphase
      exact Or.inl ⟨ingests, result, rfl, Or.inl hold⟩
    | @extracts documentId' blob' ingests' host jail pass hpass =>
      cases pass with
      | ocr result' =>
        cases hphase
        obtain ⟨hgate, hread⟩ := extractDocument_ocr hpass
        exact Or.inr ⟨hgate, host, jail, rfl, hread⟩
      | extracted extracted => cases hphase
    | _ => cases hphase
  · rw [hnew] at hmoves
    generalize hold : s.tasks t = old at hmoves
    generalize hphase : (some ⟨documentId, blob, ingests, .detecting (.result result)⟩ :
      Option Task) = new at hmoves
    cases hmoves with
    | same =>
      subst hphase
      exact Or.inl ⟨ingests, result, rfl, Or.inr hold⟩
    | @extracts documentId' blob' ingests' host jail pass hpass =>
      cases pass with
      | ocr result' => cases hphase
      | extracted extracted =>
        cases hphase
        obtain ⟨hgate, hread⟩ := extractDocument_result hpass
        exact Or.inr ⟨hgate, host, jail, rfl, hread⟩
    | @exif documentId' blob' ingests' host jail ocr extracted hpass =>
      cases hphase
      obtain ⟨result', hresult, htext⟩ := extractExif_result hpass
      obtain rfl := Extracted.result.inj hresult
      exact Or.inl ⟨ingests, ocr, htext.symm, Or.inl hold⟩
    | _ => cases hphase

theorem extract_of_hasText {t : ℕ} {documentId : Uuid} {blob : Bytes} {text : PyStr}
    (hrun : run (step stages) .initial as = some s) (h : HasText t s (documentId, blob, text)) :
    ∃ bs host jail, bs ++ [.extract t host jail] <+: as ∧ Guarded stages bs ∧
      ReadFrom stages blob jail text := by
  obtain ⟨ingests, result, -, hno | hno⟩ | ⟨bs, a, cs, u, rfl, hu, hgate, host, jail, rfl, hread⟩ :=
    exists_step_origin (I := fun _ => True)
      (P := fun (s : Pipeline) (a : Action) (x : Uuid × Bytes × PyStr) => s.gate.state = .healthy ∧
        ∃ host jail, a = .extract t host jail ∧ ReadFrom stages x.2.1 jail x.2.2)
      (fun _ _ => trivial) (fun _ hstep hx => step_hasText hstep hx) trivial hrun h
  · cases hno
  · cases hno
  · refine ⟨bs, host, jail, ⟨cs, ?_⟩, guarded_of_healthy hu hgate, hread⟩
    rw [List.append_assoc, List.singleton_append]

/-- The findings are those of a search behind the gate, in the text that was read. -/
theorem step_settling {t : ℕ} {documentId : Uuid} {blob : Bytes} {ingests : Bool}
    {result : ExtractResult} {findings : List PiiFinding} (h : step stages s a = some s')
    (hnew : s'.tasks t =
      some ⟨documentId, blob, ingests, .settling (.result result) (some findings)⟩) :
    s.tasks t = some ⟨documentId, blob, ingests, .settling (.result result) (some findings)⟩ ∨
      s.gate.state = .healthy ∧ HasText t s (documentId, blob, result.text) ∧
        ∃ host jail, a = .detect t host jail ∧ FoundIn stages result.text jail findings := by
  have hmoves := step_moves h t
  rw [hnew] at hmoves
  generalize hold : s.tasks t = old at hmoves ⊢
  generalize hphase : (some ⟨documentId, blob, ingests,
    .settling (.result result) (some findings)⟩ : Option Task) = new at hmoves ⊢
  cases hmoves with
  | same => exact Or.inl rfl
  | @extracts documentId' blob' ingests' host jail pass hpass => cases pass <;> cases hphase
  | @detects documentId' blob' ingests' host jail extracted findings' hpass =>
    cases hphase
    obtain ⟨hgate, hfound⟩ := detectFindings_some hpass
    exact Or.inr ⟨hgate, ⟨ingests, result, rfl, Or.inr hold⟩, host, jail, rfl, hfound⟩
  | _ => cases hphase

theorem detect_of_settling {t : ℕ} {documentId : Uuid} {blob : Bytes} {ingests : Bool}
    {result : ExtractResult} {findings : List PiiFinding}
    (hrun : run (step stages) .initial as = some s)
    (h : s.tasks t =
      some ⟨documentId, blob, ingests, .settling (.result result) (some findings)⟩) :
    ∃ bs host jail, bs ++ [.detect t host jail] <+: as ∧ Guarded stages bs ∧
      FoundIn stages result.text jail findings ∧
      ∃ u, run (step stages) .initial bs = some u ∧
        HasText t u (documentId, blob, result.text) := by
  obtain hno | ⟨bs, a, cs, u, rfl, hu, hgate, htext, host, jail, rfl, hfound⟩ :=
    exists_step_origin (I := fun _ => True)
      (R := fun s _ => s.tasks t =
        some ⟨documentId, blob, ingests, .settling (.result result) (some findings)⟩)
      (P := fun s a _ => s.gate.state = .healthy ∧ HasText t s (documentId, blob, result.text) ∧
        ∃ host jail, a = .detect t host jail ∧ FoundIn stages result.text jail findings) (r := ())
      (fun _ _ => trivial) (fun _ hstep hx => step_settling hstep hx) trivial hrun h
  · cases hno
  · refine ⟨bs, host, jail, ⟨cs, ?_⟩, guarded_of_healthy hu hgate, hfound, u, hu, htext⟩
    rw [List.append_assoc, List.singleton_append]

end Pipeline

/-! ## The tier -/

/-- The tier of a verdict is the highest of the floors. -/
theorem tier_verdictOf (stages : Stages) (extracted : Extracted)
    (findings : Option (List PiiFinding)) (llm : LlmOutcome) :
    (verdictOf stages extracted findings llm).tier =
      maxTier [(extractionProvenance (seen stages extracted)).tierFloor,
        (stages.rules (textOf extracted)).tierFloor, (detect findings stages.piiMap).tierFloor,
        (stages.metaRules (metaOf extracted)).tierFloor] := by
  rw [verdictOf]
  split_ifs
  · cases llm <;> rfl
  · rfl

/-- Nothing that was not read and searched is below classified. -/
theorem result_of_lt {stages : Stages} {extracted : Extracted}
    {findings : Option (List PiiFinding)} {llm : LlmOutcome}
    (h : (verdictOf stages extracted findings llm).tier < .classified) :
    (∃ result, extracted = .result result) ∧ ∃ found, findings = some found := by
  rw [tier_verdictOf] at h
  have hfloor : ∀ t ∈ [(extractionProvenance (seen stages extracted)).tierFloor,
      (stages.rules (textOf extracted)).tierFloor, (detect findings stages.piiMap).tierFloor,
      (stages.metaRules (metaOf extracted)).tierFloor], t ≠ .classified := by
    intro t ht heq
    exact absurd h (not_lt.mpr (heq ▸ le_maxTier ht))
  constructor
  · cases extracted with
    | result result => exact ⟨result, rfl⟩
    | failedClosed reason detail => exact absurd rfl (hfloor _ List.mem_cons_self)
  · cases findings with
    | some found => exact ⟨found, rfl⟩
    | none =>
      exact absurd rfl (hfloor _
        (List.mem_cons_of_mem _ (List.mem_cons_of_mem _ List.mem_cons_self)))

/-- The row's bytes were read by a parser, and then the text was searched for personal data, each
behind a gate that was armed by a proof and by a jail that ended well; the tier is the highest of
the floors of what was found. -/
def Supported (stages : Stages) (as : List Action) (row : Row) : Prop :=
  ∃ text metadata findings t bs host jail cs host' jail',
    bs ++ [.extract t host jail] <+: cs ∧ cs ++ [.detect t host' jail'] <+: as ∧
    Pipeline.Guarded stages bs ∧ Pipeline.Guarded stages cs ∧
    ReadFrom stages row.blob jail text ∧ FoundIn stages text jail' findings ∧
    row.classifierTier = maxTier [.normal, (stages.rules text).tierFloor,
      (mapFindings findings stages.piiMap).tierFloor, (stages.metaRules metadata).tierFloor]

/-- A tier below classified was stored by a task that had read and searched the row's bytes. -/
theorem step_below {stages : Stages} {s s' : Pipeline} {a : Action} {documentId : Uuid} {row : Row}
    (hs : s.Attached) (h : s.step stages a = some s') (hrow : s'.rows documentId = some row)
    (hbelow : row.classifierTier < .classified) :
    s.rows documentId = some row ∨ ∃ t ingests result findings llm,
      s.tasks t = some ⟨documentId, row.blob, ingests, .settling (.result result) (some findings)⟩ ∧
      row.classifierTier = (verdictOf stages (.result result) (some findings) llm).tier := by
  have hwrites := Pipeline.step_writes h documentId
  rw [hrow] at hwrites
  generalize hold : s.rows documentId = old at hwrites ⊢
  generalize hnew : some row = new at hwrites ⊢
  cases hwrites with
  | same => exact Or.inl rfl
  | stages =>
    cases hnew
    exact absurd hbelow (lt_irrefl _)
  | @ingests t llm blob extracted findings htask =>
    cases hnew
    obtain ⟨⟨result, rfl⟩, found, rfl⟩ := result_of_lt hbelow
    exact Or.inr ⟨t, true, result, found, llm, htask, rfl⟩
  | @settles t llm blob extracted findings row' htask =>
    cases hnew
    obtain ⟨⟨result, rfl⟩, found, rfl⟩ := result_of_lt hbelow
    obtain ⟨row'', hrow'', hblob⟩ := hs t _ htask rfl
    obtain rfl : row' = row'' := Option.some.inj (hold.symm.trans hrow'')
    have hsame : row'.blob = blob := hblob
    refine Or.inr ⟨t, false, result, found, llm, ?_, rfl⟩
    rw [htask, ← hsame]
    rfl

/-- Nothing is marked and nothing is found. -/
def plainStages : Stages where
  json := unlimited
  str _ := ""
  int _ := .error none
  float _ := .error none
  rules _ := ⟨[], "v3", .normal, rfl⟩
  metaRules _ := ⟨[], "v3", .normal, rfl⟩
  piiMap := ⟨"v1", [], 3, 10⟩

/-- What a worker prints of a text and its metadata. -/
def dumped (text : PyStr) (meta_ : List (PyStr × PyValue)) : Bytes :=
  utf8 (String.ofList
    (PyJson.text .compact 0 (.dict [(py "text", .str text), (py "meta", .dict meta_)])))

/-- No float is written. -/
def noFloats : Floats where
  canon _ := py "0.0"
  ofInt _ := none
  canon_repr _ := ⟨⟨"0.0".toList, rfl, Or.inr rfl⟩, rfl⟩
  ofInt_repr _ _ h := nomatch h

/-- Every probe is denied and says nothing, and the control prints the digest of its input. -/
def holdingBoot : Boot where
  nsjailPath := some "/usr/bin/nsjail"
  probe _ := .printing []
  benign := .printing (utf8 (benignMarker ++ hex (Sha256.digest benignInput)))

/-- A note is uploaded, read, searched and settled. -/
def settlingNote : List Action :=
  [.arm true holdingBoot, .stage 7 [104, 105], .settle 0 7,
    .extract 0 ⟨true, false⟩ (.printing (dumped (py "hi") [])),
    .detect 0 ⟨true, false⟩ (.printing (dumped (py "") [(py "findings", .list [])])),
    .store 0 (.unavailable "timeout")]

theorem holdingBoot_holds : holdingBoot.Holds defaultLimits := by
  have hprints : ∀ s : String, s.length ≤ 100 → ∃ outcome,
      runSandboxed defaultLimits (.printing (utf8 s)) = some outcome ∧ outcome.status = .ok ∧
        outcome.stdout = utf8 s := by
    intro s hs
    have hle := length_utf8_le s
    refine clean_iff_run.mp (clean_printing (by decide) ?_)
    rw [show defaultLimits.maxStdoutBytes = 8388608 from rfl]
    omega
  constructor
  case found => exact Option.some_ne_none _
  case contained =>
    intro probe _
    have hnothing : Clean defaultLimits (.printing []) [] :=
      clean_printing (by decide) (Nat.zero_le _)
    obtain ⟨outcome, hrun, hok, hstdout⟩ := clean_iff_run.mp hnothing
    refine ⟨outcome, hrun, ?_, ?_⟩
    · rw [hok]
      decide
    · rw [hstdout, List.infix_nil]
      decide
  case benign =>
    obtain ⟨outcome, hrun, hok, hstdout⟩ :=
      hprints (benignMarker ++ hex (Sha256.digest benignInput)) (by
        rw [String.length_append, hex, String.length_ofList, length_flatMap_hexByte,
          Sha256.length_digest]
        decide)
    refine ⟨outcome, hrun, ?_⟩
    rw [benignOk, hok, SandboxOutcome.stdoutText, hstdout, utf8_eq_flatMap,
      Utf8.decodeReplace_encode, String.ofList_toList, contains,
      decide_eq_true (List.infix_refl _)]
    rfl

theorem joined_py (text : String) : Joined (py text) := by
  rw [PyJson.Joined, py, List.isChain_map]
  exact (List.pairwise_of_forall fun c _ h => PyChar.not_isHigh_scalar c h.1).isChain

/-- A worker's output is within the limit and is read. -/
theorem extract_note {gate : Gate} {worker : String} {profile : SandboxProfile}
    {limits : SandboxLimits} {text : String} {meta_ : List (PyStr × PyValue)}
    (hgate : gate.state = .healthy ∧ gate.nsjailPath ≠ none)
    (htime : 0 < limits.parentTimeoutS)
    (hlength : (dumped (py text) meta_).length ≤ limits.maxStdoutBytes)
    (h : Readable noFloats (.dict meta_)) :
    gate.extractSandboxed limits unlimited (some worker) profile .envelope
      (.printing (dumped (py text) meta_)) = some (.ok (.result ⟨py text, meta_⟩)) := by
  have hread : Readable noFloats
      (.dict [(py "text", .str (py text)), (py "meta", .dict meta_)]) := by
    refine .dict (show [py "text", py "meta"].Nodup by decide) ?_ ?_
    · simp only [List.forall_mem_cons]
      exact ⟨joined_py "text", joined_py "meta", List.forall_mem_nil _⟩
    · simp only [List.forall_mem_cons]
      exact ⟨.str (joined_py text), h, List.forall_mem_nil _⟩
  exact Gate.extracted_iff.mpr
    ⟨Or.inr rfl, hgate, _, clean_printing htime hlength, parseEnvelope_text .compact hread⟩

end Ingest

end Eyenet
