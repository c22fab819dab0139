import Eyenet.MetadataFloor
import Eyenet.Rx

/-!
# The structural prefilter

`scan` (`incidents/prefilter.py`) searches a message for the shapes of incident posts. The weights
of the shapes that it finds decide whether the message is looked at more closely. The text is
brought to a composed form, a parameter here, and look-alikes of Latin letters become Latin
letters.

* `Prefilter.scan_lines` — lines before and after never hide what a text shows.
* `Prefilter.scan_latin` — three of the words that it looks for are in no text.
-/

namespace Eyenet

namespace Prefilter

open Rx

/-! ## Characters -/

/-- `_CONFUSABLE_POINTS` -/
def CONFUSABLE_POINTS : List (ℕ × Char) :=
  [(0x0430, 'a'), (0x0435, 'e'), (0x043e, 'o'), (0x0440, 'p'), (0x0441, 'c'), (0x0445, 'x'),
    (0x0443, 'y'), (0x0456, 'i'), (0x0458, 'j'), (0x0455, 's'),
    (0x0410, 'A'), (0x0412, 'B'), (0x0415, 'E'), (0x041a, 'K'), (0x041c, 'M'), (0x041d, 'H'),
    (0x041e, 'O'), (0x0420, 'P'), (0x0421, 'C'), (0x0422, 'T'), (0x0425, 'X'),
    (0x03bf, 'o'), (0x03b1, 'a'), (0x03c1, 'p'), (0x03bd, 'v'), (0x039f, 'O'), (0x0391, 'A'),
    (0x03a1, 'P')]

/-- `translate(_CONFUSABLES)`, of one character -/
def translate (c : Char) : Char := (CONFUSABLE_POINTS.lookup c.toNat).getD c

/-- What `(?i)` makes of a character, among the letters that the expressions have. -/
def caseFold (c : Char) : Char :=
  if 'A' ≤ c ∧ c ≤ 'Z' then Char.ofNat (c.toNat + 32)
  else if 'А' ≤ c ∧ c ≤ 'Я' then Char.ofNat (c.toNat + 32)
  else if c = 'ſ' then 's'
  else if c = '\u212a' then 'k'
  else if c = '\u1c81' then 'д'
  else if c = '\u1c82' then 'о'
  else c

/-- `\s` -/
def isSpace (c : Char) : Bool := c = ' ' || c = '\t' || c = '\n' || c = '\u000c' || c = '\r'

/-- `[a-z]` -/
def isLower (c : Char) : Bool := 'a' ≤ c && c ≤ 'z'

/-- `[A-Z]` -/
def isUpper (c : Char) : Bool := 'A' ≤ c && c ≤ 'Z'

/-- `\w`, and what `\b` goes by -/
def isWord (c : Char) : Bool := isLower c || isUpper c || c.isDigit || c = '_'

/-- `[a-z0-9]` -/
def isLetterOrDigit (c : Char) : Bool := isLower c || c.isDigit

/-- `[a-f0-9]` -/
def isHex (c : Char) : Bool := 'a' ≤ c && c ≤ 'f' || c.isDigit

/-! ## Expressions -/

/-- A class under `(?i)`. -/
def ci (p : Char → Bool) : Rx := .one fun c => p (caseFold c)

/-- One of the characters, under `(?i)`. -/
def oneOf (s : String) : Rx := ci fun c => s.toList.contains c

/-- A text under `(?i)`. -/
def text (s : String) : Rx := seqs (s.toList.map fun x => ci fun c => c = x)

/-- One of several texts. -/
def texts (l : List String) : Rx := alts (l.map text)

def star (r : Rx) : Rx := .rep r 0 none

def plus (r : Rx) : Rx := .rep r 1 none

def opt (r : Rx) : Rx := .rep r 0 (some 1)

def times (r : Rx) (n : ℕ) : Rx := .rep r n (some n)

def between (r : Rx) (m n : ℕ) : Rx := .rep r m (some n)

def atLeast (r : Rx) (m : ℕ) : Rx := .rep r m none

/-- `\b` -/
def b : Rx := .boundary

/-- `\s` -/
def s : Rx := ci isSpace

/-- `\S` -/
def nonSpace : Rx := ci fun c => !isSpace c

/-- `\d` -/
def d : Rx := ci Char.isDigit

/-- `\D` -/
def nonDigit : Rx := ci fun c => !c.isDigit

/-- `\w` -/
def w : Rx := ci isWord

/-- `.`, and `[^\n]` -/
def inLine : Rx := ci fun c => c ≠ '\n'

/-- `.`, with the flag `s` -/
def anything : Rx := ci fun _ => true

/-- `[a-z0-9_]` -/
def handle : Rx := ci fun c => isLetterOrDigit c || c = '_'

/-- `[a-z0-9-]` -/
def label : Rx := ci fun c => isLetterOrDigit c || c = '-'

/-! ## Signals -/

/-- `Signal` -/
structure Signal where
  name : String
  weight : ℕ
  pattern : Rx

def STRONG : ℕ := 3

def MEDIUM : ℕ := 2

def WEAK : ℕ := 1

def ADJUDICATE_THRESHOLD : ℕ := 3

def deface_banner : Signal where
  name := "deface_banner"
  weight := STRONG
  pattern := alts
    [seqs [b, texts ["hacked", "h4cked", "0wned", "owned", "pwned", "pwn3d", "defaced", "rooted",
      "breached"], plus s, text "by", b],
    seqs [b, text "greet", oneOf "sz", b],
    seqs [b, text "mass", opt (ci fun c => isSpace c || c = '-'), text "deface", b],
    seqs [b, text "deface", opt (texts ["d", "ment"]), plus s, text "by", b],
    seqs [b, text "hacked", plus s, text "list", b]]

def onion_url : Signal where
  name := "onion_url"
  weight := STRONG
  pattern := seqs [b, between (ci fun c => isLower c || '2' ≤ c && c ≤ '7') 16 56, text ".onion", b]

def cred_combo : Signal where
  name := "cred_combo"
  weight := STRONG
  pattern := seqs [between (ci fun c => isWord c || ".+-".toList.contains c) 1 64, text "@",
    between (ci fun c => isWord c || c = '-') 1 63, text ".", between (ci isLower) 2 24, text ":",
    between nonSpace 3 64]

def compromise_confirmed : Signal where
  name := "compromise_confirmed"
  weight := STRONG
  pattern := alts
    [seqs [b, text "shell", plus s, text "uploaded", b],
    seqs [b, text "uploaded", plus s, opt (seqs [text "a", plus s]), text "shell", b],
    seqs [b, text "backdoor", plus s, texts ["installed", "deployed", "planted", "up"], b],
    seqs [b, text "got", plus s, texts ["root", "shell"], b],
    seqs [b, text "access", plus s, texts ["gained", "confirmed", "granted"], b],
    seqs [b, text "successfully", plus s, texts ["hacked", "breached", "compromised", "defaced",
      "pwned", "breaked"], b]]

def check_host : Signal where
  name := "check_host"
  weight := STRONG
  pattern := seqs [b, text "check-host.net/check-report/", plus w]

def ddos_command : Signal where
  name := "ddos_command"
  weight := STRONG
  pattern := seqs
    [.alt .lineStart s, text "/",
    texts ["attack", "flood", "ddos", "dstat", "stress", "hit", "scan"], plus s,
    alts [seqs [text "http", opt (text "s"), text "://"],
      seqs [between d 1 3, times (seqs [text ".", between d 1 3]) 3],
      seqs [plus label, text ".", atLeast (ci isLower) 2]],
    star nonSpace]

def crew_tag_cluster : Signal where
  name := "crew_tag_cluster"
  weight := MEDIUM
  pattern := seqs [text "#", between handle 2 30, b,
    between (ci fun c => isSpace c || ",·|".toList.contains c) 0 8, text "#",
    between handle 2 30, b]

def leak_label : Signal where
  name := "leak_label"
  weight := MEDIUM
  pattern := seqs [b, alts [text "database", seqs [text "base", plus s, text "de", plus s,
      text "datos"], seqs [text "db", opt s, text "dump"], text "dbs", seqs [text "full", opt s,
      text "dump"], text "leaked", seqs [text "data", opt s, text "breach"], text "breach",
      text "registros", seqs [text "combo", opt s, text "list"]], b]

def cloud_pass : Signal where
  name := "cloud_pass"
  weight := MEDIUM
  pattern := seqs [b, text "pass", star w, star s, oneOf "-:=", star s, texts ["@", "t.me/"],
    between handle 3 32, b]

/-- The pattern of `cred_label`, with the words for the name and for the password. -/
def credLabel (login password : Rx) : Rx :=
  seqs [b, login, b, star s, oneOf ":=", between inLine 0 60, b, password, b, star s, oneOf ":="]

def cred_label : Signal where
  name := "cred_label"
  weight := MEDIUM
  pattern := credLabel
    (alts [seqs [text "user", opt (text "name")], text "usuario", text "login", text "логин"])
    (alts [text "pw", seqs [text "pass", opt (text "word")], text "пароль", text "clave"])

def target_dump_file : Signal where
  name := "target_dump_file"
  weight := MEDIUM
  pattern := seqs [b, plus label, plus (seqs [text ".", plus label]), text ".",
    texts ["zip", "rar", "7z", "sql", "tar.gz"], b]

def leak_host : Signal where
  name := "leak_host"
  weight := MEDIUM
  pattern := seqs [b, alts [text "pastebin.com", seqs [text "ghostbin.", plus w],
      seqs [text "anonfiles.", plus w], text "mega.nz", text "gofile.io",
      seqs [text "privatebin.", plus w], seqs [text "dpaste.", plus w], text "transfer.sh",
      text "file.io", seqs [text "breachforums.", plus w], text "breached.su",
      seqs [text "darkforums.", plus w], seqs [text "leakbase.", plus w],
      seqs [text "nulled.", plus w], seqs [text "cracked.", plus w], text "exposed.vc",
      seqs [text "biteblob.", plus w]], b]

def hash_list : Signal where
  name := "hash_list"
  weight := MEDIUM
  pattern := seqs [b, between (ci isHex) 32 64, b,
    atLeast (seqs [plus (ci fun c => isSpace c || ",;|".toList.contains c),
      between (ci isHex) 32 64, b]) 2]

/-- The pattern of `sale_marker`, with the words for a sale. -/
def saleMarker (words : Rx) : Rx := alts
  [seqs [b, words, b], seqs [text "-", opt s, text "sold", opt s, text "-"],
    seqs [b, text "price", star s, oneOf ":="]]

def sale_marker : Signal where
  name := "sale_marker"
  weight := MEDIUM
  pattern := saleMarker (alts [text "wts", text "wtb", seqs [text "for", opt s, text "sale"],
    text "selling", text "sold", text "vendo", text "продам"])

def access_material : Signal where
  name := "access_material"
  weight := MEDIUM
  pattern := seqs [b, alts [text "webshell", seqs [text "web", opt s, text "shell"], text "rce",
      seqs [text "reverse", opt s, text "shell"], seqs [text "shell", opt s, text "access"],
      text "rdp", text "smtp", text "cpanel",
      seqs [texts ["root", "admin", "full"], opt s, text "access"], text "c99", text "r57",
      text "wso"], b]

/-- `stress?er` -/
def stresser : Rx := seqs [text "stres", opt (text "s"), text "er"]

/-- `for\s?sale` -/
def forSale : Rx := seqs [text "for", opt s, text "sale"]

/-- The cues of an offer, around `crypter`. -/
def offer : Rx := alts [seqs [text "sell", star w], forSale, text "fud", text "cracked",
  text "price", text "stock", text "promo", text "interested", seqs [text "offer", star w]]

def tool_sale : Signal where
  name := "tool_sale"
  weight := MEDIUM
  pattern := alts
    [text "booter", stresser, text "wormgpt", seqs [text "scam", opt s, text "page"],
    text "scampage", seqs [b, text "keylogger", b], seqs [b, text "botnet", b],
    seqs [b, text "otp", opt s, text "bot", b],
    seqs [b, text "stealer", opt s, texts ["builder", "source"], b],
    seqs [b, text "loader", opt s, text "builder", b],
    seqs [b, text "crypter", b, between inLine 0 40, b, alts [seqs [text "sell", star w], forSale,
      text "fud", text "cracked", text "price", text "rent", seqs [text "sub", star w],
      text "stock", text "promo", text "interested", seqs [text "offer", star w]], b],
    seqs [b, offer, b, between inLine 0 40, b, text "crypter", b],
    seqs [b, alts [seqs [text "dd", oneOf "o0", text "s"], text "dstat", text "l7", text "l4",
      seqs [text "layer", opt s, oneOf "47"]], b, between inLine 0 45, b,
      alts [text "script", text "setup", text "service", text "panel", text "method", text "rps",
        text "plan", text "subscription", forSale, text "selling", text "sell", text "buy",
        text "purchase", text "rent", text "cloudflare"], b],
    seqs [b, alts [forSale, text "selling", text "sell", text "buy", text "purchase",
      text "updated"], b, between inLine 0 45, b,
      alts [seqs [text "dd", oneOf "o0", text "s"], text "l7", text "l4"], b],
    seqs [b, alts [text "selling", forSale, text "jual", text "rent", text "buy"], b,
      between inLine 0 45, b, texts ["script", "software", "tool", "method", "checker", "scanner",
        "builder", "source", "course", "config"], b],
    seqs [b, text "service", opt s, text "drop", b], seqs [b, text "cnc", opt s, text "panel", b],
    seqs [b, text "wallet", opt s, text "scanner", b],
    seqs [b, text "account", opt s, text "recovery", b],
    seqs [b, text "build", opt s, text "your", opt s, text "own", b, between inLine 0 30, b,
      alts [text "cnc", text "api", text "panel", text "setup", text "booter", stresser], b]]

def telecom_abuse : Signal where
  name := "telecom_abuse"
  weight := MEDIUM
  pattern := alts
    [seqs [b, alts [text "cid", seqs [text "caller", opt (ci fun c => isSpace c || c = '-'),
      text "id"]], opt s, text "spoof", star w],
    seqs [b, text "spoof", opt (texts ["ed", "ing"]), b, between inLine 0 20, b,
      texts ["call", "caller", "cid", "number"], b],
    seqs [b, text "unlimited", plus s, text "spoofing", b],
    seqs [b, text "spoofing", plus s, text "power", b],
    seqs [b, texts ["voip", "sip"], b, between inLine 0 20, b, texts ["trunk", "setup", "route",
      "provider", "gateway", "panel", "dialer", "dial", "access"], star w],
    seqs [b, text "bulk", opt s, text "sms", b],
    seqs [b, text "sms", opt s, alts [text "sender", text "blast", text "route", text "gateway",
      text "marketing", seqs [text "deliver", star w], text "spam"], b],
    seqs [b, text "mass", opt s, texts ["sms", "text"], b],
    seqs [b, text "sender", opt s, text "id", b],
    seqs [b, text "sendgrid", b], seqs [b, text "web", opt s, text "mailer", b],
    seqs [b, text "mass", opt s, text "mail", star w],
    seqs [b, text "smtp", opt s, texts ["sender", "blast", "cracked", "combo", "inbox", "spam"], b]]

/-- `https?://\S+` -/
def url : Rx := seqs [text "http", opt (text "s"), text "://", plus nonSpace]

def multi_target : Signal where
  name := "multi_target"
  weight := MEDIUM
  pattern := .alt (seqs [times (seqs [url, plus s]) 2, url])
    (times (seqs [times (seqs [between d 1 3, text "."]) 3, between d 1 3, star nonDigit]) 3)

def stealer_logs : Signal where
  name := "stealer_logs"
  weight := MEDIUM
  pattern := alts
    [seqs [b, alts [text "stealer", text "redline", text "lumma", text "raccoon", text "vidar",
      text "risepro", text "stealc", seqs [text "meta", opt s, text "stealer"]], b],
    seqs [b, text "l0g", oneOf "s$"],
    seqs [b, text "fresh", opt s, alts [seqs [text "log", opt (text "s")], text "material",
      seqs [text "cloud", opt (text "s")]], b],
    seqs [b, text "cloud", opt s, text "log", opt (text "s"), b], seqs [b, text "uhq", b],
    seqs [b, text "u", opt (text "."), text "l", opt (text "."), text "p", b],
    seqs [b, d, star (ci fun c => c.isDigit || c = '.' || c = ','), opt s, text "lines", b],
    seqs [b, text "log", opt (text "s"), b, between anything 0 30, b, d,
      star (ci fun c => c.isDigit || c = ','), star s, texts ["pcs", "pieces", "pzs"], b],
    seqs [b, text "url", plus (ci fun c => c = ':' || isSpace c || c = '|'),
      texts ["log", "user", "mail"], plus (ci fun c => c = ':' || isSpace c || c = '|'),
      text "pass", b]]

def pii_schema : Signal where
  name := "pii_schema"
  weight := MEDIUM
  pattern := atLeast (seqs [b, texts ["firstname", "lastname", "middlename", "passport",
    "passexpiry", "nationality", "dob", "emailaddress", "primary_phone", "second_phone", "zip_code",
    "marital", "jobtitle", "national_id", "ssn", "cardnumber", "cvv"], b,
    plus (ci fun c => isSpace c || c = ',' || c = '|')]) 3

def session_id : Signal where
  name := "session_id"
  weight := MEDIUM
  pattern := seqs [b, text "05", times (ci isHex) 64, b]

def institutional_target : Signal where
  name := "institutional_target"
  weight := MEDIUM
  pattern := seqs [b, plus (ci fun c => isLetterOrDigit c || c = '.' || c = '-'), text ".",
    .alt (texts ["gov", "mil", "int", "edu"])
      (seqs [texts ["gov", "gob", "gouv", "go", "mil", "ac", "edu"], text ".",
        times (ci isLower) 2]), b]

def cve : Signal where
  name := "cve"
  weight := WEAK
  pattern := seqs [b, text "cve-", times d 4, text "-", between d 4 7, b]

/-- The pattern has no `(?i)`. -/
def btc_addr : Signal where
  name := "btc_addr"
  weight := WEAK
  pattern := seqs [b, alts
    [seqs [.one (· = 'b'), .one (· = 'c'), .one (· = '1'), between (.one isLetterOrDigit) 25 59],
    seqs [.one fun c => c = '1' || c = '3', between (.one fun c => 'a' ≤ c && c ≤ 'k' ||
      'm' ≤ c && c ≤ 'z' || 'A' ≤ c && c ≤ 'H' || 'J' ≤ c && c ≤ 'N' || 'P' ≤ c && c ≤ 'Z' ||
      '1' ≤ c && c ≤ '9') 25 34]], b]

def eth_addr : Signal where
  name := "eth_addr"
  weight := WEAK
  pattern := seqs [b, text "0x", times (ci isHex) 40, b]

/-- `25[0-5]|2[0-4]\d|1?\d?\d` -/
def octet : Rx :=
  let digit := Rx.one Char.isDigit
  alts [seqs [.one (· = '2'), .one (· = '5'), .one fun c => '0' ≤ c && c ≤ '5'],
    seqs [.one (· = '2'), .one fun c => '0' ≤ c && c ≤ '4', digit],
    seqs [opt (.one (· = '1')), opt digit, digit]]

/-- The pattern has no `(?i)`. -/
def ipv4 : Signal where
  name := "ipv4"
  weight := WEAK
  pattern := seqs [b, times (seqs [octet, .one (· = '.')]) 3, octet, b]

def tg_target : Signal where
  name := "tg_target"
  weight := WEAK
  pattern := seqs [.alt (seqs [b, text "t.me/"]) (text "@"), between handle 4 32, b]

def record_count : Signal where
  name := "record_count"
  weight := WEAK
  pattern := seqs [b, d, star (ci fun c => c.isDigit || c = '.' || c = ','), opt s,
    alts [text "kk", text "k", text "m", text "mil", seqs [text "mil", opt (text "l"), text "ion"],
      text "millones", text "млн", text "records", text "rows", text "lines", text "entries"], b]

def dm_contact : Signal where
  name := "dm_contact"
  weight := WEAK
  pattern := seqs [b, text "dm", plus s, opt (text "@"), between handle 3 32, b]

/-- `SIGNALS` -/
def SIGNALS : List Signal :=
  [deface_banner, onion_url, cred_combo, compromise_confirmed, check_host, ddos_command,
    crew_tag_cluster, leak_label, cloud_pass, cred_label, target_dump_file, leak_host, hash_list,
    sale_marker, access_material, tool_sale, telecom_abuse, multi_target, stealer_logs, pii_schema,
    session_id, institutional_target, cve, btc_addr, eth_addr, ipv4, tg_target, record_count,
    dm_contact]

/-! ## The scan -/

/-- `PrefilterResult` -/
structure PrefilterResult where
  signals : List String
  score : ℕ
  adjudicate : Bool
  deriving DecidableEq

section Scan

variable (normalize : String → String)

/-- The text that is searched. -/
def normalized (text : String) : List Char := (normalize text).toList.map translate

/-- `scan`, for any signals. -/
def scanFor (signals : List Signal) (text : String) : PrefilterResult :=
  let fired := signals.filter fun sig => search isWord sig.pattern (normalized normalize text)
  let score := (fired.map Signal.weight).sum
  { signals := fired.map Signal.name, score, adjudicate := ADJUDICATE_THRESHOLD ≤ score }

/-- `scan` -/
def scan (text : String) : PrefilterResult := scanFor normalize SIGNALS text

end Scan

/-! ## Lines around -/

variable {normalize : String → String}

theorem isWord_newline : isWord '\n' = false := by decide

theorem translate_newline : translate '\n' = '\n' := by decide

/-- A block of lines of a message is a block of lines of what is searched. -/
theorem normalized_lines (hN : ModelText.Nfc normalize) {pre text post : String}
    (h : Lines pre.toList post.toList) : ∃ before after, Lines before after ∧
      normalized normalize (pre ++ text ++ post) =
        before ++ normalized normalize text ++ after := by
  have hnewline : '\n' ∈ ['\n', ' ', '&', ';'] := List.mem_cons_self
  have hpost : ∃ after : List Char, after.head?.all (· = '\n') = true ∧
      ∀ t, normalized normalize (t ++ post) = normalized normalize t ++ after := by
    cases hp : post.toList with
    | nil =>
      obtain rfl : post = "" := String.toList_eq_nil_iff.mp hp
      exact ⟨[], rfl, fun t => by rw [String.append_empty, List.append_nil]⟩
    | cons x rest =>
      have hx := h.post
      rw [hp] at hx
      obtain rfl : x = '\n' := of_decide_eq_true hx
      refine ⟨'\n' :: normalized normalize (String.ofList rest), rfl, fun t => ?_⟩
      have hsplit : t ++ post = t ++ String.singleton '\n' ++ String.ofList rest := by
        apply String.toList_injective
        simp only [String.toList_append, String.toList_singleton, String.toList_ofList, hp,
          List.append_assoc, List.singleton_append]
      rw [normalized, hsplit, hN.boundary _ hnewline]
      simp only [normalized, String.toList_append, String.toList_singleton, List.map_append,
        List.map_cons, translate_newline, List.append_assoc, List.singleton_append]
  have hpre : ∃ before : List Char, before.getLast?.all (· = '\n') = true ∧
      ∀ t, normalized normalize (pre ++ t) = before ++ normalized normalize t := by
    rcases List.eq_nil_or_concat pre.toList with hp | ⟨rest, x, hp⟩
    · obtain rfl : pre = "" := String.toList_eq_nil_iff.mp hp
      exact ⟨[], rfl, fun t => by rw [String.empty_append, List.nil_append]⟩
    · have hx := h.pre
      rw [hp, List.concat_eq_append, List.getLast?_concat] at hx
      obtain rfl : x = '\n' := of_decide_eq_true hx
      refine ⟨normalized normalize (String.ofList rest) ++ ['\n'], ?_, fun t => ?_⟩
      · rw [List.getLast?_concat]
        rfl
      · have hsplit : pre ++ t = String.ofList rest ++ String.singleton '\n' ++ t := by
          apply String.toList_injective
          simp only [String.toList_append, String.toList_singleton, String.toList_ofList, hp,
            List.concat_eq_append, List.append_assoc, List.singleton_append]
        rw [normalized, hsplit, hN.boundary _ hnewline]
        simp only [normalized, String.toList_append, String.toList_singleton, List.map_append,
          List.map_cons, List.map_nil, translate_newline, List.append_assoc]
  obtain ⟨after, hafter, hpost⟩ := hpost
  obtain ⟨before, hbefore, hpre⟩ := hpre
  refine ⟨before, after, ⟨hbefore, hafter⟩, ?_⟩
  rw [hpost, hpre]

/-- Whatever stands in the lines before and after a text, the signals of the text fire. -/
theorem scan_lines (hN : ModelText.Nfc normalize) {pre text post : String}
    (h : Lines pre.toList post.toList) :
    (scan normalize text).signals.Sublist (scan normalize (pre ++ text ++ post)).signals ∧
      (scan normalize text).score ≤ (scan normalize (pre ++ text ++ post)).score ∧
      ((scan normalize text).adjudicate = true →
        (scan normalize (pre ++ text ++ post)).adjudicate = true) := by
  obtain ⟨before, after, hlines, htext⟩ : ∃ before after, Lines before after ∧
      normalized normalize (pre ++ text ++ post) =
        before ++ normalized normalize text ++ after := normalized_lines hN h
  have hfired : (SIGNALS.filter fun sig => search isWord sig.pattern
      (normalized normalize text)).Sublist (SIGNALS.filter fun sig => search isWord sig.pattern
        (normalized normalize (pre ++ text ++ post))) := by
    refine List.monotone_filter_right _ fun sig hsig => ?_
    rw [htext, search_iff]
    exact (search_iff.mp hsig).widen hlines isWord_newline
  have hscore : (scan normalize text).score ≤ (scan normalize (pre ++ text ++ post)).score :=
    (hfired.map Signal.weight).sum_le_sum fun _ _ => Nat.zero_le _
  refine ⟨hfired.map Signal.name, hscore, fun hadjudicate => decide_eq_true ?_⟩
  exact (of_decide_eq_true hadjudicate).trans hscore

theorem scan_lines_report : (scan id "HACKED BY x").signals.Sublist
    (scan id ("hello\n" ++ "HACKED BY x" ++ "\nbye")).signals ∧
      (scan id "HACKED BY x").score ≤ (scan id ("hello\n" ++ "HACKED BY x" ++ "\nbye")).score ∧
      ((scan id "HACKED BY x").adjudicate = true →
        (scan id ("hello\n" ++ "HACKED BY x" ++ "\nbye")).adjudicate = true) :=
  scan_lines MetadataFloor.nfc_id ⟨by decide, by decide⟩

/-! ## Words that are in no text -/

/-- `cred_label` without the Russian words. -/
def latin_cred_label : Signal where
  name := "cred_label"
  weight := MEDIUM
  pattern := credLabel (alts [seqs [text "user", opt (text "name")], text "usuario", text "login"])
    (alts [text "pw", seqs [text "pass", opt (text "word")], text "clave"])

/-- `sale_marker` without the Russian word. -/
def latin_sale_marker : Signal where
  name := "sale_marker"
  weight := MEDIUM
  pattern := saleMarker (alts [text "wts", text "wtb", seqs [text "for", opt s, text "sale"],
    text "selling", text "sold", text "vendo"])

/-- The signals without `логин`, `пароль` and `продам`. -/
def LATIN_SIGNALS : List Signal :=
  [deface_banner, onion_url, cred_combo, compromise_confirmed, check_host, ddos_command,
    crew_tag_cluster, leak_label, cloud_pass, latin_cred_label, target_dump_file, leak_host,
    hash_list, latin_sale_marker, access_material, tool_sale, telecom_abuse, multi_target,
    stealer_logs, pii_schema, session_id, institutional_target, cve, btc_addr, eth_addr, ipv4,
    tg_target, record_count, dm_contact]

/-- A character that stays itself when look-alikes become Latin letters. -/
def Plain (c : Char) : Prop := CONFUSABLE_POINTS.lookup c.toNat = none

instance : DecidablePred Plain := fun _ => inferInstanceAs (Decidable (_ = _))

theorem translate_plain (c : Char) : Plain (translate c) := by
  rw [Plain, translate]
  cases h : CONFUSABLE_POINTS.lookup c.toNat with
  | none => exact h
  | some latin =>
    have hmem := (Dict.mem_iff_lookup (by decide)).mpr h
    have hall : CONFUSABLE_POINTS.all fun e => (CONFUSABLE_POINTS.lookup e.2.toNat).isNone := by
      decide
    exact Option.isNone_iff_eq_none.mp (List.all_eq_true.mp hall _ hmem)

theorem le_iff_toNat {c x : Char} : c ≤ x ↔ c.toNat ≤ x.toNat := Iff.rfl

theorem toNat_lower {c : Char} {n : ℕ} (hn : n ≤ 0x042f) (hc : c.toNat ≤ n) :
    (Char.ofNat (c.toNat + 32)).toNat = c.toNat + 32 := by
  rw [Char.toNat_ofNat, if_pos]
  exact .inl (by omega)

theorem toNat_of_isWord {c : Char} (h : isWord c = true) : c.toNat < 128 := by
  simp only [isWord, isLower, isUpper, Char.isDigit, Bool.or_eq_true, Bool.and_eq_true,
    decide_eq_true_eq, le_iff_toNat, UInt32.le_iff_toNat_le] at h
  rcases h with ((h | h) | h) | rfl
  · exact h.2.trans_lt (by decide)
  · exact h.2.trans_lt (by decide)
  · exact h.2.trans_lt (by decide)
  · decide

/-- Characters of a word stay so. -/
theorem isWord_caseFold {c : Char} (h : isWord c = true) : isWord (caseFold c) = true := by
  have hc := toNat_of_isWord h
  unfold caseFold
  split_ifs with h₁ h₂
  · have hA : 65 ≤ c.toNat := le_iff_toNat.mp h₁.1
    have hZ : c.toNat ≤ 90 := le_iff_toNat.mp h₁.2
    have hlower := toNat_lower (by decide) hZ
    have hlow : isLower (Char.ofNat (c.toNat + 32)) = true := by
      rw [isLower, Bool.and_eq_true, decide_eq_true_eq, decide_eq_true_eq, le_iff_toNat,
        le_iff_toNat, hlower]
      exact ⟨Nat.add_le_add_right hA 32, Nat.add_le_add_right hZ 32⟩
    rw [isWord, hlow]
    rfl
  · exact absurd (le_iff_toNat.mp h₂.1) (Nat.not_le_of_lt (hc.trans (by decide)))
  · rfl
  · rfl
  · subst_vars
    exact absurd hc (by decide)
  · subst_vars
    exact absurd hc (by decide)
  · exact h

theorem eq_of_caseFold_er {c : Char} (h : caseFold c = 'р') : c = 'р' ∨ c = 'Р' := by
  unfold caseFold at h
  split_ifs at h with h₁ h₂
  · have hZ : c.toNat ≤ 90 := le_iff_toNat.mp h₁.2
    have htoNat := congrArg Char.toNat h
    rw [toNat_lower (by decide) hZ] at htoNat
    have : ('р').toNat = 1088 := rfl
    omega
  · have hYa : c.toNat ≤ 0x042f := le_iff_toNat.mp h₂.2
    have htoNat := congrArg Char.toNat h
    rw [toNat_lower (by decide) hYa] at htoNat
    refine .inr (Char.toNat_inj.mp ?_)
    have : ('р').toNat = 1088 := rfl
    have : ('Р').toNat = 1056 := rfl
    omega
  · exact absurd h (by decide)
  · exact absurd h (by decide)
  · exact absurd h (by decide)
  · exact absurd h (by decide)
  · exact .inl h

/-- A text ends in its last letter. -/
theorem head_of_text {l : List Char} {x : Char} {c d : Place}
    (h : Matches isWord (seqs ((l ++ [x]).map fun x => ci fun c => c = x)) c d) :
    ∃ y, d.before.head? = some y ∧ caseFold y = x := by
  induction l generalizing c with
  | nil =>
    obtain ⟨e, ⟨y, hy, -, hbefore⟩, hd⟩ := h
    obtain rfl : d = e := hd
    exact ⟨y, by rw [hbefore]; rfl, of_decide_eq_true hy⟩
  | cons z l ih =>
    obtain ⟨e, -, hd⟩ := h
    exact ih hd

theorem isWord_eq_false {p : Char → Bool} (hp : ∀ c, p c = true → isWord c = false) {c : Char}
    (h : p (caseFold c) = true) : isWord c = false := by
  cases hc : isWord c with
  | false => rfl
  | true => exact absurd (isWord_caseFold hc) (by rw [hp _ h]; exact Bool.false_ne_true)

/-- Behind a boundary, a sign after blanks stands right behind a word. -/
theorem isWord_of_sign {c d : Place} {rest : List Rx}
    (h : Matches isWord (seqs (b :: star s :: oneOf ":=" :: rest)) c d) :
    c.before.head?.any isWord = true := by
  obtain ⟨c', ⟨hat, hc'⟩, e, ⟨n, -, -, hiter⟩, f, ⟨x, hx, hrest, -⟩, -⟩ := h
  rw [hc'] at hiter
  have hhead : ∃ y, c.rest.head? = some y ∧ isWord y = false := by
    cases n with
    | zero =>
      have he : e = c := hiter
      refine ⟨x, by rw [← he, hrest]; rfl, isWord_eq_false (fun z hz => ?_) hx⟩
      rcases List.mem_pair.mp (List.contains_iff_mem.mp hz) with rfl | rfl <;> rfl
    | succ n =>
      obtain ⟨g, ⟨y, hy, hrest', -⟩, -⟩ := hiter
      refine ⟨y, by rw [hrest']; rfl, isWord_eq_false (fun z hz => ?_) hy⟩
      simp only [isSpace, Bool.or_eq_true, decide_eq_true_eq] at hz
      rcases hz with (((rfl | rfl) | rfl) | rfl) | rfl <;> rfl
  obtain ⟨y, hy, hword⟩ := hhead
  rw [atBoundary, hy, Option.any_some, hword] at hat
  simpa using hat

/-- A word that ends outside of ASCII does not end behind a character of a word. -/
theorem not_matches_text {l : List Char} {x : Char} (hx : isWord x = false) {c d : Place}
    (hd : d.before.head?.any isWord = true) :
    ¬Matches isWord (seqs ((l ++ [x]).map fun x => ci fun c => c = x)) c d := by
  intro h
  obtain ⟨y, hy, hfold⟩ := head_of_text h
  rw [hy, Option.any_some] at hd
  have hword := isWord_caseFold hd
  rw [hfold, hx] at hword
  cases hword

/-- What does not end behind a character of a word has no part in the pattern. -/
theorem credLabel_iff {login login' password password' : Rx}
    (hlogin : ∀ c d, d.before.head?.any isWord = true →
      (Matches isWord login c d ↔ Matches isWord login' c d))
    (hpassword : ∀ c d, d.before.head?.any isWord = true →
      (Matches isWord password c d ↔ Matches isWord password' c d)) (c d : Place) :
    Matches isWord (credLabel login password) c d ↔
      Matches isWord (credLabel login' password') c d := by
  have hafter : ∀ e, Matches isWord (seqs [b, password, b, star s, oneOf ":="]) e d ↔
      Matches isWord (seqs [b, password', b, star s, oneOf ":="]) e d := fun e =>
    exists_congr fun _ => and_congr_right fun _ => exists_congr fun f =>
      and_congr_left fun hsign => hpassword _ f (isWord_of_sign hsign)
  have hbefore : ∀ e, Matches isWord (seqs [b, star s, oneOf ":=", between inLine 0 60, b, password,
      b, star s, oneOf ":="]) e d ↔ Matches isWord (seqs [b, star s, oneOf ":=",
        between inLine 0 60, b, password', b, star s, oneOf ":="]) e d := fun e =>
    exists_congr fun _ => and_congr_right fun _ => exists_congr fun _ => and_congr_right fun _ =>
      exists_congr fun _ => and_congr_right fun _ => exists_congr fun f => and_congr_right fun _ =>
        hafter f
  refine exists_congr fun _ => and_congr_right fun _ => exists_congr fun e => ?_
  rw [hbefore]
  exact and_congr_left fun hsign => hlogin _ e (isWord_of_sign hsign)

theorem cred_label_agrees (c d : Place) :
    Matches isWord cred_label.pattern c d ↔ Matches isWord latin_cred_label.pattern c d := by
  refine credLabel_iff (fun c d hd => ?_) (fun c d hd => ?_) c d
  · have hword : ¬Matches isWord (text "логин") c d :=
      not_matches_text (l := ['л', 'о', 'г', 'и']) (x := 'н') (by decide) hd
    change _ ∨ _ ∨ _ ∨ _ ∨ _ ↔ _ ∨ _ ∨ _ ∨ _
    rw [or_iff_right (a := Matches isWord (text "логин") c d) hword]
  · have hword : ¬Matches isWord (text "пароль") c d :=
      not_matches_text (l := ['п', 'а', 'р', 'о', 'л']) (x := 'ь') (by decide) hd
    change _ ∨ _ ∨ _ ∨ _ ∨ _ ↔ _ ∨ _ ∨ _ ∨ _
    rw [or_iff_right (a := Matches isWord (text "пароль") c d) hword]

/-- Look-alikes are no longer in the text. -/
theorem not_matches_prodam {c d : Place} (hc : Over Plain c) :
    ¬Matches isWord (text "продам") c d := by
  rintro ⟨e, ⟨x, -, hrest, -⟩, f, ⟨y, hy, hrest', -⟩, -⟩
  have hplain : Plain y := hc.2 y (by rw [hrest, hrest']; exact .tail _ (.head _))
  rcases eq_of_caseFold_er (of_decide_eq_true hy) with rfl | rfl
  · exact absurd hplain (by decide)
  · exact absurd hplain (by decide)

theorem sale_marker_agrees : Agrees isWord Plain sale_marker.pattern latin_sale_marker.pattern := by
  refine .alt (fun c d hc => ?_) (.refl _)
  refine exists_congr fun e => and_congr_right fun he => exists_congr fun f =>
    and_congr_left fun _ => ?_
  have hword := not_matches_prodam (d := f) (hc.of_matches he)
  change _ ∨ _ ∨ _ ∨ _ ∨ _ ∨ _ ∨ _ ∨ _ ↔ _ ∨ _ ∨ _ ∨ _ ∨ _ ∨ _ ∨ _
  rw [or_iff_right (a := Matches isWord (text "продам") e f) hword]

theorem plain_normalized (message : String) : ∀ x ∈ normalized normalize message, Plain x := by
  intro x hx
  obtain ⟨y, -, rfl⟩ := List.mem_map.mp hx
  exact translate_plain y

/-- Two signals of one name and weight that fire together. -/
structure SameIn (searched : List Char) (sig sig' : Signal) : Prop where
  name : sig.name = sig'.name
  weight : sig.weight = sig'.weight
  fires : search isWord sig.pattern searched = search isWord sig'.pattern searched

theorem SameIn.refl (searched : List Char) (sig : Signal) : SameIn searched sig sig :=
  ⟨rfl, rfl, rfl⟩

theorem filter_same {searched : List Char} {signals signals' : List Signal}
    (h : List.Forall₂ (SameIn searched) signals signals') {α : Type} (f : Signal → α)
    (hf : ∀ {sig sig'}, SameIn searched sig sig' → f sig = f sig') :
    (signals.filter fun sig => search isWord sig.pattern searched).map f =
      (signals'.filter fun sig => search isWord sig.pattern searched).map f := by
  induction h with
  | nil => rfl
  | cons hsame _ ih =>
    rw [List.filter_cons, List.filter_cons, ← hsame.fires]
    split_ifs
    · rw [List.map_cons, List.map_cons, hf hsame, ih]
    · exact ih

theorem same_latin (message : String) :
    List.Forall₂ (SameIn (normalized normalize message)) SIGNALS LATIN_SIGNALS := by
  have hcred : SameIn (normalized normalize message) cred_label latin_cred_label := by
    refine ⟨rfl, rfl, ?_⟩
    rw [Bool.eq_iff_iff, search_iff, search_iff]
    exact exists_congr fun c => exists_congr fun d => and_congr_right fun _ => cred_label_agrees c d
  have hsale : SameIn (normalized normalize message) sale_marker latin_sale_marker := by
    refine ⟨rfl, rfl, ?_⟩
    rw [Bool.eq_iff_iff, search_iff, search_iff]
    exact sale_marker_agrees.found_iff (plain_normalized message)
  have hrest := SameIn.refl (normalized normalize message)
  have happend : SIGNALS = SIGNALS.take 9 ++ cred_label :: ((SIGNALS.drop 10).take 3 ++
      sale_marker :: SIGNALS.drop 14) := rfl
  have happend' : LATIN_SIGNALS = SIGNALS.take 9 ++ latin_cred_label :: ((SIGNALS.drop 10).take 3 ++
      latin_sale_marker :: SIGNALS.drop 14) := rfl
  rw [happend, happend']
  exact List.rel_append (List.forall₂_same.mpr fun sig _ => hrest sig)
    (.cons hcred (List.rel_append (List.forall₂_same.mpr fun sig _ => hrest sig)
      (.cons hsale (List.forall₂_same.mpr fun sig _ => hrest sig))))

/-- Three of the Russian words change nothing: look-alikes are replaced before the search, and
`\b` is at no end of a Russian word. -/
theorem scan_latin (message : String) :
    scan normalize message = scanFor normalize LATIN_SIGNALS message := by
  have hsame : List.Forall₂ (SameIn (normalized normalize message)) SIGNALS LATIN_SIGNALS :=
    same_latin message
  rw [scan, scanFor, scanFor, filter_same hsame Signal.name SameIn.name,
    filter_same hsame Signal.weight SameIn.weight]

end Prefilter

end Eyenet
