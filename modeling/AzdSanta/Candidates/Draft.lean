import AzdSanta.Candidates.Canonical
import AzdSanta.PowerShell.Comparison

/-! `New-SantaRuleCandidate`: one draft rule from an array of events. -/
namespace Candidates
open Python PowerShell Checks

/-- A literal of the script. -/
def name (s : String) : List ℕ := utf16 (text s)

/-- `\A[0-9a-f]{64}\z`. -/
def isSha256 (s : List ℕ) : Bool := s.length = 64 && s.all fun c => isDigit c || (97 ≤ c && c ≤ 102)

/-- `$table.key` of a table that `ConvertFrom-Json -AsHashtable` returns. -/
def property (key : String) : Element → Option Element
  | .object _ members => (members.find? fun m => unescape m.1 = name key).map Prod.snd
  | _ => none

/-- A property that is a string. -/
def stringProperty (key : String) (e : Element) : Option (List ℕ) :=
  (property key e).bind fun
    | .string raw => some (unescape raw)
    | _ => none

/-- The members of an event that the script reads. -/
structure Event where
  eventId : List ℕ
  observedAt : List ℕ
  decision : List ℕ
  /-- `binary.sha256`. -/
  binary : List ℕ
  /-- `device.pseudonymousId`. -/
  device : List ℕ
  /-- `rawEvidence.sha256`. -/
  rawEvidence : List ℕ
  deriving DecidableEq

/-- `$normalizedEvent`; the schema asks for all of these members. -/
def normalizedEvent (e : Element) : Option Event := do
  let binary ← property "binary" e
  let device ← property "device" e
  let rawEvidence ← property "rawEvidence" e
  return ⟨← stringProperty "eventId" e, ← stringProperty "observedAt" e, ← stringProperty "decision" e,
    ← stringProperty "sha256" binary, ← stringProperty "pseudonymousId" device, ← stringProperty "sha256" rawEvidence⟩

/-- What the script uses of PowerShell and .NET. -/
structure Shell where
  comparison : Comparison
  /-- `Test-Json` against `event.schema.json`. -/
  schema : Element → Bool
  /-- Validation reads the value, not how it is written. -/
  schema_same : ∀ a b, Same a b → schema a = schema b
  /-- `[datetimeoffset]::Parse`, in ticks; `none` is an exception. -/
  parseTime : List ℕ → Option ℤ
  /-- `UtcDateTime.ToString('o')`. -/
  formatTime : ℤ → List ℕ
  /-- SHA-256 in lowercase hexadecimal. -/
  digest : Bytes → Text
  digest_hex : ∀ raw, isSha256 (digest raw) = true

inductive Refusal where
  /-- `ReviewExpiresAt must be after EvaluationTime and within 30 days.` -/
  | window
  /-- `Input exceeds the 1 MiB limit.` -/
  | size
  /-- An exception of `CandidateJson.Canonical`. -/
  | canonical (failure : Failure)
  /-- `Input must be a JSON array of 1 to 256 events.` -/
  | notEvents
  /-- `Event does not satisfy event.schema.json.` -/
  | schema
  /-- `Event SHA-256 values must be exactly 64 lowercase hexadecimal characters.` -/
  | hashes
  /-- An exception of `[datetimeoffset]::Parse`. -/
  | time
  /-- `Event timestamp is after EvaluationTime.` -/
  | future
  /-- `Duplicate event ID has different content.` -/
  | conflict
  /-- `Events must select exactly one binary SHA-256.` -/
  | mixed
  deriving DecidableEq

/-- An entry of `$events`, which is stored under its event id. -/
structure Item where
  event : Event
  observed : ℤ
  fingerprint : Text
  deriving DecidableEq

/-- `CandidateJson.Canonical`, with its exceptions as refusals. -/
def canonicalBytes (e : Element) : Except Refusal Bytes := (canonical e).mapError .canonical

/-- The checks on one event. -/
def inspect (s : Shell) (evaluationTime : ℤ) (e : Element) : Except Refusal Item :=
  if s.schema e then
    match normalizedEvent e with
    | none => throw .schema
    | some event =>
      if isSha256 event.binary ∧ isSha256 event.rawEvidence then
        match s.parseTime event.observedAt with
        | none => throw .time
        | some observed =>
          if evaluationTime < observed then throw .future
          else do
            let raw ← canonicalBytes e
            return ⟨event, observed, s.digest raw⟩
      else throw .hashes
  else throw .schema

/-- The duplicate check and the insertion into `$events`. -/
def add (s : Shell) (events : List Item) (item : Item) : Except Refusal (List Item) :=
  match events.find? fun old => old.event.eventId = item.event.eventId with
  | some old => if s.comparison.ceq old.fingerprint item.fingerprint then pure events else throw .conflict
  | none => pure (events ++ [item])

/-- One turn of the loop over the array. -/
def register (s : Shell) (evaluationTime : ℤ) (events : List Item) (e : Element) : Except Refusal (List Item) := do
  let item ← inspect s evaluationTime e
  add s events item

/-- A value that `Write-SantaJsonValue` can write. -/
inductive Value where
  | null
  | string (s : List ℕ)
  | long (n : ℕ)
  | array (items : List Value)
  | dictionary (members : List (List ℕ × Value))

mutual
/-- `Write-SantaJsonValue`. -/
def Value.write : Value → Text
  | .null => text "null"
  | .string s => quote s
  | .long n => decimal n
  | .array items => 91 :: (joined (writeItems items) ++ [93])
  | .dictionary members => 123 :: (joined (writeMembers members) ++ [125])

def writeItems : List Value → List Text
  | [] => []
  | v :: rest => v.write :: writeItems rest

def writeMembers : List (List ℕ × Value) → List Text
  | [] => []
  | (key, v) :: rest => (quote key ++ 58 :: v.write) :: writeMembers rest
end

/-- `ConvertTo-SantaJsonByteArray`. -/
def Value.bytes (v : Value) : Bytes := v.write.map UInt8.ofNat

/-- `Get-SantaDigest`; without a domain it is empty. -/
def Shell.getSantaDigest (s : Shell) (bytes : Bytes) (domain : Text) : Text :=
  s.digest (if domain = [] then bytes else utf8GetBytes (utf16 (domain ++ [10])) ++ bytes)

/-- What the second loop has collected. -/
structure Summary where
  /-- `$devices`, without repetition. -/
  devices : List (List ℕ)
  evidence : List Value
  binary : Option (List ℕ)
  first : ℤ
  last : ℤ

/-- `[datetimeoffset]::MaxValue` and `MinValue`, in ticks. -/
def maxValue : ℤ := 3155378975999999999

def Summary.start : Summary := ⟨[], [], none, maxValue, 0⟩

/-- One turn of the loop over the sorted ids. -/
def collect (s : Shell) (summary : Summary) (item : Item) : Except Refusal Summary :=
  if summary.binary.any fun binary => !s.comparison.ceq binary item.event.binary then throw .mixed
  else pure {
    devices := if item.event.device ∈ summary.devices then summary.devices
      else summary.devices ++ [item.event.device]
    evidence := summary.evidence ++ [.dictionary [(name "observedAt", .string (s.formatTime item.observed)),
      (name "decision", .string item.event.decision), (name "binarySha256", .string item.event.binary),
      (name "devicePseudonymousId", .string item.event.device),
      (name "rawEvidenceSha256", .string item.event.rawEvidence)]]
    binary := some item.event.binary
    first := if item.observed < summary.first then item.observed else summary.first
    last := if summary.last < item.observed then item.observed else summary.last }

inductive Policy where
  | allowlist
  | blocklist
  deriving DecidableEq

/-- The policy in upper case. -/
def Policy.upper : Policy → List ℕ
  | .allowlist => name "ALLOWLIST"
  | .blocklist => name "BLOCKLIST"

structure Parameters where
  policy : Policy
  evaluationTime : ℤ
  reviewExpiresAt : ℤ

/-- The candidate before its id is known. -/
def Shell.identity (s : Shell) (p : Parameters) (eventCount : ℕ) (summary : Summary) : List (List ℕ × Value) :=
  [(name "schemaVersion", .string (name "1.1")), (name "state", .string (name "draft")),
    (name "evaluationTime", .string (s.formatTime p.evaluationTime)),
    (name "reviewExpiresAt", .string (s.formatTime p.reviewExpiresAt)),
    (name "evidenceDigest", .string (s.getSantaDigest (Value.array summary.evidence).bytes (text "santa/evidence/1.1"))),
    (name "observation", .dictionary [(name "firstSeen", .string (s.formatTime summary.first)),
      (name "lastSeen", .string (s.formatTime summary.last)), (name "eventCount", .long eventCount),
      (name "deviceCount", .long summary.devices.length)]),
    (name "proposedRule", .dictionary [(name "ruleType", .string (name "BINARY")),
      (name "identifier", (summary.binary.map Value.string).getD .null), (name "policy", .string p.policy.upper),
      (name "scope", .string (name "global"))]),
    (name "counterfactual", .dictionary [(name "status", .string (name "not-performed")),
      (name "affectedBinaryCount", .null)]),
    (name "riskFlags", .array [.string (name "review-required"), .string (name "counterfactual-not-performed"),
      .string (name "raw-evidence-unverified"), .string (name "client-application-unproven")]),
    (name "generator", .dictionary [(name "name", .string (name "azd-santa")), (name "version", .string (name "0.1.0"))])]

/-- `$candidate` after the insertion of its id and the addition of the digest of both. -/
def Shell.draft (s : Shell) (p : Parameters) (eventCount : ℕ) (summary : Summary) : List (List ℕ × Value) :=
  let identity := s.identity p eventCount summary
  let candidateId := name "candidate-" ++
    s.getSantaDigest (Value.dictionary identity).bytes (text "santa/candidate/1.1")
  let candidate := identity.insertIdx 1 (name "candidateId", .string candidateId)
  candidate ++ [(name "outputDigest", .string (s.getSantaDigest (Value.dictionary candidate).bytes []))]

/-- The bytes of the output file. -/
def outputBytes (candidate : List (List ℕ × Value)) : Bytes := (Value.dictionary candidate).bytes

/-- The input file: its size in bytes and what it parses to. -/
structure Input where
  size : ℕ
  root : Element

/-- The array of events. -/
def events : Element → Except Refusal (List Element)
  | .array _ items => if 1 ≤ items.length ∧ items.length ≤ 256 then pure items else throw .notEvents
  | _ => throw .notEvents

/-- The second loop and the candidate it leads to. -/
def Shell.summarize (s : Shell) (p : Parameters) (registered : List Item) :
    Except Refusal (List (List ℕ × Value)) := do
  let sorted := registered.insertionSort fun a b => a.event.eventId ≤ b.event.eventId
  let summary ← sorted.foldlM (collect s) .start
  return s.draft p registered.length summary

/-- `New-SantaRuleCandidate`, up to the creation of the output file. -/
def newSantaRuleCandidate (s : Shell) (p : Parameters) (input : Input) : Except Refusal (List (List ℕ × Value)) := do
  if p.reviewExpiresAt ≤ p.evaluationTime ∨ 30 * 864000000000 < p.reviewExpiresAt - p.evaluationTime then
    throw .window
  if 1048576 < input.size then throw .size
  let _ ← canonicalBytes input.root
  let elements ← events input.root
  let registered ← elements.foldlM (register s p.evaluationTime) []
  s.summarize p registered

end Candidates
