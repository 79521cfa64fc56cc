import Mathlib
import Switchboard.Library.Dict
import Switchboard.Library.Except
import Switchboard.Library.Json
import Switchboard.Library.Text

/-!
# Exit tickets

`SubagentExitTicket` of `learning/reviewer_scars.py`: the compact text of a ticket, and what is
read back from it.
-/

namespace Switchboard.Learning.ExitTickets

open Switchboard.Text

inductive ExitStatus where
  | done
  | partially
  | blocked
  | fail
deriving DecidableEq, Repr

def ExitStatus.value : ExitStatus → String
  | .done => "DONE"
  | .partially => "PARTIAL"
  | .blocked => "BLOCKED"
  | .fail => "FAIL"

inductive VerificationLevel where
  | none
  | localOnly
  | tests
  | live
  | ci
  | device
deriving DecidableEq, Repr

def VerificationLevel.value : VerificationLevel → String
  | .none => "none"
  | .localOnly => "local"
  | .tests => "tests"
  | .live => "live"
  | .ci => "ci"
  | .device => "device"

structure SubagentExitTicket where
  status : ExitStatus
  implemented : Bool
  verification : VerificationLevel
  blocker : String := "-"
  cave : String := "-"
  learnCandidate : Bool := false
  evidence : List String := []
  nextAction : String := "-"
deriving DecidableEq, Repr

def maxFieldBytes : ℕ := 512

def maxEvidenceRefs : ℕ := 16

def maxExitTicketBytes : ℕ := 1024

/-! ## Secrets -/

/-- A letter of a pattern that ignores case; some letters have other forms than their capital. -/
def sameLetter (letter c : Char) : Bool :=
  c.toLower = letter || letter = 's' && c = 'ſ' || letter = 'k' && c = '\u212a' ||
    letter = 'i' && (c = 'ı' || c = 'İ')

/-- What is left of a text after a word. -/
def dropWord : List Char → List Char → Option (List Char)
  | [], text => some text
  | _ :: _, [] => none
  | letter :: word, c :: text => if sameLetter letter c then dropWord word text else none

/-- `[_-]?` -/
def dropSeparator : List Char → List Char
  | [] => []
  | c :: text => if c = '_' || c = '-' then text else c :: text

/-- `\s*[:=]` -/
def assigned (text : List Char) : Bool :=
  ((text.dropWhile isSpace).head?).any fun c => c = ':' || c = '='

/-- `[a-z0-9._-]` -/
def tokenChar (c : Char) : Bool :=
  c.isAlphanum || c = '.' || c = '_' || c = '-' || c = 'ſ' || c = '\u212a' || c = 'ı' || c = 'İ'

/-- `\s+[a-z0-9._-]{8,}` -/
def bearerToken (text : List Char) : Bool :=
  text.head?.any isSpace && 8 ≤ ((text.dropWhile isSpace).takeWhile tokenChar).length

/-- `_SECRET_PATTERN` at the start of a text. -/
def secretAt (text : List Char) : Bool :=
  ((dropWord "api".toList text).any fun rest =>
    (dropWord "key".toList (dropSeparator rest)).any assigned) ||
  (dropWord "password".toList text).any assigned ||
  (dropWord "authorization".toList text).any assigned ||
  (dropWord "bearer".toList text).any bearerToken ||
  ["access", "refresh", "auth"].any fun kind => (dropWord kind.toList text).any fun rest =>
    (dropWord "token".toList (dropSeparator rest)).any assigned

def hasSecret (value : String) : Bool := value.toList.tails.any secretAt

/-! ## Validation -/

def validateCompactText (value name : String) (maxBytes : ℕ) (allowPipe : Bool := false) :
    Except String Unit :=
  if value = "" then .error s!"{name} must be a non-empty string"
  else if value.utf8ByteSize > maxBytes then .error s!"{name} exceeds its byte bound"
  else if '\n' ∈ value.toList ∨ '\r' ∈ value.toList ∨ ('|' ∈ value.toList ∧ allowPipe = false) then
    .error s!"{name} must remain one compact unambiguous field"
  else if hasSecret value then .error s!"{name} appears to contain secret material"
  else .ok ()

def safeField (value name : String) : Except String String := do
  validateCompactText value name maxFieldBytes
  return value

def validateEvidenceItem (item : String) : Except String Unit := do
  validateCompactText item "evidence" 256
  if ',' ∈ item.toList then throw "evidence must not contain commas"

def validateEvidence (evidence : List String) : Except String Unit := do
  if evidence.length > maxEvidenceRefs then
    throw "too many reviewer scar evidence references"
  evidence.forM validateEvidenceItem

/-! ## The compact text -/

/-- `str(int(value))` -/
def bit (value : Bool) : String := if value then "1" else "0"

/-- The value of the field `ev`. -/
def evidenceText (evidence : List String) : String :=
  if evidence = [] then "-" else ",".intercalate evidence

/-- The fields of a ticket in their order. -/
def SubagentExitTicket.fields (ticket : SubagentExitTicket) : List (String × String) :=
  [("st", ticket.status.value), ("impl", bit ticket.implemented),
    ("verify", ticket.verification.value), ("blk", ticket.blocker), ("cave", ticket.cave),
    ("learn", bit ticket.learnCandidate), ("ev", evidenceText ticket.evidence),
    ("next", ticket.nextAction)]

def renderField (field : String × String) : String := field.1 ++ "=" ++ field.2

def SubagentExitTicket.compact (ticket : SubagentExitTicket) : Except String String := do
  let _ ← safeField ticket.blocker "blocker"
  let _ ← safeField ticket.cave "cave"
  let _ ← safeField ticket.nextAction "next_action"
  validateEvidence ticket.evidence
  let value := "|".intercalate ("X1" :: ticket.fields.map renderField)
  validateCompactText value "exit ticket" maxExitTicketBytes true
  return value

/-! ## What is read back -/

/-- `value.split(separator)` -/
def split (separator : Char) (value : String) : List String :=
  (value.toList.splitOn separator).map String.ofList

/-- `part.partition("=")`, if the separator is there. -/
def partition (part : String) : Option (String × String) :=
  if '=' ∈ part.toList then
    some (String.ofList (part.toList.takeWhile (· ≠ '=')),
      String.ofList ((part.toList.dropWhile (· ≠ '=')).drop 1))
  else none

/-- One round of the loop over the parts. -/
def addField (fields : Dict String String) (part : String) : Except String (Dict String String) :=
  match partition part with
  | none => .error "exit ticket contains malformed fields"
  | some field =>
    if field.1 = "" ∨ fields.contains field.1 then
      .error "exit ticket contains malformed fields"
    else .ok (fields.set field.1 field.2)

def required : List String := ["st", "impl", "verify", "blk", "cave", "learn", "ev", "next"]

def ExitStatus.ofValue (value : String) : Except String ExitStatus :=
  match [ExitStatus.done, .partially, .blocked, .fail].find? fun status =>
    status.value = value with
  | some status => .ok status
  | none => .error s!"{Json.reprString value} is not a valid ExitStatus"

def VerificationLevel.ofValue (value : String) : Except String VerificationLevel :=
  match [VerificationLevel.none, .localOnly, .tests, .live, .ci, .device].find? fun level =>
    level.value = value with
  | .some level => .ok level
  | .none => .error s!"{Json.reprString value} is not a valid VerificationLevel"

/-- The end of `parse`, for the fields that were found. -/
def ofFields (fields : Dict String String) : Except String SubagentExitTicket := do
  let field (key : String) : String := (fields.get? key).getD ""
  if ¬ (fields.keys ⊆ required ∧ required ⊆ fields.keys) then
    throw "exit ticket fields do not match the X1 contract"
  if ¬ (field "impl" ∈ ["0", "1"] ∧ field "learn" ∈ ["0", "1"]) then
    throw "exit ticket impl/learn fields must be 0 or 1"
  let evidence := if field "ev" = "-" then [] else split ',' (field "ev")
  validateEvidence evidence
  return {
    status := ← ExitStatus.ofValue (field "st")
    implemented := field "impl" = "1"
    verification := ← VerificationLevel.ofValue (field "verify")
    blocker := ← safeField (field "blk") "blocker"
    cave := ← safeField (field "cave") "cave"
    learnCandidate := field "learn" = "1"
    evidence := evidence
    nextAction := ← safeField (field "next") "next_action" }

def parse (value : String) : Except String SubagentExitTicket := do
  validateCompactText value "exit ticket" maxExitTicketBytes true
  let parts := split '|' value
  if parts.head? ≠ some "X1" then throw "exit ticket must start with X1"
  let fields ← parts.tail.foldlM addField .empty
  ofFields fields

end Switchboard.Learning.ExitTickets
