import Switchboard.Library.Dict
import Switchboard.Library.Text
import Mathlib.Data.Rat.Defs
import Mathlib.Tactic

/-!
# Memories

The memories of `learning/store.py`, a call being one transaction on the tables `memories` and
`memory_history`. Texts come redacted; readings of the clock are arguments. SQLite's `LIKE`,
`str.casefold` and SHA-256 are parameters.
-/

namespace Switchboard.Learning

/-- What `project_identity` gives: a path, which has no NUL in it. -/
structure ProjectKey where
  path : String
  noNul : '\x00' ∉ path.toList

structure MemoryRow where
  scope : String
  projectKey : String
  text : String
  confidence : ℚ
  source : String
  fingerprint : String
  createdAt : ℚ
  updatedAt : ℚ
  lastUsedAt : Option ℚ := none
  useCount : ℕ := 0
  pinned : Bool
deriving DecidableEq, Repr

/-- The columns of one side of an event, which are all `NULL` or none. -/
structure MemoryVersion where
  scope : String
  projectKey : String
  text : String
  confidence : ℚ
deriving DecidableEq, Repr

def MemoryRow.version (row : MemoryRow) : MemoryVersion :=
  { scope := row.scope, projectKey := row.projectKey, text := row.text
    confidence := row.confidence }

structure MemoryEvent where
  memoryId : ℕ
  action : String
  old : Option MemoryVersion := none
  new : Option MemoryVersion := none
  reason : String
  evidence : String
  createdAt : ℚ
deriving DecidableEq, Repr

/-- The two tables, the events in the order of their ids, and the last id of a memory, which
`AUTOINCREMENT` remembers. -/
structure MemoryStore where
  memories : Dict ℕ MemoryRow := .empty
  history : List MemoryEvent := []
  lastId : ℕ := 0

/-- The functions on texts that are not part of the program. -/
structure TextFunctions where
  casefold : String → String
  sha256 : String → String
  like : String → String → Bool

/-- `" ".join(text.split()).strip()` -/
def normalize (text : String) : String :=
  " ".intercalate (((text.toList.splitOnP Text.isSpace).filter (· ≠ [])).map String.ofList)

def validateScope (scope : String) : Except String Unit :=
  if scope = "global" ∨ scope = "project" then .ok ()
  else .error s!"unsupported memory scope: {scope}"

def validateConfidence (confidence : ℚ) : Except String Unit :=
  if 0 ≤ confidence ∧ confidence ≤ 1 then .ok ()
  else .error "memory confidence must be between 0 and 1"

def effectiveProject (scope : String) (projectKey : ProjectKey) : String :=
  if scope = "project" then projectKey.path else ""

/-- What is hashed for a fingerprint. -/
def fingerprintText (functions : TextFunctions) (scope projectKey text : String) : String :=
  s!"{scope}\x00{projectKey}\x00{functions.casefold text}"

def memoryFingerprint (functions : TextFunctions) (scope projectKey text : String) : String :=
  functions.sha256 (fingerprintText functions scope projectKey text)

namespace MemoryStore

variable (functions : TextFunctions) (s : MemoryStore)

def recordMemoryEvent (event : MemoryEvent) : MemoryStore :=
  { s with history := s.history ++ [event] }

/-- The memory with a fingerprint, of which there is one at most. -/
def byFingerprint (fingerprint : String) : Option (ℕ × MemoryRow) :=
  s.memories.entries.find? fun entry => entry.2.fingerprint = fingerprint

def addMemory (scope : String) (projectKey : ProjectKey) (text : String) (confidence : ℚ)
    (source reason : String) (now : ℚ) : Except String ((ℕ × Bool) × MemoryStore) := do
  validateScope scope
  validateConfidence confidence
  let clean := normalize text
  if clean = "" then return ((0, false), s)
  let effective := effectiveProject scope projectKey
  let fingerprint := memoryFingerprint functions scope effective clean
  let pinned : Bool := source = "user_explicit"
  match s.byFingerprint fingerprint with
  | some existing =>
    return ((existing.1, false),
      { s with memories := s.memories.set existing.1 { existing.2 with
          confidence := max existing.2.confidence confidence
          source := source
          pinned := existing.2.pinned || pinned
          updatedAt := now } })
  | none =>
    let memoryId := s.lastId + 1
    let row : MemoryRow :=
      { scope := scope, projectKey := effective, text := clean, confidence := confidence
        source := source, fingerprint := fingerprint, createdAt := now, updatedAt := now
        pinned := pinned }
    let inserted := { s with memories := s.memories.set memoryId row, lastId := memoryId }
    return ((memoryId, true), inserted.recordMemoryEvent
      { memoryId := memoryId, action := "add", new := some row.version, reason := reason
        evidence := source, createdAt := now })

def accessibleMemory (memoryId : ℕ) (projectKey : Option ProjectKey) : Option MemoryRow :=
  (s.memories.get? memoryId).filter fun row =>
    !(row.scope = "project" && projectKey.all fun key => row.projectKey ≠ key.path)

def getMemory (memoryId : ℕ) (projectKey : Option ProjectKey) : Option MemoryRow :=
  s.accessibleMemory memoryId projectKey

/-- `ORDER BY updated_at DESC, id DESC` -/
def listedBefore (a b : ℕ × MemoryRow) : Bool :=
  b.2.updatedAt < a.2.updatedAt || a.2.updatedAt = b.2.updatedAt && b.1 ≤ a.1

def listMemories (projectKey : Option ProjectKey) (scope : Option String) (search : String)
    (limit : ℤ) : Except String (List (ℕ × MemoryRow)) := do
  if let some scope := scope then validateScope scope
  let term := Text.strip Text.isSpace search
  let rows := s.memories.entries.filter fun entry =>
    (projectKey.all fun key => entry.2.scope = "global" || entry.2.projectKey = key.path) &&
      (scope.all fun scope => entry.2.scope = scope) &&
      (term = "" || functions.like s!"%{term}%" entry.2.text)
  return (rows.mergeSort listedBefore).take limit.toNat

def replaceMemory (memoryId : ℕ) (projectKey : ProjectKey) (scope text : String)
    (confidence : ℚ) (source reason evidence : String) (now : ℚ) :
    Except String (Bool × MemoryStore) := do
  validateScope scope
  validateConfidence confidence
  let clean := normalize text
  if clean = "" then return (false, s)
  let effective := effectiveProject scope projectKey
  let fingerprint := memoryFingerprint functions scope effective clean
  match s.accessibleMemory memoryId (some projectKey) with
  | none => return (false, s)
  | some old =>
    if old.scope ≠ scope ∨ scope = "project" ∧ old.projectKey ≠ effective then
      return (false, s)
    else if s.memories.entries.any fun entry =>
        entry.2.fingerprint = fingerprint && entry.1 ≠ memoryId then
      return (false, s)
    else
      let row := { old with
        scope := scope
        projectKey := effective
        text := clean
        confidence := confidence
        source := source
        fingerprint := fingerprint
        updatedAt := now
        pinned := old.pinned || source = "user_explicit" }
      let updated := { s with memories := s.memories.set memoryId row }
      return (true, updated.recordMemoryEvent
        { memoryId := memoryId, action := "replace", old := some old.version
          new := some row.version, reason := reason, evidence := evidence, createdAt := now })

/-- The deletion of a row, with its event. -/
def delete (memoryId : ℕ) (old : MemoryRow) (action reason evidence : String) (now : ℚ) :
    MemoryStore :=
  { s with memories := s.memories.erase memoryId }.recordMemoryEvent
    { memoryId := memoryId, action := action, old := some old.version, reason := reason
      evidence := evidence, createdAt := now }

def removeMemory (memoryId : ℕ) (projectKey : Option ProjectKey) (reason evidence : String)
    (now : ℚ) : Bool × MemoryStore :=
  match s.accessibleMemory memoryId projectKey with
  | none => (false, s)
  | some old => (true, s.delete memoryId old "remove" reason evidence now)

/-- `ORDER BY COALESCE(last_used_at, updated_at) ASC, updated_at ASC, id ASC` -/
def evictedBefore (a b : ℕ × MemoryRow) : Bool :=
  let usedAt (entry : ℕ × MemoryRow) := entry.2.lastUsedAt.getD entry.2.updatedAt
  usedAt a < usedAt b || usedAt a = usedAt b &&
    (a.2.updatedAt < b.2.updatedAt || a.2.updatedAt = b.2.updatedAt && a.1 ≤ b.1)

/-- The rows that are old enough, and of little worth. -/
def stale (cutoff : ℚ) (entry : ℕ × MemoryRow) : Bool :=
  !entry.2.pinned && entry.2.confidence < 9 / 10 && entry.2.updatedAt ≤ cutoff &&
    entry.2.lastUsedAt.all (· ≤ cutoff)

def evictStaleMemories (olderThanDays : ℚ) (limit : ℤ) (now : ℚ) : ℕ × MemoryStore :=
  let cutoff := now - max 0 olderThanDays * 86400
  let rows := ((s.memories.entries.filter (stale cutoff)).mergeSort evictedBefore).take limit.toNat
  (rows.length, rows.foldl (fun t row =>
    t.delete row.1 row.2 "evict" "stale-low-confidence-retention" "retention" now) s)

end MemoryStore

end Switchboard.Learning
