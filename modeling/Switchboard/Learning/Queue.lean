import Switchboard.Library.Dict
import Switchboard.Library.Run
import Mathlib.Data.Rat.Defs
import Mathlib.Tactic

/-!
# The learning queue

The queue operations of `learning/store.py`. A call is one transaction on the table
`learning_queue`, which is a dict from queue ids to rows. Ids and texts of a new row come
hashed, redacted and shortened; readings of the clock are arguments.
-/

namespace Switchboard.Learning

inductive QueueStatus where
  | pending | processing | completed | deadLetter
deriving DecidableEq, Repr

/-- Retention cleanup removes only these. -/
def QueueStatus.Terminal : QueueStatus → Prop
  | completed | deadLetter => True
  | _ => False

instance (status : QueueStatus) : Decidable status.Terminal := by
  cases status <;> unfold QueueStatus.Terminal <;> infer_instance

structure QueueRow where
  sessionId : String
  cwd : String
  userPrompt : String
  assistantMessage : String
  attributionJson : String
  status : QueueStatus := .pending
  attempts : ℕ := 0
  availableAt : ℚ
  leasedAt : Option ℚ := none
  lastError : String := ""
  createdAt : ℚ
  updatedAt : ℚ
deriving DecidableEq, Repr

/-- The texts of one turn. -/
structure LearningTurn where
  sessionId : String
  cwd : String
  userPrompt : String
  assistantMessage : String
  attributionJson : String

def truncate (text : String) (limit : ℕ) : String :=
  if text.length ≤ limit then text
  else
    let half := limit / 2
    String.ofList (text.toList.take half) ++ "\n...[truncated]...\n" ++
      String.ofList (text.toList.drop (text.length - half))

/-- The table `learning_queue`. -/
abbrev LearningQueue := Dict String QueueRow

namespace LearningQueue

/-- `INSERT OR IGNORE` -/
def enqueueLearning (q : LearningQueue) (queueId : String) (turn : LearningTurn) (now : ℚ) :
    LearningQueue :=
  if q.contains queueId then q
  else
    q.set queueId
      { sessionId := turn.sessionId, cwd := turn.cwd, userPrompt := turn.userPrompt
        assistantMessage := turn.assistantMessage, attributionJson := turn.attributionJson
        availableAt := now, createdAt := now, updatedAt := now }

/-- The lease of a claimed row is over. -/
def Expired (leaseSeconds now : ℚ) (row : QueueRow) : Prop :=
  row.status = .processing ∧ ∃ leasedAt ∈ row.leasedAt, leasedAt < now - max 1 leaseSeconds

instance (leaseSeconds now : ℚ) (row : QueueRow) : Decidable (Expired leaseSeconds now row) := by
  unfold Expired
  infer_instance

/-- Rows of workers whose lease is over become pending again. -/
def reclaim (q : LearningQueue) (leaseSeconds now : ℚ) : LearningQueue :=
  q.mapValues fun row =>
    if Expired leaseSeconds now row then
      { row with status := .pending, leasedAt := none, updatedAt := now }
    else row

/-- `ORDER BY created_at ASC, queue_id ASC` -/
def Earlier (a b : String × QueueRow) : Prop :=
  a.2.createdAt < b.2.createdAt ∨ a.2.createdAt = b.2.createdAt ∧ a.1 < b.1

instance (a b : String × QueueRow) : Decidable (Earlier a b) := by
  unfold Earlier
  infer_instance

/-- `LIMIT 1` -/
def first : List (String × QueueRow) → Option (String × QueueRow)
  | [] => none
  | e :: es => match first es with
    | none => some e
    | some b => if Earlier b e then some b else some e

/-- The rows a worker may claim. -/
def ready (q : LearningQueue) (now : ℚ) : List (String × QueueRow) :=
  q.entries.filter fun e => e.2.status = .pending ∧ e.2.availableAt ≤ now

/-- A row as its new worker gets it. -/
def lease (row : QueueRow) (now : ℚ) : QueueRow :=
  { row with
    status := .processing, attempts := row.attempts + 1, leasedAt := some now, updatedAt := now }

def claimLearning (q : LearningQueue) (leaseSeconds now : ℚ) :
    Option (String × QueueRow) × LearningQueue :=
  let q := q.reclaim leaseSeconds now
  match first (q.ready now) with
  | none => (none, q)
  | some (queueId, row) =>
    (some (queueId, lease row now), q.modify queueId fun row => lease row now)

def completeLearning (q : LearningQueue) (queueId : String) (now : ℚ) : LearningQueue :=
  q.modify queueId fun row =>
    { row with status := .completed, leasedAt := none, updatedAt := now }

/-- A row after a failed attempt. -/
def afterFailure (row : QueueRow) (error : String) (maxAttempts : ℤ) (now : ℚ) : QueueRow :=
  let dead := max 1 maxAttempts ≤ row.attempts
  let delay : ℚ := min 3600 (2 ^ (row.attempts - 1))
  { row with
    status := if dead then .deadLetter else .pending
    availableAt := if dead then now else now + delay
    leasedAt := none
    lastError := truncate error 500
    updatedAt := now }

/-- No status means that the row is missing. -/
def failLearning (q : LearningQueue) (queueId error : String) (maxAttempts : ℤ) (now : ℚ) :
    Option QueueStatus × LearningQueue :=
  match q.get? queueId with
  | none => (none, q)
  | some row =>
    (some (afterFailure row error maxAttempts now).status,
      q.modify queueId fun row => afterFailure row error maxAttempts now)

/-- Rows that are done, and how many of them were too old or too many. -/
def cleanupQueue (q : LearningQueue) (retentionDays : ℚ) (maxTerminalRows : ℤ) (now : ℚ) :
    ℕ × LearningQueue :=
  let cutoff := now - max 0 retentionDays * 86400
  let recent := q.filter fun _ row => ¬ (row.status.Terminal ∧ row.updatedAt < cutoff)
  let terminal := ((recent.entries.filter fun e => e.2.status.Terminal).mergeSort
    fun a b => b.2.updatedAt ≤ a.2.updatedAt).drop (max 0 maxTerminalRows).toNat
  (q.entries.length - recent.entries.length + terminal.length,
    recent.filter fun queueId _ => queueId ∉ terminal.map Prod.fst)

end LearningQueue

end Switchboard.Learning
