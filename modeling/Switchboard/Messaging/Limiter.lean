import Switchboard.Library.Dict
import Switchboard.Library.Run

/-!
# The compacting queue of the messaging limiter

`messaging/limiter.py`: callers submit functions under a key, the queue keeps one
function for each key, and one worker calls them. A step is what a task does
between two of its awaits; the lock of the queue is never held across one. The
rate window and the pause after a flood error only delay the worker, which may
take any time here. A call without a key gets one of its own.
-/

namespace Switchboard.Messaging

/-- One call of `fire_and_forget` or `enqueue`, numbered in the order of the calls. -/
structure Submission where
  dedupKey : String
  number : ℕ
deriving DecidableEq, Repr

/-- A future of the queue: who made it, and for which attempt of a
`fire_and_forget` task; a caller of `enqueue` makes a single attempt. -/
structure QueueFuture where
  owner : Submission
  attempt : Option ℕ
deriving DecidableEq, Repr

inductive Worker where
  | stopped
  | idle
  /-- Waiting for the pause to end and for the rate window. -/
  | holding (func : Submission) (futures : List QueueFuture)
  | executing (func : Submission) (futures : List QueueFuture)
deriving DecidableEq, Repr

/-- How the call of a function ends; a failure carries `str(e).lower()`. -/
inductive CallResult where
  | returned
  | cancelled
  | failed (errorMsg : String)
deriving DecidableEq, Repr

structure MessagingRateLimiter where
  queueList : List String := []
  queueMap : Dict String (Submission × List QueueFuture) := .empty
  worker : Worker := .stopped
  closed : Bool := false
  /-- The `fire_and_forget` tasks that have not begun; they begin in this order. -/
  created : List Submission := []
  /-- The tasks that sleep after a failed attempt, with the number of that attempt. -/
  sleeping : List (Submission × ℕ) := []

namespace MessagingRateLimiter

def requireRunning (l : MessagingRateLimiter) : Except String Unit :=
  if l.closed then .error "Messaging rate limiter is closed."
  else if l.worker = .stopped then .error "Messaging rate limiter has not been started."
  else .ok ()

def start (l : MessagingRateLimiter) : Except String MessagingRateLimiter :=
  if l.closed then .error "Messaging rate limiter is closed."
  else if l.worker = .stopped then .ok { l with worker := .idle }
  else .ok l

/-- A key that is queued already keeps its place and its futures, and takes the new
function. -/
def enqueueInternalMulti (l : MessagingRateLimiter) (func : Submission)
    (futures : List QueueFuture) (front : Bool := false) : Except String MessagingRateLimiter :=
  l.requireRunning.map fun _ =>
    match l.queueMap.get? func.dedupKey with
    | some (_, oldFutures) =>
      { l with queueMap := l.queueMap.set func.dedupKey (func, oldFutures ++ futures) }
    | none =>
      { l with
        queueMap := l.queueMap.set func.dedupKey (func, futures)
        queueList :=
          if front then func.dedupKey :: l.queueList else l.queueList ++ [func.dedupKey] }

def enqueue (l : MessagingRateLimiter) (func : Submission) : Except String MessagingRateLimiter :=
  l.enqueueInternalMulti func [⟨func, none⟩]

def fireAndForget (l : MessagingRateLimiter) (func : Submission) :
    Except String MessagingRateLimiter :=
  l.requireRunning.map fun _ => { l with created := l.created ++ [func] }

def maxRetries : ℕ := 2

/-- Errors that are retried. -/
def transient (errorMsg : String) : Bool :=
  ["connect", "timeout", "broken"].any fun x => x.toList <:+: errorMsg.toList

/-- The `except` branch of a task: sleep before another attempt, or give up. -/
def afterError (l : MessagingRateLimiter) (func : Submission) (attempt : ℕ) (errorMsg : String) :
    MessagingRateLimiter :=
  if attempt < maxRetries ∧ transient errorMsg then
    { l with sleeping := l.sleeping ++ [(func, attempt)] }
  else l

/-- One attempt of a task, up to its wait for the result. -/
def tryEnqueue (l : MessagingRateLimiter) (func : Submission) (attempt : ℕ) :
    MessagingRateLimiter :=
  match l.enqueueInternalMulti func [⟨func, some attempt⟩] with
  | .ok l => l
  | .error e => l.afterError func attempt e.toLower

/-- The oldest task that has not begun runs to its first wait. -/
def beginTask (l : MessagingRateLimiter) : MessagingRateLimiter :=
  match l.created with
  | [] => l
  | func :: rest => { l with created := rest }.tryEnqueue func 0

/-- A sleeping task wakes up for its next attempt. -/
def retry (l : MessagingRateLimiter) (func : Submission) (attempt : ℕ) : MessagingRateLimiter :=
  if (func, attempt) ∈ l.sleeping then
    { l with sleeping := l.sleeping.erase (func, attempt) }.tryEnqueue func (attempt + 1)
  else l

/-- The worker takes the first key of the queue. -/
def takeNext (l : MessagingRateLimiter) : MessagingRateLimiter :=
  match l.worker, l.closed, l.queueList with
  | .idle, false, key :: rest => match l.queueMap.get? key with
    | some (func, futures) =>
      { l with queueList := rest, queueMap := l.queueMap.erase key, worker := .holding func futures }
    | none => { l with queueList := rest }
  | _, _, _ => l

/-- The worker calls the function it holds. -/
def call (l : MessagingRateLimiter) : MessagingRateLimiter :=
  match l.worker, l.closed with
  | .holding func futures, false => { l with worker := .executing func futures }
  | _, _ => l

/-- What the owner of a future does with an error. -/
def raiseTo (errorMsg : String) (l : MessagingRateLimiter) (future : QueueFuture) :
    MessagingRateLimiter :=
  match future.attempt with
  | some attempt => l.afterError future.owner attempt errorMsg
  | none => l

/-- The call ends: its futures are settled and the worker goes on. -/
def finish (l : MessagingRateLimiter) (result : CallResult) : MessagingRateLimiter :=
  match l.worker with
  | .executing _ futures =>
    let l := { l with worker := if l.closed then .stopped else .idle }
    match result with
    | .failed errorMsg => futures.foldl (raiseTo errorMsg) l
    | _ => l
  | _ => l

/-- The worker task is cancelled; what it held is not called any more. -/
def cancelWorker (l : MessagingRateLimiter) : MessagingRateLimiter := { l with worker := .stopped }

/-- `shutdown`: the queue is emptied and every task is cancelled. -/
def shutdown (l : MessagingRateLimiter) : MessagingRateLimiter :=
  { l with queueList := [], queueMap := .empty, closed := true, created := [], sleeping := [] }

end MessagingRateLimiter

/-! ## Runs -/

inductive LimiterOp where
  | start
  | fireAndForget (dedupKey : String)
  | enqueue (dedupKey : String)
  | beginTask
  | retry (func : Submission) (attempt : ℕ)
  | takeNext
  | call
  | finish (result : CallResult)
  | cancelWorker
  | shutdown

/-- A limiter with the history of its run: the submissions, those that were put in
the queue, the calls made, and each replacement of a queued function by another. -/
structure LimiterRun where
  limiter : MessagingRateLimiter := {}
  submitted : List Submission := []
  queued : List Submission := []
  executed : List Submission := []
  replaced : List (Submission × Submission) := []
  /-- The worker was cancelled or the limiter shut down. -/
  interrupted : Bool := false

namespace LimiterRun

def submission (r : LimiterRun) (dedupKey : String) : Submission := ⟨dedupKey, r.submitted.length⟩

/-- Write down that a function is put in the queue of a running limiter. -/
def record (r : LimiterRun) (func : Submission) : LimiterRun :=
  match r.limiter.requireRunning with
  | .error _ => r
  | .ok _ =>
    { r with
      queued := r.queued ++ [func]
      replaced := r.replaced ++
        (r.limiter.queueMap.get? func.dedupKey).toList.map fun entry => (entry.1, func) }

/-- A step; one that is not possible, or raises, changes nothing. -/
def next (r : LimiterRun) : LimiterOp → LimiterRun
  | .start => match r.limiter.start with
    | .ok l => { r with limiter := l }
    | .error _ => r
  | .fireAndForget key => match r.limiter.fireAndForget (r.submission key) with
    | .ok l => { r with limiter := l, submitted := r.submitted ++ [r.submission key] }
    | .error _ => r
  | .enqueue key => match r.limiter.enqueue (r.submission key) with
    | .ok l =>
      { r.record (r.submission key) with
        limiter := l, submitted := r.submitted ++ [r.submission key] }
    | .error _ => r
  | .beginTask => match r.limiter.created with
    | func :: _ => { r.record func with limiter := r.limiter.beginTask }
    | [] => r
  | .retry func attempt =>
    if (func, attempt) ∈ r.limiter.sleeping then
      { r.record func with limiter := r.limiter.retry func attempt }
    else r
  | .takeNext => { r with limiter := r.limiter.takeNext }
  | .call => match r.limiter.worker, r.limiter.closed with
    | .holding func _, false =>
      { r with limiter := r.limiter.call, executed := r.executed ++ [func] }
    | _, _ => r
  | .finish result => { r with limiter := r.limiter.finish result }
  | .cancelWorker => { r with limiter := r.limiter.cancelWorker, interrupted := true }
  | .shutdown => { r with limiter := r.limiter.shutdown, interrupted := true }

/-- No work under the key is left on its way to the worker. -/
def Settled (r : LimiterRun) (dedupKey : String) : Prop :=
  dedupKey ∉ r.limiter.queueList ∧ (∀ f ∈ r.limiter.created, f.dedupKey ≠ dedupKey) ∧
    ∀ func futures, r.limiter.worker = .holding func futures → func.dedupKey ≠ dedupKey

/-- The functions of a key are called in the order of their submissions. -/
structure InOrder (r : LimiterRun) : Prop where
  executed : r.executed.Pairwise fun f g => f.dedupKey = g.dedupKey → f.number ≤ g.number
  replaced : ∀ p ∈ r.replaced, p.1.number ≤ p.2.number
  /-- Once a key is settled, the last call was that of the last submission. -/
  shown : r.interrupted = false → ∀ f ∈ r.submitted, r.Settled f.dedupKey →
    ∃ g, (r.executed.filter fun h => h.dedupKey = f.dedupKey).getLast? = some g ∧
      f.number ≤ g.number

end LimiterRun

def limiterSystem : System LimiterRun LimiterOp where
  init r := r = {}
  step r op r' := r' = r.next op

end Switchboard.Messaging
