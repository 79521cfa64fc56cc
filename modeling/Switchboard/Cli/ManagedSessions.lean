import Switchboard.Library.Dict
import Switchboard.Library.Run

/-!
# Managed sessions

The session pool of `cli/managed/manager.py`. Every call takes the one lock of the pool, so
only the stops of sessions are awaited while it is held; what the holder stops is kept in
`holder`. Sessions are numbered as they are made. A process may run until a `stop` of its
session has returned true.
-/

namespace Switchboard.Cli

/-- What the call that holds the lock waits for. -/
inductive PoolHolder where
  | free
  | removing (session : ℕ)
  | stoppingAll (session : ℕ) (rest : List ℕ)
deriving DecidableEq, Repr

/-- How an awaited `stop` ends. -/
inductive StopOutcome where
  | stopped
  | notStopped
  | raised
  | cancelled
deriving DecidableEq, Repr

inductive PoolError where
  | closing
deriving DecidableEq, Repr

structure SessionPool where
  sessions : Dict String ℕ := ∅
  pendingSessions : Dict String ℕ := ∅
  tempToReal : Dict String String := ∅
  realToTemp : Dict String String := ∅
  closingSessions : List ℕ := []
  holder : PoolHolder := .free
  nextSession : ℕ := 0
  /-- The sessions that were stopped, by a `stop` that returned true. -/
  stopped : List ℕ := []

namespace SessionPool

def lookupId (p : SessionPool) (sessionId : String) : String :=
  (p.tempToReal.get? sessionId).getD sessionId

/-- `_session_for_id` -/
def sessionForId (p : SessionPool) (sessionId : String) : Option ℕ :=
  match p.sessions.get? (p.lookupId sessionId) with
  | some session => some session
  | none => p.pendingSessions.get? (p.lookupId sessionId)

/-- One round of the loop of `_forget_session` over the real ids. -/
def dropReal (p : SessionPool) (realId : String) : SessionPool :=
  match p.realToTemp.get? realId with
  | none => { p with sessions := p.sessions.erase realId }
  | some tempId =>
    { p with
      sessions := p.sessions.erase realId
      realToTemp := p.realToTemp.erase realId
      tempToReal := p.tempToReal.erase tempId }

/-- The ids that a session is stored under. -/
def idsOf (owned : Dict String ℕ) (session : ℕ) : List String :=
  (owned.entries.filter fun e => e.2 = session).map Prod.fst

/-- `_forget_session` -/
def forgetSession (p : SessionPool) (session : ℕ) : SessionPool :=
  let pendingIds := idsOf p.pendingSessions session
  let realIds := idsOf p.sessions session
  let p := { p with pendingSessions := pendingIds.foldl Dict.erase p.pendingSessions }
  let p := realIds.foldl dropReal p
  { p with closingSessions := p.closingSessions.filter fun s => s ≠ session }

/-- The id of a new session, and the pool that stores it. -/
def create (p : SessionPool) (tempId : String) : ℕ × SessionPool :=
  (p.nextSession,
    { p with
      pendingSessions := p.pendingSessions.set tempId p.nextSession
      nextSession := p.nextSession + 1 })

/-- `get_or_create_session`. The id of a session that is asked for without one is `fresh`. -/
def getOrCreateSession (p : SessionPool) (sessionId : Option String) (fresh : String) :
    Except PoolError (ℕ × String × Bool) × SessionPool :=
  let requested := sessionId.filter fun id => id ≠ ""
  let stored := requested.bind fun id => (p.sessionForId id).map fun s => (s, p.lookupId id)
  match stored with
  | some (session, lookupId) =>
    if session ∈ p.closingSessions then (.error .closing, p)
    else (.ok (session, lookupId, false), p)
  | none =>
    let tempId := requested.getD fresh
    let (session, p) := p.create tempId
    (.ok (session, tempId, true), p)

/-- `register_real_session_id` -/
def registerRealSessionId (p : SessionPool) (tempId realSessionId : String) :
    Bool × SessionPool :=
  match p.pendingSessions.get? tempId with
  | none => (false, p)
  | some session =>
    if session ∈ p.closingSessions then (false, p)
    else if (p.sessionForId realSessionId).any fun existing => existing ≠ session then (false, p)
    else
      (true,
        { p with
          pendingSessions := p.pendingSessions.erase tempId
          sessions := p.sessions.set realSessionId session
          tempToReal := p.tempToReal.set tempId realSessionId
          realToTemp := p.realToTemp.set realSessionId tempId })

/-- `remove_session`, up to its wait for the session. -/
def removeSession (p : SessionPool) (sessionId : String) : SessionPool :=
  match p.sessionForId sessionId with
  | none => p
  | some session =>
    { p with closingSessions := session :: p.closingSessions, holder := .removing session }

/-- The next session of `stop_all`. -/
def stopNext (p : SessionPool) : List ℕ → SessionPool
  | [] => { p with holder := .free }
  | session :: rest => { p with holder := .stoppingAll session rest }

/-- `stop_all`, up to its first wait for a session. -/
def stopAll (p : SessionPool) : SessionPool :=
  let all := (p.sessions.values ++ p.pendingSessions.values ++ p.closingSessions).eraseDups
  { p with closingSessions := all ++ p.closingSessions }.stopNext all

/-- A session that is stopped is forgotten. -/
def forgetStopped (p : SessionPool) (session : ℕ) : SessionPool :=
  { p.forgetSession session with stopped := session :: p.stopped }

/-- The `stop` that the holder of the lock waits for ends. -/
def stopEnds (p : SessionPool) (outcome : StopOutcome) : SessionPool :=
  match p.holder, outcome with
  | .free, _ => p
  | .removing session, .stopped => { p.forgetStopped session with holder := .free }
  | .removing _, _ => { p with holder := .free }
  | .stoppingAll session rest, .stopped => (p.forgetStopped session).stopNext rest
  | .stoppingAll _ _, .cancelled => { p with holder := .free }
  | .stoppingAll _ rest, _ => p.stopNext rest

end SessionPool

inductive PoolOp where
  | getOrCreate (sessionId : Option String) (fresh : String)
  | register (tempId realSessionId : String)
  | remove (sessionId : String)
  | stopAll
  | stopEnds (outcome : StopOutcome)
deriving DecidableEq, Repr

/-- A call waits while another one holds the lock. -/
def PoolOp.apply (op : PoolOp) (p : SessionPool) : SessionPool :=
  match op with
  | stopEnds outcome => p.stopEnds outcome
  | getOrCreate sessionId fresh =>
    if p.holder = .free then (p.getOrCreateSession sessionId fresh).2 else p
  | register tempId realSessionId =>
    if p.holder = .free then (p.registerRealSessionId tempId realSessionId).2 else p
  | remove sessionId => if p.holder = .free then p.removeSession sessionId else p
  | stopAll => if p.holder = .free then p.stopAll else p

/-- Runs of a pool from its construction. -/
def poolSystem : System SessionPool PoolOp where
  init p := p = {}
  step p op p' := p' = op.apply p

end Switchboard.Cli
