import Switchboard.Library.Dict
import Switchboard.Library.Run

/-!
# The provider manager

`runtime/provider_manager.py`: generations with their leases, the model-list
refreshes, replacement and shutdown. A step is what one task does between two of
its awaits. One call at a time holds `_replace_lock`; what it waits for is kept in
`lockSection`, and the call of `close` that holds `_close_lock` in `shutdown`. A call
that does not have to wait may go on at once or let others run. Runtimes that were
never published are cleaned up on the side and are not part of the state.
-/

namespace Switchboard.Runtime

inductive CleanupTask where
  | created
  | running
  | finished
deriving DecidableEq, Repr

structure ProviderGeneration where
  activeLeases : ℕ := 0
  retired : Bool := false
  closed : Bool := false
  drained : Bool := true
  cleanupTask : Option CleanupTask := none
deriving DecidableEq, Repr

inductive RefreshPhase where
  | created
  | running
  /-- Waiting for the cleanup that its release has found or begun. -/
  | releasing
  | done
deriving DecidableEq, Repr

/-- A task of `_refresh_generation_in_background`. -/
structure RefreshTask where
  generation : ℕ
  phase : RefreshPhase := .created
  cancelled : Bool := false
deriving DecidableEq, Repr

/-- What the call that holds `_replace_lock` does or waits for. -/
inductive LockSection where
  | free
  | replaceCancelling (task : Option ℕ)
  | replaceRetrying (rest : List ℕ)
  | replaceAwaiting (generation : ℕ) (rest : List ℕ)
  | replacePreparing
  | replaceClosing (generation : ℕ)
  | refreshCancelling (task : Option ℕ)
  | refreshing (generation : ℕ)
  | refreshReleasing (generation : ℕ)
  | connecting (generation : ℕ)
  | shutdownCancelling (task : Option ℕ)
deriving DecidableEq, Repr

/-- The part of `close` after `_replace_lock` is released. -/
inductive Shutdown where
  | idle
  | draining (waiting generations : List ℕ)
  | closing (rest generations : List ℕ)
deriving DecidableEq, Repr

structure ProviderRuntimeManager where
  generations : Dict ℕ ProviderGeneration
  current : ℕ
  nextGenerationId : ℕ
  /-- The keys of `_retired`. -/
  retired : List ℕ := []
  refreshTask : Option ℕ := none
  /-- Every refresh task made so far, by its number. -/
  tasks : List RefreshTask := []
  /-- The generations of the leases that are not released yet. -/
  leases : List ℕ := []
  closing : Bool := false
  closed : Bool := false
  lockSection : LockSection := .free
  shutdown : Shutdown := .idle

namespace ProviderRuntimeManager

/-- A manager with its first generation. -/
def new : ProviderRuntimeManager where
  generations := Dict.empty.set 1 {}
  current := 1
  nextGenerationId := 2

def generation (m : ProviderRuntimeManager) (g : ℕ) : Option ProviderGeneration :=
  m.generations.get? g

def update (m : ProviderRuntimeManager) (g : ℕ)
    (f : ProviderGeneration → ProviderGeneration) : ProviderRuntimeManager :=
  { m with generations := m.generations.modify g f }

/-- Count one more user of a generation. -/
def retain (m : ProviderRuntimeManager) (g : ℕ) : ProviderRuntimeManager :=
  m.update g fun gen => { gen with activeLeases := gen.activeLeases + 1, drained := false }

def acquire (m : ProviderRuntimeManager) : Except String ProviderRuntimeManager :=
  if m.closing ∨ m.closed then .error "Provider runtime is shutting down."
  else .ok { m.retain m.current with leases := m.current :: m.leases }

/-- Whether `_close_generation` makes a cleanup task, rather than finding one. -/
def NeedsCleanup (gen : ProviderGeneration) : Prop :=
  gen.closed = false ∧ gen.activeLeases = 0 ∧ gen.cleanupTask = none

instance (gen : ProviderGeneration) : Decidable (NeedsCleanup gen) :=
  inferInstanceAs (Decidable (_ ∧ _))

/-- `_close_generation`, up to its wait for the cleanup task. -/
def closeGeneration (m : ProviderRuntimeManager) (g : ℕ) : ProviderRuntimeManager :=
  m.update g fun gen => if NeedsCleanup gen then { gen with cleanupTask := some .created } else gen

/-- Whether a user is the last one of a retired generation, which it then closes. -/
def lastUse (m : ProviderRuntimeManager) (gen : ProviderGeneration) : Bool :=
  gen.activeLeases = 1 && gen.retired && !m.closing

/-- Count one user of a generation less. -/
def dropUse (m : ProviderRuntimeManager) (g : ℕ) : ProviderRuntimeManager :=
  m.update g fun gen =>
    { gen with
      activeLeases := gen.activeLeases - 1, drained := gen.drained || gen.activeLeases = 1 }

/-- `_release`, up to its wait for the cleanup task. -/
def release (m : ProviderRuntimeManager) (g : ℕ) : ProviderRuntimeManager :=
  match m.generation g with
  | none => m
  | some gen =>
    if gen.activeLeases = 0 then m
    else if m.lastUse gen then (m.dropUse g).closeGeneration g
    else m.dropUse g

/-- The cleanup of a generation is over, whether it succeeded or not. -/
def cleaned (m : ProviderRuntimeManager) (g : ℕ) : Bool :=
  (m.generation g).all fun gen => gen.cleanupTask = none || gen.cleanupTask = some .finished

def taskDone (m : ProviderRuntimeManager) (task : Option ℕ) : Bool :=
  task.all fun t => (m.tasks[t]?).all fun task => task.phase = .done

def startModelListRefresh (m : ProviderRuntimeManager) : ProviderRuntimeManager :=
  if m.closing ∨ m.closed then m
  else if m.taskDone m.refreshTask = false then m
  else
    { m with
      refreshTask := some m.tasks.length
      tasks := m.tasks ++ [{ generation := m.current }] }

def setTask (m : ProviderRuntimeManager) (t : ℕ) (task : RefreshTask) : ProviderRuntimeManager :=
  { m with tasks := m.tasks.set t task }

/-- `_cancel_refresh`, up to its wait; the task it has to wait for. -/
def cancelRefresh (m : ProviderRuntimeManager) : Option ℕ × ProviderRuntimeManager :=
  match m.refreshTask with
  | none => (none, m)
  | some t => match m.tasks[t]? with
    | none => (none, { m with refreshTask := none })
    | some task =>
      if task.phase = .done then (none, { m with refreshTask := none })
      else (some t, { m.setTask t { task with cancelled := true } with refreshTask := none })

/-- The first step of a refresh task. -/
def beginRefresh (m : ProviderRuntimeManager) (t : ℕ) : ProviderRuntimeManager :=
  match m.tasks[t]? with
  | none => m
  | some task =>
    if task.phase ≠ .created then m
    else if task.cancelled then m.setTask t { task with phase := .done }
    else match m.generation task.generation with
      | none => m
      | some gen =>
        if gen.closed then m.setTask t { task with phase := .done }
        else (m.retain task.generation).setTask t { task with phase := .running }

/-- The discovery of a refresh task returns, fails or is cancelled. -/
def endRefresh (m : ProviderRuntimeManager) (t : ℕ) : ProviderRuntimeManager :=
  match m.tasks[t]? with
  | none => m
  | some task =>
    if task.phase ≠ .running then m
    else
      let waits := (m.generation task.generation).any m.lastUse
      (m.release task.generation).setTask t
        { task with phase := if waits then .releasing else .done }

/-- A refresh task ends after the cleanup it waited for, or because it is cancelled. -/
def leaveRefresh (m : ProviderRuntimeManager) (t : ℕ) : ProviderRuntimeManager :=
  match m.tasks[t]? with
  | none => m
  | some task =>
    if task.phase = .releasing ∧ (task.cancelled ∨ m.cleaned task.generation) then
      m.setTask t { task with phase := .done }
    else m

/-- The cleanup task begins: `runtime.cleanup()` is called. -/
def beginCleanup (m : ProviderRuntimeManager) (g : ℕ) : ProviderRuntimeManager :=
  m.update g fun gen =>
    if gen.cleanupTask = some .created then { gen with cleanupTask := some .running } else gen

/-- `runtime.cleanup()` returns, or it fails and the generation may be cleaned again. -/
def endCleanup (m : ProviderRuntimeManager) (g : ℕ) (succeeded : Bool) : ProviderRuntimeManager :=
  match m.generation g with
  | none => m
  | some gen =>
    if gen.cleanupTask ≠ some .running then m
    else if succeeded then
      { m.update g fun gen => { gen with closed := true, cleanupTask := some .finished } with
        retired := m.retired.filter fun h => h ≠ g }
    else m.update g fun gen => { gen with cleanupTask := none }

/-- Retire the current generation. -/
def retireCurrent (m : ProviderRuntimeManager) : ProviderRuntimeManager :=
  { m.update m.current fun gen => { gen with retired := true } with
    retired := m.retired ++ [m.current] }

/-- The candidate becomes the current generation, with a refresh task of its own. -/
def publishCandidate (m : ProviderRuntimeManager) : ProviderRuntimeManager :=
  { m.retireCurrent with
    generations := m.retireCurrent.generations.set m.nextGenerationId {}
    current := m.nextGenerationId
    nextGenerationId := m.nextGenerationId + 1
    refreshTask := some m.tasks.length
    tasks := m.tasks ++ [{ generation := m.nextGenerationId }] }

/-- The end of `replace`: a previous generation without a user is closed. -/
def publish (m : ProviderRuntimeManager) : ProviderRuntimeManager :=
  if (m.generation m.current).all fun gen => gen.activeLeases = 0 then
    { m.publishCandidate.closeGeneration m.current with lockSection := .replaceClosing m.current }
  else { m.publishCandidate with lockSection := .free }

/-- The calls that take `_replace_lock` unless the manager shuts down. -/
inductive LockedCall where
  | replace
  | refreshModelListCache
  | connectedProviderChanged
deriving DecidableEq, Repr

def enter (m : ProviderRuntimeManager) (call : LockedCall) : ProviderRuntimeManager :=
  if m.lockSection ≠ .free ∨ m.closing ∨ m.closed then m
  else match call with
    | .replace =>
      let (task, m) := m.cancelRefresh
      { m with lockSection := .replaceCancelling task }
    | .refreshModelListCache =>
      let (task, m) := m.cancelRefresh
      { m with lockSection := .refreshCancelling task }
    | .connectedProviderChanged => { m with lockSection := .connecting m.current }

/-- `close` with both locks. -/
def enterClose (m : ProviderRuntimeManager) : ProviderRuntimeManager :=
  if m.lockSection ≠ .free ∨ m.shutdown ≠ .idle ∨ m.closed then m
  else
    let (task, m) := cancelRefresh { m with closing := true }
    { m with lockSection := .shutdownCancelling task }

/-- The holder of `_replace_lock` goes on when what it waits for has happened. A
replacement may fail to build its runtime or to commit. -/
def advance (m : ProviderRuntimeManager) (commits : Bool) : ProviderRuntimeManager :=
  match m.lockSection with
  | .free => m
  | .replaceCancelling task =>
    if m.taskDone task then { m with lockSection := .replaceRetrying m.retired } else m
  | .replaceRetrying [] => { m with lockSection := .replacePreparing }
  | .replaceRetrying (g :: rest) =>
    if (m.generation g).any fun gen => gen.activeLeases ≠ 0 then
      { m with lockSection := .replaceRetrying rest }
    else { m.closeGeneration g with lockSection := .replaceAwaiting g rest }
  | .replaceAwaiting g rest =>
    if m.cleaned g then { m with lockSection := .replaceRetrying rest } else m
  | .replacePreparing => if commits then m.publish else { m with lockSection := .free }
  | .replaceClosing g => if m.cleaned g then { m with lockSection := .free } else m
  | .refreshCancelling task =>
    if m.taskDone task then
      if (m.generation m.current).all fun gen => gen.closed then { m with lockSection := .free }
      else { m.retain m.current with lockSection := .refreshing m.current }
    else m
  | .refreshing g =>
    let waits := (m.generation g).any m.lastUse
    { m.release g with lockSection := if waits then .refreshReleasing g else .free }
  | .refreshReleasing g => if m.cleaned g then { m with lockSection := .free } else m
  | .connecting _ => { m with lockSection := .free }
  | .shutdownCancelling task =>
    if m.taskDone task then
      let m := if (m.generation m.current).all (·.retired) then m else m.retireCurrent
      { m with lockSection := .free, shutdown := .draining m.retired m.retired }
    else m

/-- The holder of `_replace_lock` is cancelled while it waits. -/
def abandon (m : ProviderRuntimeManager) : ProviderRuntimeManager :=
  match m.lockSection with
  | .refreshing _ => m.advance true
  | _ => { m with lockSection := .free }

/-- `close` sees that a generation is drained. -/
def seeDrained (m : ProviderRuntimeManager) (g : ℕ) : ProviderRuntimeManager :=
  match m.shutdown with
  | .draining waiting generations =>
    if (m.generation g).all (·.drained) then
      { m with shutdown := .draining (waiting.filter fun h => h ≠ g) generations }
    else m
  | _ => m

/-- `close` goes on: it closes the drained generations one by one and then ends. -/
def advanceClose (m : ProviderRuntimeManager) (unpublishedClosed : Bool) :
    ProviderRuntimeManager :=
  match m.shutdown with
  | .idle => m
  | .draining [] generations => { m with shutdown := .closing generations generations }
  | .draining (_ :: _) _ => m
  | .closing (g :: rest) generations =>
    { m.closeGeneration g with shutdown := .closing rest generations }
  | .closing [] generations =>
    if generations.all m.cleaned then
      { m with
        shutdown := .idle
        closed := generations.all (fun g => (m.generation g).all (·.closed)) && unpublishedClosed }
    else m

/-- `close` is cancelled while it waits. -/
def abandonClose (m : ProviderRuntimeManager) : ProviderRuntimeManager :=
  { m with shutdown := .idle }

end ProviderRuntimeManager

/-! ## Runs -/

inductive ProviderOp where
  | acquire
  | release (generation : ℕ)
  | startModelListRefresh
  | beginRefresh (task : ℕ)
  | endRefresh (task : ℕ)
  | leaveRefresh (task : ℕ)
  | beginCleanup (generation : ℕ)
  | endCleanup (generation : ℕ) (succeeded : Bool)
  | enter (call : ProviderRuntimeManager.LockedCall)
  | enterClose
  | advance (commits : Bool)
  | abandon
  | seeDrained (generation : ℕ)
  | advanceClose (unpublishedClosed : Bool)
  | abandonClose
deriving DecidableEq, Repr

/-- The manager after a step; one that is not possible, or raises, changes nothing. -/
def ProviderOp.apply (m : ProviderRuntimeManager) : ProviderOp → ProviderRuntimeManager
  | acquire => match m.acquire with
    | .ok m => m
    | .error _ => m
  | release g => if g ∈ m.leases then { m.release g with leases := m.leases.erase g } else m
  | startModelListRefresh => m.startModelListRefresh
  | beginRefresh t => m.beginRefresh t
  | endRefresh t => m.endRefresh t
  | leaveRefresh t => m.leaveRefresh t
  | beginCleanup g => m.beginCleanup g
  | endCleanup g succeeded => m.endCleanup g succeeded
  | enter call => m.enter call
  | enterClose => m.enterClose
  | advance commits => m.advance commits
  | abandon => m.abandon
  | seeDrained g => m.seeDrained g
  | advanceClose unpublishedClosed => m.advanceClose unpublishedClosed
  | abandonClose => m.abandonClose

/-- A manager with the history of its run: the generations whose cleanup has begun,
and those whose cleanup has succeeded, once for each time. -/
structure ProviderRun where
  manager : ProviderRuntimeManager := .new
  begun : List ℕ := []
  succeeded : List ℕ := []

namespace ProviderRun

def next (r : ProviderRun) (op : ProviderOp) : ProviderRun where
  manager := op.apply r.manager
  begun := match op with
    | .beginCleanup g =>
      if (r.manager.generation g).any fun gen => gen.cleanupTask = some .created then
        r.begun ++ [g]
      else r.begun
    | _ => r.begun
  succeeded := match op with
    | .endCleanup g true =>
      if (r.manager.generation g).any fun gen => gen.cleanupTask = some .running then
        r.succeeded ++ [g]
      else r.succeeded
    | _ => r.succeeded

end ProviderRun

def providerSystem : System ProviderRun ProviderOp where
  init r := r = {}
  step r op r' := r' = r.next op

end Switchboard.Runtime
