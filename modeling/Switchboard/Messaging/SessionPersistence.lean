import Switchboard.Library.Run
import Switchboard.Messaging.SessionStore

/-!
# Debounced persistence of the session store, thread by thread

`session/persistence.py` and `session/store.py` under any interleaving of their
lock sections. A thread is at one of the points between two sections of a call;
`advance` runs its next section. The store lock is reentrant and is held across
the sections of a mutation or a clear, the writer lock across the check of the
generation and the replacement of the file.
-/

namespace Switchboard.Messaging

/-- `_PendingWrite`, together with the number of mutations its snapshot has seen. -/
structure PendingWrite where
  generation : ℕ
  snapshot : SessionData
  version : ℕ

/-- The points of a call between two lock sections. -/
inductive SavePc where
  | idle
  /-- `schedule_save` is about to take the timer lock; the store is changed. -/
  | scheduling
  /-- `schedule_save` is about to start the timer of a generation. -/
  | starting (generation : ℕ)
  /-- `write_data` is about to take the timer lock. -/
  | invalidating (snapshot : SessionData) (version : ℕ)
  /-- `_claim_timer` is about to take the timer lock. -/
  | claiming (expectedGeneration : Option ℕ)
  /-- `_snapshot_for_write` is about to take the snapshot. -/
  | snapshotting (generation : ℕ)
  /-- `_write_if_current` is about to take the writer lock. -/
  | pending (write : PendingWrite)
  /-- The writer lock is held; the generation is not compared yet. -/
  | checking (write : PendingWrite)
  /-- The writer lock is held; the file is not replaced yet. -/
  | writing (write : PendingWrite)
  /-- The file write raised; the dirty flag is not set yet. -/
  | failing
  /-- `_mark_clean_if_current` is about to take the timer lock. -/
  | marking (generation : ℕ)
  /-- `_on_dirty(False)` is about to take the store lock. -/
  | cleaning

/-- The store, its persistence and the threads `τ`. The last three fields only
observe: the loaded contents, the mutations with the contents each left, and the
writes that replaced the file, oldest first. -/
structure SessionState (τ : Type) where
  store : SessionStore
  dirty : Bool
  saveTimer : Option ℕ
  saveGeneration : ℕ
  storeLock : Option τ
  writerLock : Option τ
  started : List ℕ
  stopped : List ℕ
  pc : τ → SavePc
  loaded : SessionData
  mutations : List (StoreOp × SessionData)
  written : List PendingWrite

namespace SessionState

variable {τ : Type}

/-- The number of mutations so far. -/
def version (s : SessionState τ) : ℕ := s.mutations.length

/-- The contents after the first `v` mutations. -/
def stateAt (s : SessionState τ) (v : ℕ) : Option SessionData :=
  (s.loaded :: s.mutations.map Prod.snd)[v]?

/-- The last of the first `v` mutations is a clear of the scope. -/
def ClearedAt (s : SessionState τ) (scope : MessageScope) (v : ℕ) : Prop :=
  ∃ n data, v = n + 1 ∧ s.mutations[n]? = some (.clearScope scope, data)

def fresh (store : SessionStore) : SessionState τ where
  store := store
  dirty := false
  saveTimer := none
  saveGeneration := 0
  storeLock := none
  writerLock := none
  started := []
  stopped := []
  pc := fun _ => .idle
  loaded := store.snapshotForPersistence
  mutations := []
  written := []

/-- Cancel the current timer, if there is one. -/
def cancelTimer (s : SessionState τ) : SessionState τ :=
  { s with saveTimer := none, stopped := s.saveTimer.toList ++ s.stopped }

/-- The timer section of `schedule_save`. -/
def scheduleTimer (s : SessionState τ) : SessionState τ :=
  { s.cancelTimer with
    saveGeneration := s.saveGeneration + 1
    saveTimer := some (s.saveGeneration + 1) }

/-- The timer section of `write_data`. -/
def invalidatePending (s : SessionState τ) : SessionState τ :=
  { s.cancelTimer with saveGeneration := s.saveGeneration + 1 }

/-- `_claim_timer`: the generation to save, unless the expected one is superseded. -/
def claimTimer (s : SessionState τ) (expectedGeneration : Option ℕ) :
    Option (ℕ × SessionState τ) :=
  if ∃ g ∈ expectedGeneration, g ≠ s.saveGeneration ∨ s.saveTimer = none then none
  else some (s.saveGeneration, s.cancelTimer)

variable [DecidableEq τ]

/-- The reentrant store lock is free for a thread. -/
def storeFree (s : SessionState τ) (i : τ) : Prop := s.storeLock = none ∨ s.storeLock = some i

instance (s : SessionState τ) (i : τ) : Decidable (s.storeFree i) :=
  inferInstanceAs (Decidable (_ ∨ _))

def goto (s : SessionState τ) (i : τ) (p : SavePc) : SessionState τ :=
  { s with pc := Function.update s.pc i p }

/-- The call ends; a store lock held across it is released. -/
def leave (s : SessionState τ) (i : τ) : SessionState τ :=
  { s.goto i .idle with storeLock := if s.storeLock = some i then none else s.storeLock }

/-- The first store section of a call that changes the store. -/
def mutate (s : SessionState τ) (i : τ) (op : StoreOp) : SessionState τ :=
  let store := (s.store.apply op).1
  let data := store.snapshotForPersistence
  let changed := { s with
    store := store
    dirty := true
    storeLock := some i
    mutations := s.mutations ++ [(op, data)] }
  match (s.store.apply op).2 with
  | .nothing => { s with store := store }
  | .scheduleSave => changed.goto i .scheduling
  | .writeCurrentState => changed.goto i (.invalidating data (s.version + 1))

/-- The next section of the call a thread is in; `none` while it has to wait. -/
def advance (s : SessionState τ) (i : τ) : Option (SessionState τ) :=
  match s.pc i with
  | .idle => none
  | .scheduling => some (s.scheduleTimer.goto i (.starting (s.saveGeneration + 1)))
  | .starting generation => some ({ s with started := generation :: s.started }.leave i)
  | .invalidating snapshot version =>
    some (s.invalidatePending.goto i (.pending ⟨s.saveGeneration + 1, snapshot, version⟩))
  | .claiming expectedGeneration =>
    match s.claimTimer expectedGeneration with
    | none => some (s.leave i)
    | some (generation, s) => some (s.goto i (.snapshotting generation))
  | .snapshotting generation =>
    if s.storeFree i then
      some (s.goto i (.pending ⟨generation, s.store.snapshotForPersistence, s.version⟩))
    else none
  | .pending write =>
    if s.writerLock = none then some ({ s with writerLock := some i }.goto i (.checking write))
    else none
  | .checking write =>
    if write.generation ≠ s.saveGeneration then some ({ s with writerLock := none }.leave i)
    else some (s.goto i (.writing write))
  | .writing write =>
    some ({ s with
      writerLock := none
      written := s.written ++ [write] }.goto i (.marking write.generation))
  | .failing => if s.storeFree i then some ({ s with dirty := true }.leave i) else none
  | .marking generation =>
    if s.saveTimer = none ∧ generation = s.saveGeneration then some (s.goto i .cleaning)
    else some (s.leave i)
  | .cleaning => if s.storeFree i then some ({ s with dirty := false }.leave i) else none

/-- What a thread does next. -/
inductive Action where
  /-- An idle thread calls an operation of the store. -/
  | call (op : StoreOp)
  /-- An idle thread calls `flush_pending_save`. -/
  | flush
  /-- The timer of a generation fires on an idle thread. -/
  | fire (generation : ℕ)
  | advance
  /-- Starting the timer, or writing the file, raises. -/
  | fail

def act (s : SessionState τ) (i : τ) : Action → Option (SessionState τ)
  | .call op => match s.pc i with
    | .idle => if s.storeLock = none then some (s.mutate i op) else none
    | _ => none
  | .flush => match s.pc i with
    | .idle =>
      if s.storeLock = none then some ({ s with dirty := true }.goto i (.claiming none)) else none
    | _ => none
  | .fire generation => match s.pc i with
    | .idle =>
      -- a timer fires once, and not after it was cancelled
      if generation ∈ s.started ∧ generation ∉ s.stopped then
        some ({ s with stopped := generation :: s.stopped }.goto i (.claiming (some generation)))
      else none
    | _ => none
  | .advance => s.advance i
  | .fail => match s.pc i with
    | .starting _ => some (s.leave i)
    | .writing _ => some ({ s with writerLock := none }.goto i .failing)
    | _ => none

end SessionState

/-- Runs of one session store that loaded any file, with any number of threads. -/
def sessionSystem (τ : Type) [DecidableEq τ] : System (SessionState τ) (τ × SessionState.Action) where
  init s := ∃ conversation rawMessages cap,
    s = .fresh (.load conversation rawMessages cap)
  step s a t := s.act a.1 a.2 = some t

end Switchboard.Messaging
