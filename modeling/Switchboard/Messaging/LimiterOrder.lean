import Switchboard.Messaging.Limiter

/-!
# The order of calls under one key

The calls made, the function held by the worker and the queued function of a key
form one trail. It stays sorted, and ends with the newest function that was queued,
as long as no task puts its function in the queue after a newer one of its key.
-/

namespace Switchboard.Messaging

namespace MessagingRateLimiter

variable {l l' : MessagingRateLimiter} {func : Submission} {futures : List QueueFuture}

def held (l : MessagingRateLimiter) : List Submission :=
  match l.worker with
  | .holding func _ => [func]
  | _ => []

def entry (l : MessagingRateLimiter) (key : String) : List Submission :=
  (l.queueMap.get? key).toList.map Prod.fst

/-- The futures of the queue and of the worker. -/
def Waits (l : MessagingRateLimiter) (future : QueueFuture) : Prop :=
  (∃ key func futures, l.queueMap.get? key = some (func, futures) ∧ future ∈ futures) ∨
    match l.worker with
    | .holding _ futures | .executing _ futures => future ∈ futures
    | _ => False

/-- List and map hold the same keys, each key once, and a function under its key. -/
structure Compact (l : MessagingRateLimiter) : Prop where
  nodup : l.queueList.Nodup
  listed : ∀ key, key ∈ l.queueList ↔ (l.queueMap.get? key).isSome
  keyed : ∀ {key func futures}, l.queueMap.get? key = some (func, futures) → func.dedupKey = key

theorem requireRunning_ok : l.requireRunning = .ok () ↔ l.closed = false ∧ l.worker ≠ .stopped := by
  unfold requireRunning
  split_ifs with hc hw <;> simp_all

/-- What putting a function in the queue changes. -/
structure Enqueued (l : MessagingRateLimiter) (func : Submission) (futures : List QueueFuture)
    (l' : MessagingRateLimiter) : Prop where
  running : l.requireRunning = .ok ()
  worker : l'.worker = l.worker
  closed : l'.closed = l.closed
  created : l'.created = l.created
  sleeping : l'.sleeping = l.sleeping
  queueMap : ∃ old, (∀ f ∈ old, l.Waits f) ∧ ∀ key, l'.queueMap.get? key =
    if key = func.dedupKey then some (func, old ++ futures) else l.queueMap.get? key
  compact : l.Compact → l'.Compact

theorem enqueueInternalMulti_ok {front : Bool}
    (h : l.enqueueInternalMulti func futures front = .ok l') : l.Enqueued func futures l' := by
  unfold enqueueInternalMulti at h
  cases hr : l.requireRunning with
  | error e =>
    rw [hr] at h
    cases h
  | ok _ =>
    rw [hr] at h
    obtain rfl := Except.ok.inj h
    cases hq : l.queueMap.get? func.dedupKey with
    | some entry =>
      obtain ⟨oldFunc, oldFutures⟩ := entry
      have hget : ∀ key, (l.queueMap.set func.dedupKey (func, oldFutures ++ futures)).get? key =
          if key = func.dedupKey then some (func, oldFutures ++ futures)
          else l.queueMap.get? key := fun key => Dict.get?_set _ _ _ _
      refine ⟨hr, rfl, rfl, rfl, rfl, ⟨oldFutures, ?_, hget⟩, ?_⟩
      · exact fun f hf => Or.inl ⟨_, _, _, hq, hf⟩
      · intro hc
        refine ⟨hc.nodup, ?_, ?_⟩
        · intro key
          simp only [hget, hc.listed]
          split_ifs with hk
          · simp [hk, hq]
          · rfl
        · intro key f fs hf
          simp only [hget] at hf
          split_ifs at hf with hk
          · cases hf
            exact hk.symm
          · exact hc.keyed hf
    | none =>
      have hget : ∀ key, (l.queueMap.set func.dedupKey (func, futures)).get? key =
          if key = func.dedupKey then some (func, futures) else l.queueMap.get? key :=
        fun key => Dict.get?_set _ _ _ _
      refine ⟨hr, rfl, rfl, rfl, rfl, ⟨[], by simp, by simpa using hget⟩, ?_⟩
      intro hc
      have hnew : func.dedupKey ∉ l.queueList := by
        rw [hc.listed, hq]
        simp
      have hmem : ∀ key, key ∈ (if front then func.dedupKey :: l.queueList
          else l.queueList ++ [func.dedupKey]) ↔ key = func.dedupKey ∨ key ∈ l.queueList := by
        intro key
        split_ifs <;> simp [or_comm]
      refine ⟨?_, ?_, ?_⟩
      · simp only
        split_ifs
        · exact List.nodup_cons.mpr ⟨hnew, hc.nodup⟩
        · exact hc.nodup.append (List.nodup_singleton _) (by simpa using hnew)
      · intro key
        simp only [hmem, hget, hc.listed]
        split_ifs with hk <;> simp [hk]
      · intro key f fs hf
        simp only [hget] at hf
        split_ifs at hf with hk
        · cases hf
          exact hk.symm
        · exact hc.keyed hf

theorem Enqueued.held (h : l.Enqueued func futures l') : l'.held = l.held := by
  unfold MessagingRateLimiter.held
  rw [h.worker]

theorem Enqueued.entry (h : l.Enqueued func futures l') (key : String) :
    l'.entry key = if key = func.dedupKey then [func] else l.entry key := by
  obtain ⟨old, -, hget⟩ := h.queueMap
  unfold MessagingRateLimiter.entry
  rw [hget]
  split_ifs <;> rfl

theorem Enqueued.waits (h : l.Enqueued func futures l') {w : QueueFuture} (hw : l'.Waits w) :
    l.Waits w ∨ w ∈ futures := by
  obtain ⟨old, hold, hget⟩ := h.queueMap
  rcases hw with ⟨key, f, fs, hf, hw⟩ | hw
  · rw [hget] at hf
    split_ifs at hf
    · cases hf
      rcases List.mem_append.mp hw with hw | hw
      · exact Or.inl (hold w hw)
      · exact Or.inr hw
    · exact Or.inl (Or.inl ⟨key, f, fs, hf, hw⟩)
  · rw [h.worker] at hw
    exact Or.inl (Or.inr hw)

theorem Enqueued.stillRunning (h : l.Enqueued func futures l') : l'.requireRunning = .ok () := by
  rw [requireRunning_ok, h.worker, h.closed]
  exact requireRunning_ok.mp h.running

/-- The `except` branch changes nothing but the sleeping tasks. -/
structure Slept (l : MessagingRateLimiter) (owners : List Submission)
    (l' : MessagingRateLimiter) : Prop where
  queueList : l'.queueList = l.queueList
  queueMap : l'.queueMap = l.queueMap
  worker : l'.worker = l.worker
  closed : l'.closed = l.closed
  created : l'.created = l.created
  sleeping : ∀ p ∈ l'.sleeping, p ∈ l.sleeping ∨ p.1 ∈ owners

theorem Slept.compact {owners : List Submission} (h : l.Slept owners l') (hc : l.Compact) :
    l'.Compact := by
  refine ⟨?_, ?_, ?_⟩
  · rw [h.queueList]
    exact hc.nodup
  · rw [h.queueList, h.queueMap]
    exact hc.listed
  · rw [h.queueMap]
    exact hc.keyed

theorem Slept.waits {owners : List Submission} (h : l.Slept owners l') {w : QueueFuture} :
    l'.Waits w ↔ l.Waits w := by
  unfold Waits
  rw [h.queueMap, h.worker]

theorem slept_afterError (l : MessagingRateLimiter) (func : Submission) (attempt : ℕ)
    (errorMsg : String) : l.Slept [func] (l.afterError func attempt errorMsg) := by
  unfold afterError
  split_ifs
  · refine ⟨rfl, rfl, rfl, rfl, rfl, ?_⟩
    intro p hp
    rcases List.mem_append.mp hp with hp | hp
    · exact Or.inl hp
    · rw [List.mem_singleton] at hp
      exact Or.inr (by simp [hp])
  · exact ⟨rfl, rfl, rfl, rfl, rfl, fun _ => Or.inl⟩

theorem slept_raiseTo (errorMsg : String) (futures : List QueueFuture)
    (l : MessagingRateLimiter) :
    l.Slept (futures.map (·.owner)) (futures.foldl (raiseTo errorMsg) l) := by
  induction futures generalizing l with
  | nil => exact ⟨rfl, rfl, rfl, rfl, rfl, fun _ => Or.inl⟩
  | cons future futures ih =>
    have hone : l.Slept [future.owner] (raiseTo errorMsg l future) := by
      unfold raiseTo
      cases future.attempt with
      | some attempt => exact slept_afterError l _ attempt errorMsg
      | none => exact ⟨rfl, rfl, rfl, rfl, rfl, fun _ => Or.inl⟩
    have hrest := ih (raiseTo errorMsg l future)
    refine ⟨hrest.queueList.trans hone.queueList, hrest.queueMap.trans hone.queueMap,
      hrest.worker.trans hone.worker, hrest.closed.trans hone.closed,
      hrest.created.trans hone.created, ?_⟩
    intro p hp
    rcases hrest.sleeping p hp with hp | hp
    · refine (hone.sleeping p hp).imp_right fun h => ?_
      rw [List.mem_singleton] at h
      simp [h]
    · exact Or.inr (List.mem_cons_of_mem _ hp)

/-- An attempt puts the function in the queue, or fails on a limiter that is not running. -/
theorem tryEnqueue_cases (l : MessagingRateLimiter) (func : Submission) (attempt : ℕ) :
    l.Enqueued func [⟨func, some attempt⟩] (l.tryEnqueue func attempt) ∨
      l.requireRunning ≠ .ok () ∧ l.Slept [func] (l.tryEnqueue func attempt) := by
  unfold tryEnqueue
  split
  · next h => exact Or.inl (enqueueInternalMulti_ok h)
  · next e h =>
    refine Or.inr ⟨?_, slept_afterError _ _ _ _⟩
    intro hr
    unfold enqueueInternalMulti at h
    rw [hr] at h
    cases h

/-- The worker takes the function queued under the first key. -/
theorem takeNext_cases (hc : l.Compact) :
    l.takeNext = l ∨ ∃ key rest func futures, l.worker = .idle ∧
      l.closed = false ∧ l.queueList = key :: rest ∧
      l.queueMap.get? key = some (func, futures) ∧ l.takeNext =
        { l with
          queueList := rest
          queueMap := l.queueMap.erase key
          worker := .holding func futures } := by
  unfold takeNext
  split
  · next key rest hw hcl hl =>
    have hkey := (hc.listed key).mp (by simp [hl])
    obtain ⟨⟨func, futures⟩, hget⟩ := Option.isSome_iff_exists.mp hkey
    simp only [hget]
    exact Or.inr ⟨key, rest, func, futures, hw, hcl, hl, hget, by rw [hcl]⟩
  · exact Or.inl rfl

theorem Compact.takeNext (hc : l.Compact) : l.takeNext.Compact := by
  rcases takeNext_cases hc with h | ⟨key, rest, func, futures, -, -, hl, -, h⟩
  · rw [h]
    exact hc
  · rw [h]
    have hnodup := hc.nodup
    rw [hl, List.nodup_cons] at hnodup
    refine ⟨hnodup.2, ?_, ?_⟩
    · intro k
      have hk := hc.listed k
      rw [hl, List.mem_cons] at hk
      change k ∈ rest ↔ ((l.queueMap.erase key).get? k).isSome
      rw [Dict.get?_erase]
      split_ifs with hkey
      · simp [hkey, hnodup.1]
      · rw [← hk]
        simp [hkey]
    · intro k f fs hf
      change (l.queueMap.erase key).get? k = some (f, fs) at hf
      rw [Dict.get?_erase] at hf
      split_ifs at hf
      exact hc.keyed hf

end MessagingRateLimiter

namespace LimiterRun

variable {r r' : LimiterRun} {func : Submission}

/-- The calls made under a key, the function held and the one queued. -/
def trail (r : LimiterRun) (key : String) : List Submission :=
  ((r.executed ++ r.limiter.held).filter fun f => f.dedupKey = key) ++ r.limiter.entry key

/-- No submission of its key after `func` has been put in the queue. -/
def Newest (r : LimiterRun) (func : Submission) : Prop :=
  ∀ g ∈ r.queued, g.dedupKey = func.dedupKey → g.number ≤ func.number

/-- A task puts its function in the queue, first or again, only while it is the newest. -/
def NoOvertake (r : LimiterRun) : LimiterOp → Prop
  | .beginTask => ∀ func rest, r.limiter.created = func :: rest → r.Newest func
  | .retry func _ => r.Newest func
  | _ => True

/-! ## Trails -/

structure Trailing (r : LimiterRun) : Prop where
  replaced : ∀ p ∈ r.replaced, p.1.number ≤ p.2.number
  sorted : ∀ key, (r.trail key).Pairwise fun f g => f.number ≤ g.number
  queued : ∀ key, ∀ f ∈ r.trail key, f ∈ r.queued ∧ f.dedupKey = key
  last : r.interrupted = false → ∀ f ∈ r.queued,
    ∃ g, (r.trail f.dedupKey).getLast? = some g ∧ f.number ≤ g.number

/-- A step that only moves a function along its trail. -/
theorem Trailing.moved (ht : r.Trailing) (htrail : ∀ key, r'.trail key = r.trail key)
    (hq : r'.queued = r.queued) (hrep : r'.replaced = r.replaced)
    (hint : r'.interrupted = r.interrupted) : r'.Trailing := by
  refine ⟨hrep ▸ ht.replaced, ?_, ?_, ?_⟩
  · intro key
    rw [htrail]
    exact ht.sorted key
  · intro key
    rw [htrail, hq]
    exact ht.queued key
  · rw [hint, hq]
    intro h f hf
    rw [htrail]
    exact ht.last h f hf

/-- A step that cuts trails short. -/
theorem Trailing.cut (ht : r.Trailing) (htrail : ∀ key, (r'.trail key).Sublist (r.trail key))
    (hq : r'.queued = r.queued) (hrep : r'.replaced = r.replaced)
    (hint : r'.interrupted = true) : r'.Trailing := by
  refine ⟨hrep ▸ ht.replaced, ?_, ?_, ?_⟩
  · exact fun key => (ht.sorted key).sublist (htrail key)
  · intro key f hf
    rw [hq]
    exact ht.queued key f ((htrail key).subset hf)
  · intro h
    rw [hint] at h
    cases h

/-- A step that queues the newest function of a key. -/
theorem Trailing.put (ht : r.Trailing) (hnew : r.Newest func)
    (hq : r'.queued = r.queued ++ [func])
    (hrep : r'.replaced = r.replaced ++ (r.limiter.entry func.dedupKey).map fun old => (old, func))
    (hint : r'.interrupted = r.interrupted) (hexec : r'.executed = r.executed)
    (hheld : r'.limiter.held = r.limiter.held)
    (hentry : ∀ key, r'.limiter.entry key =
      if key = func.dedupKey then [func] else r.limiter.entry key) : r'.Trailing := by
  have hbound : ∀ f ∈ r.trail func.dedupKey, f.number ≤ func.number := fun f hf =>
    hnew f (ht.queued _ f hf).1 (ht.queued _ f hf).2
  have hself : r'.trail func.dedupKey =
      ((r.executed ++ r.limiter.held).filter fun f => f.dedupKey = func.dedupKey) ++ [func] := by
    unfold trail
    rw [hexec, hheld, hentry, if_pos rfl]
  have hother : ∀ key, key ≠ func.dedupKey → r'.trail key = r.trail key := by
    intro key hkey
    unfold trail
    rw [hexec, hheld, hentry, if_neg hkey]
  have hearlier : ∀ f ∈ (r.executed ++ r.limiter.held).filter fun f => f.dedupKey = func.dedupKey,
      f ∈ r.trail func.dedupKey := fun f hf => List.mem_append_left _ hf
  refine ⟨?_, ?_, ?_, ?_⟩
  · rw [hrep]
    intro p hp
    rcases List.mem_append.mp hp with hp | hp
    · exact ht.replaced p hp
    · obtain ⟨old, hold, rfl⟩ := List.mem_map.mp hp
      exact hbound old (List.mem_append_right _ hold)
  · intro key
    by_cases hkey : key = func.dedupKey
    · rw [hkey, hself, List.pairwise_append]
      refine ⟨(List.pairwise_append.mp (ht.sorted _)).1, List.pairwise_singleton _ _, ?_⟩
      intro f hf g hg
      rw [List.mem_singleton] at hg
      rw [hg]
      exact hbound f (hearlier f hf)
    · rw [hother key hkey]
      exact ht.sorted key
  · intro key f hf
    rw [hq, List.mem_append]
    by_cases hkey : key = func.dedupKey
    · rw [hkey, hself] at hf
      rcases List.mem_append.mp hf with hf | hf
      · obtain ⟨h1, h2⟩ := ht.queued _ f (hearlier f hf)
        exact ⟨Or.inl h1, h2.trans hkey.symm⟩
      · rw [List.mem_singleton] at hf
        exact ⟨Or.inr (by simp [hf]), by rw [hf, hkey]⟩
    · rw [hother key hkey] at hf
      exact ⟨Or.inl (ht.queued key f hf).1, (ht.queued key f hf).2⟩
  · intro h f hf
    rw [hint] at h
    rw [hq] at hf
    have hcases : f ∈ r.queued ∨ f = func := by simpa using hf
    by_cases hkey : f.dedupKey = func.dedupKey
    · refine ⟨func, by rw [hkey, hself, List.getLast?_concat], ?_⟩
      rcases hcases with hf | rfl
      · exact hnew f hf hkey
      · exact le_refl _
    · have hf : f ∈ r.queued := hcases.resolve_right fun h => hkey (by rw [h])
      rw [hother _ hkey]
      exact ht.last h f hf

/-! ## Where submissions are -/

/-- Everything in the limiter comes from a submission, and nothing is lost before
an interruption. -/
structure Tracked (r : LimiterRun) : Prop where
  compact : r.limiter.Compact
  numbered : ∀ f ∈ r.submitted, f.number < r.submitted.length
  created : ∀ f ∈ r.limiter.created, f ∈ r.submitted
  sleeping : ∀ p ∈ r.limiter.sleeping, p.1 ∈ r.submitted
  waits : ∀ w, r.limiter.Waits w → w.owner ∈ r.submitted
  queued : ∀ f ∈ r.queued, f ∈ r.submitted
  reached : r.interrupted = false → ∀ f ∈ r.submitted, f ∈ r.queued ∨ f ∈ r.limiter.created
  running : r.interrupted = false → r.submitted ≠ [] → r.limiter.requireRunning = .ok ()

/-! ## Attempts -/

theorem record_running (h : r.limiter.requireRunning = .ok ()) :
    r.record func = { r with
      queued := r.queued ++ [func]
      replaced := r.replaced ++ (r.limiter.entry func.dedupKey).map fun old => (old, func) } := by
  unfold record
  rw [h]
  simp [MessagingRateLimiter.entry]

theorem record_refused (h : r.limiter.requireRunning ≠ .ok ()) : r.record func = r := by
  unfold record
  split
  · rfl
  · next hr => exact absurd hr h

variable {created : List Submission} {sleeping : List (Submission × ℕ)} {attempt : ℕ}

theorem Trailing.tried (ht : r.Trailing) (hnew : r.Newest func) :
    Trailing { r.record func with
      limiter := { r.limiter with created := created, sleeping := sleeping }.tryEnqueue func
        attempt } := by
  rcases MessagingRateLimiter.tryEnqueue_cases
    { r.limiter with created := created, sleeping := sleeping } func attempt with he | ⟨hr, hs⟩
  · rw [record_running he.running]
    exact ht.put hnew rfl rfl rfl rfl he.held he.entry
  · rw [record_refused hr]
    refine ht.moved ?_ rfl rfl rfl
    intro key
    simp only [trail, MessagingRateLimiter.held, MessagingRateLimiter.entry, hs.worker, hs.queueMap]

theorem Tracked.tried (ht : r.Tracked) (hfunc : func ∈ r.submitted)
    (hcreated : ∀ f ∈ created, f ∈ r.limiter.created)
    (hkept : ∀ f ∈ r.limiter.created, f = func ∨ f ∈ created)
    (hsleeping : ∀ p ∈ sleeping, p ∈ r.limiter.sleeping) :
    Tracked { r.record func with
      limiter := { r.limiter with created := created, sleeping := sleeping }.tryEnqueue func
        attempt } := by
  have hcompact : MessagingRateLimiter.Compact
      { r.limiter with created := created, sleeping := sleeping } :=
    ⟨ht.compact.nodup, ht.compact.listed, ht.compact.keyed⟩
  rcases MessagingRateLimiter.tryEnqueue_cases
    { r.limiter with created := created, sleeping := sleeping } func attempt with he | ⟨hr, hs⟩
  · rw [record_running he.running]
    refine ⟨he.compact hcompact, ht.numbered, ?_, ?_, ?_, ?_, ?_, fun _ _ => he.stillRunning⟩
    · intro f hf
      rw [he.created] at hf
      exact ht.created f (hcreated f hf)
    · intro p hp
      rw [he.sleeping] at hp
      exact ht.sleeping p (hsleeping p hp)
    · intro w hw
      rcases he.waits hw with hw | hw
      · exact ht.waits w hw
      · rw [List.mem_singleton] at hw
        rw [hw]
        exact hfunc
    · intro f hf
      rcases List.mem_append.mp hf with hf | hf
      · exact ht.queued f hf
      · rw [List.mem_singleton] at hf
        exact hf ▸ hfunc
    · intro hint f hf
      rw [he.created, List.mem_append, List.mem_singleton]
      rcases ht.reached hint f hf with h | h
      · exact Or.inl (Or.inl h)
      · exact (hkept f h).imp Or.inr id
  · rw [record_refused hr]
    refine ⟨hs.compact hcompact, ht.numbered, ?_, ?_, ?_, ht.queued, ?_, ?_⟩
    · intro f hf
      rw [hs.created] at hf
      exact ht.created f (hcreated f hf)
    · intro p hp
      rcases hs.sleeping p hp with hp | hp
      · exact ht.sleeping p (hsleeping p hp)
      · rw [List.mem_singleton] at hp
        exact hp ▸ hfunc
    · exact fun w hw => ht.waits w (hs.waits.mp hw)
    · exact fun hint => absurd (ht.running hint (List.ne_nil_of_mem hfunc)) hr
    · exact fun hint => absurd (ht.running hint (List.ne_nil_of_mem hfunc)) hr

/-! ## Steps -/

theorem newest_submission (ht : r.Tracked) (key : String) : r.Newest (r.submission key) :=
  fun g hg _ => (ht.numbered g (ht.queued g hg)).le

theorem Tracked.numbered_append (ht : r.Tracked) (key : String) :
    ∀ f ∈ r.submitted ++ [r.submission key],
      f.number < (r.submitted ++ [r.submission key]).length := by
  intro f hf
  rw [List.length_append, List.length_singleton]
  rcases List.mem_append.mp hf with hf | hf
  · exact (ht.numbered f hf).trans (Nat.lt_succ_self _)
  · rw [List.mem_singleton.mp hf]
    exact Nat.lt_succ_self _

attribute [local simp] next in
theorem trailing_enqueue (ht : r.Tracked) (hr : r.Trailing) (key : String) :
    (r.next (.enqueue key)).Trailing := by
  simp only [next]
  split
  · next l h =>
    have he := MessagingRateLimiter.enqueueInternalMulti_ok h
    rw [record_running he.running]
    exact hr.put (newest_submission ht key) rfl rfl rfl rfl he.held he.entry
  · exact hr

theorem tracked_enqueue (ht : r.Tracked) (key : String) : (r.next (.enqueue key)).Tracked := by
  simp only [next]
  split
  · next l h =>
    have he := MessagingRateLimiter.enqueueInternalMulti_ok h
    rw [record_running he.running]
    have hold : ∀ {f}, f ∈ r.submitted → f ∈ r.submitted ++ [r.submission key] :=
      fun hf => List.mem_append_left _ hf
    have hnew : r.submission key ∈ r.submitted ++ [r.submission key] :=
      List.mem_append_right _ (List.mem_singleton_self _)
    refine ⟨he.compact ht.compact, ht.numbered_append key, ?_, ?_, ?_, ?_, ?_,
      fun _ _ => he.stillRunning⟩
    · intro f hf
      rw [he.created] at hf
      exact hold (ht.created f hf)
    · intro p hp
      rw [he.sleeping] at hp
      exact hold (ht.sleeping p hp)
    · intro w hw
      rcases he.waits hw with hw | hw
      · exact hold (ht.waits w hw)
      · rw [List.mem_singleton.mp hw]
        exact hnew
    · intro f hf
      rcases List.mem_append.mp hf with hf | hf
      · exact hold (ht.queued f hf)
      · rw [List.mem_singleton.mp hf]
        exact hnew
    · intro hint f hf
      rw [he.created]
      rcases List.mem_append.mp hf with hf | hf
      · exact (ht.reached hint f hf).imp_left fun h => List.mem_append_left _ h
      · exact Or.inl (List.mem_append_right _ hf)
  · exact ht

theorem tracked_fireAndForget (ht : r.Tracked) (key : String) :
    (r.next (.fireAndForget key)).Tracked := by
  simp only [next, MessagingRateLimiter.fireAndForget]
  cases hrun : r.limiter.requireRunning with
  | error e => exact ht
  | ok _ =>
    have hold : ∀ {f}, f ∈ r.submitted → f ∈ r.submitted ++ [r.submission key] :=
      fun hf => List.mem_append_left _ hf
    refine ⟨⟨ht.compact.nodup, ht.compact.listed, ht.compact.keyed⟩, ht.numbered_append key,
      ?_, ?_, ?_, ?_, ?_, ?_⟩
    · intro f hf
      exact (List.mem_append.mp hf).elim (fun hf => hold (ht.created f hf))
        fun hf => List.mem_append_right _ hf
    · exact fun p hp => hold (ht.sleeping p hp)
    · exact fun w hw => hold (ht.waits w hw)
    · exact fun f hf => hold (ht.queued f hf)
    · intro hint f hf
      rcases List.mem_append.mp hf with hf | hf
      · exact (ht.reached hint f hf).imp_right fun h => List.mem_append_left _ h
      · exact Or.inr (List.mem_append_right _ hf)
    · exact fun _ _ => hrun

theorem trailing_takeNext (hc : r.limiter.Compact) (hr : r.Trailing) :
    (r.next .takeNext).Trailing := by
  simp only [next]
  rcases MessagingRateLimiter.takeNext_cases hc with
    h | ⟨key, rest, func, futures, hw, -, -, hget, h⟩
  · rw [h]
    exact hr
  · rw [h]
    refine hr.moved ?_ rfl rfl rfl
    intro k
    have hkey := hc.keyed hget
    simp only [trail, MessagingRateLimiter.held, MessagingRateLimiter.entry, hw, Dict.get?_erase,
      List.append_nil]
    by_cases hk : k = key
    · simp [hk, hkey, hget]
    · have hne : func.dedupKey ≠ k := fun h => hk (h.symm.trans hkey)
      simp [hk, hne]

theorem tracked_takeNext (ht : r.Tracked) : (r.next .takeNext).Tracked := by
  have hcompact := ht.compact.takeNext
  simp only [next]
  rcases MessagingRateLimiter.takeNext_cases ht.compact with
    h | ⟨key, rest, func, futures, hw, hcl, hl, hget, h⟩
  · rw [h]
    exact ht
  · rw [h] at hcompact ⊢
    refine ⟨hcompact, ht.numbered, ht.created, ht.sleeping, ?_, ht.queued, ht.reached, ?_⟩
    · rintro w (⟨k, f, fs, hf, hw'⟩ | hw')
      · change (r.limiter.queueMap.erase key).get? k = some (f, fs) at hf
        rw [Dict.get?_erase] at hf
        split_ifs at hf
        exact ht.waits w (Or.inl ⟨k, f, fs, hf, hw'⟩)
      · exact ht.waits w (Or.inl ⟨key, func, futures, hget, hw'⟩)
    · intro _ _
      exact MessagingRateLimiter.requireRunning_ok.mpr ⟨hcl, by simp⟩

/-- A call settles futures and lets tasks sleep; queue and trails stay. -/
theorem finish_cases (l : MessagingRateLimiter) (result : CallResult) :
    l.finish result = l ∨ ∃ func futures, l.worker = .executing func futures ∧
      ({ l with worker := if l.closed then .stopped else .idle } : MessagingRateLimiter).Slept
        (futures.map (·.owner)) (l.finish result) := by
  unfold MessagingRateLimiter.finish
  split
  · next func futures hw =>
    refine Or.inr ⟨func, futures, hw, ?_⟩
    cases result with
    | failed errorMsg => exact MessagingRateLimiter.slept_raiseTo errorMsg futures _
    | returned => exact ⟨rfl, rfl, rfl, rfl, rfl, fun _ => Or.inl⟩
    | cancelled => exact ⟨rfl, rfl, rfl, rfl, rfl, fun _ => Or.inl⟩
  · exact Or.inl rfl

theorem trailing_finish (hr : r.Trailing) (result : CallResult) :
    (r.next (.finish result)).Trailing := by
  simp only [next]
  rcases finish_cases r.limiter result with h | ⟨func, futures, hw, hs⟩
  · rw [h]
    exact hr
  · refine hr.moved ?_ rfl rfl rfl
    intro key
    simp only [trail, MessagingRateLimiter.held, MessagingRateLimiter.entry, hs.worker, hs.queueMap,
      hw]
    cases r.limiter.closed <;> rfl

theorem tracked_finish (ht : r.Tracked) (result : CallResult) :
    (r.next (.finish result)).Tracked := by
  simp only [next]
  rcases finish_cases r.limiter result with h | ⟨func, futures, hw, hs⟩
  · rw [h]
    exact ht
  · have howner : ∀ w ∈ futures, w.owner ∈ r.submitted := by
      intro w hf
      refine ht.waits w (Or.inr ?_)
      rw [hw]
      exact hf
    refine ⟨hs.compact ⟨ht.compact.nodup, ht.compact.listed, ht.compact.keyed⟩, ht.numbered,
      ?_, ?_, ?_, ht.queued, ?_, ?_⟩
    · rw [hs.created]
      exact ht.created
    · intro p hp
      rcases hs.sleeping p hp with hp | hp
      · exact ht.sleeping p hp
      · obtain ⟨w, hf, hp⟩ := List.mem_map.mp hp
        exact hp ▸ howner w hf
    · intro w hf
      rcases hs.waits.mp hf with hf | hf
      · exact ht.waits w (Or.inl hf)
      · cases hcl : r.limiter.closed <;> simp [hcl] at hf
    · rw [hs.created]
      exact ht.reached
    · intro hint hne
      have hcl := (MessagingRateLimiter.requireRunning_ok.mp (ht.running hint hne)).1
      rw [MessagingRateLimiter.requireRunning_ok, hs.closed, hs.worker]
      simp [hcl]

theorem trailing_call (hr : r.Trailing) : (r.next .call).Trailing := by
  simp only [next]
  split
  · next func futures hw hcl =>
    refine hr.moved ?_ rfl rfl rfl
    intro key
    simp [trail, MessagingRateLimiter.call, MessagingRateLimiter.held, MessagingRateLimiter.entry, hw, hcl]
  · exact hr

theorem tracked_call (ht : r.Tracked) : (r.next .call).Tracked := by
  simp only [next]
  split
  · next func futures hw hcl =>
    have hcall : r.limiter.call = { r.limiter with worker := .executing func futures } := by
      simp only [MessagingRateLimiter.call, hw, hcl]
    rw [hcall]
    refine ⟨⟨ht.compact.nodup, ht.compact.listed, ht.compact.keyed⟩, ht.numbered, ht.created,
      ht.sleeping, ?_, ht.queued, ht.reached, ?_⟩
    · rintro w (hf | hf)
      · exact ht.waits w (Or.inl hf)
      · exact ht.waits w (Or.inr (by rw [hw]; exact hf))
    · exact fun _ _ => MessagingRateLimiter.requireRunning_ok.mpr ⟨hcl, by simp⟩
  · exact ht

/-- What the invariant says of a run. -/
structure Invariant (r : LimiterRun) : Prop where
  tracked : r.Tracked
  trailing : r.Trailing

theorem Invariant.next (hr : r.Invariant) {op : LimiterOp} (hop : r.NoOvertake op) :
    (r.next op).Invariant := by
  obtain ⟨ht, htr⟩ := hr
  cases op with
  | start =>
    simp only [LimiterRun.next, MessagingRateLimiter.start]
    split
    · next l h =>
      split_ifs at h with hcl hw
      · cases h
        refine ⟨⟨⟨ht.compact.nodup, ht.compact.listed, ht.compact.keyed⟩, ht.numbered, ht.created,
          ht.sleeping, ?_, ht.queued, ht.reached, ?_⟩, ?_⟩
        · rintro w (hf | hf)
          · exact ht.waits w (Or.inl hf)
          · exact hf.elim
        · intro _ _
          exact MessagingRateLimiter.requireRunning_ok.mpr ⟨by simpa using hcl, by simp⟩
        · refine htr.moved ?_ rfl rfl rfl
          intro key
          simp [trail, MessagingRateLimiter.held, MessagingRateLimiter.entry, hw]
      · cases h
        exact ⟨ht, htr⟩
    · exact ⟨ht, htr⟩
  | fireAndForget key =>
    refine ⟨tracked_fireAndForget ht key, ?_⟩
    simp only [LimiterRun.next, MessagingRateLimiter.fireAndForget]
    cases r.limiter.requireRunning with
    | error e => exact htr
    | ok _ => exact htr.moved (fun _ => rfl) rfl rfl rfl
  | enqueue key => exact ⟨tracked_enqueue ht key, trailing_enqueue ht htr key⟩
  | beginTask =>
    simp only [LimiterRun.next]
    split
    · next func rest hcr =>
      have hbegin : r.limiter.beginTask = { r.limiter with
          created := rest, sleeping := r.limiter.sleeping }.tryEnqueue func 0 := by
        simp only [MessagingRateLimiter.beginTask, hcr]
      rw [hbegin]
      refine ⟨ht.tried (ht.created func (by simp [hcr])) ?_ ?_ (fun _ => id),
        htr.tried (hop func rest hcr)⟩
      · exact fun f hf => by simp [hcr, hf]
      · exact fun f hf => by simpa [hcr] using hf
    · exact ⟨ht, htr⟩
  | retry func attempt =>
    simp only [LimiterRun.next]
    split_ifs with hs
    · have hretry : r.limiter.retry func attempt = { r.limiter with
          created := r.limiter.created
          sleeping := r.limiter.sleeping.erase (func, attempt) }.tryEnqueue func
            (attempt + 1) := by
        simp only [MessagingRateLimiter.retry, if_pos hs]
      rw [hretry]
      exact ⟨ht.tried (ht.sleeping _ hs) (fun _ => id) (fun _ => Or.inr)
        (fun p hp => List.mem_of_mem_erase hp), htr.tried hop⟩
    · exact ⟨ht, htr⟩
  | takeNext => exact ⟨tracked_takeNext ht, trailing_takeNext ht.compact htr⟩
  | call => exact ⟨tracked_call ht, trailing_call htr⟩
  | finish result => exact ⟨tracked_finish ht result, trailing_finish htr result⟩
  | cancelWorker =>
    refine ⟨⟨⟨ht.compact.nodup, ht.compact.listed, ht.compact.keyed⟩, ht.numbered, ht.created,
      ht.sleeping, ?_, ht.queued, (by rintro ⟨⟩), (by rintro ⟨⟩)⟩, htr.cut ?_ rfl rfl rfl⟩
    · rintro w (hf | hf)
      · exact ht.waits w (Or.inl hf)
      · exact hf.elim
    · intro key
      refine List.Sublist.append_right (List.Sublist.filter _ ?_) _
      exact List.Sublist.append_left (List.nil_sublist _) _
  | shutdown =>
    refine ⟨⟨⟨List.nodup_nil, by simp [LimiterRun.next, MessagingRateLimiter.shutdown], ?_⟩,
      ht.numbered, ?_, ?_, ?_, ht.queued, (by rintro ⟨⟩), (by rintro ⟨⟩)⟩, htr.cut ?_ rfl rfl rfl⟩
    · rintro key f fs ⟨⟩
    · rintro f ⟨⟩
    · rintro p ⟨⟩
    · rintro w (⟨_, _, _, ⟨⟩, _⟩ | hf)
      exact ht.waits w (Or.inr hf)
    · exact fun key => List.Sublist.append_left (List.nil_sublist _) _

theorem invariant_of_reach (hr : limiterSystem.Reach NoOvertake r) : r.Invariant := by
  refine hr.invariant (P := Invariant) ?_ ?_
  · rintro r rfl
    refine ⟨⟨⟨List.nodup_nil, by simp, ?_⟩, by simp, by simp, by simp, ?_, by simp, by simp,
      by simp⟩, ⟨by simp, fun _ => List.Pairwise.nil, ?_, by simp⟩⟩
    · rintro key f fs ⟨⟩
    · rintro w (⟨_, _, _, ⟨⟩, _⟩ | hf)
      exact hf.elim
    · rintro key f ⟨⟩
  · rintro r op _ - hr hop rfl
    exact hr.next hop

/-- The last call of a settled key is that of its last submission. -/
theorem Invariant.shown (hr : r.Invariant) (hint : r.interrupted = false) {f : Submission}
    (hf : f ∈ r.submitted) (hs : r.Settled f.dedupKey) :
    ∃ g, (r.executed.filter fun h => h.dedupKey = f.dedupKey).getLast? = some g ∧
      f.number ≤ g.number := by
  obtain ⟨hlist, hcreated, hheld⟩ := hs
  have hq : f ∈ r.queued :=
    (hr.tracked.reached hint f hf).resolve_right fun h => hcreated f h rfl
  obtain ⟨g, hg, hle⟩ := hr.trailing.last hint f hq
  refine ⟨g, ?_, hle⟩
  have hentry : r.limiter.entry f.dedupKey = [] := by
    rw [hr.tracked.compact.listed, Bool.not_eq_true, Option.isSome_eq_false_iff,
      Option.isNone_iff_eq_none] at hlist
    unfold MessagingRateLimiter.entry
    rw [hlist]
    rfl
  have hnone : r.limiter.held.filter (fun h => h.dedupKey = f.dedupKey) = [] := by
    rw [List.filter_eq_nil_iff]
    intro h hh
    unfold MessagingRateLimiter.held at hh
    split at hh
    · next func futures hw =>
      rw [List.mem_singleton.mp hh, decide_eq_true_eq]
      exact hheld func futures hw
    · cases hh
  unfold trail at hg
  rwa [hentry, List.filter_append, hnone, List.append_nil, List.append_nil] at hg

end LimiterRun

section Example

/-- An edit fails with a lost connection, a newer edit of the message goes through,
and then the first is tried again. -/
def retriedOps : List LimiterOp :=
  [.start, .fireAndForget "edit:7:11", .beginTask, .takeNext, .call,
    .finish (.failed "connection lost"), .fireAndForget "edit:7:11", .beginTask, .takeNext, .call,
    .finish .returned, .retry ⟨"edit:7:11", 0⟩ 0, .takeNext, .call]

end Example

end Switchboard.Messaging
