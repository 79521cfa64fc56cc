import Switchboard.Messaging.LimiterOrder

/-!
# The futures of the messaging limiter

Every accepted call of `enqueue` waits for a future. The futures of a key move
with its entry: from the queue to the worker, which settles them when the call of
the function ends. A call may end in three ways that the worker handles, and in a
fourth that it does not: by a `BaseException` that is neither an `Exception` nor a
cancellation.
-/

namespace Switchboard.Messaging

namespace MessagingRateLimiter

variable {l l' : MessagingRateLimiter} {func : Submission} {futures : List QueueFuture}

/-- `_active_futures` -/
def activeFutures (l : MessagingRateLimiter) : List QueueFuture :=
  match l.worker with
  | .holding _ futures | .executing _ futures => futures
  | .stopped | .idle => []

def queuedFutures (l : MessagingRateLimiter) : List QueueFuture :=
  l.queueMap.values.flatMap Prod.snd

/-- The futures of all queued entries, followed by those of the entry that is executed. -/
def attached (l : MessagingRateLimiter) : List QueueFuture := l.queuedFutures ++ l.activeFutures

/-- Compaction appends the futures to those of the entry. -/
theorem attached_enqueueInternalMulti {front : Bool}
    (h : l.enqueueInternalMulti func futures front = .ok l') :
    l'.attached.Perm (futures ++ l.attached) := by
  have hworker := (enqueueInternalMulti_ok h).worker
  have hactive : l'.activeFutures = l.activeFutures := by
    unfold activeFutures
    rw [hworker]
  suffices hq : l'.queuedFutures.Perm (futures ++ l.queuedFutures) by
    unfold attached
    rw [hactive, ← List.append_assoc]
    exact hq.append_right _
  unfold enqueueInternalMulti at h
  cases hr : l.requireRunning with
  | error e =>
    rw [hr] at h
    cases h
  | ok _ =>
    rw [hr] at h
    obtain rfl := Except.ok.inj h
    cases hq : l.queueMap.get? func.dedupKey with
    | some entry =>
      obtain ⟨oldFunc, oldFutures⟩ := entry
      have hnew := (Dict.values_set_perm l.queueMap func.dedupKey
        (func, oldFutures ++ futures)).flatMap_right Prod.snd
      have hold := (Dict.values_perm_erase hq).flatMap_right Prod.snd
      simp only [List.flatMap_cons] at hnew hold
      refine hnew.trans ?_
      rw [List.append_assoc]
      refine List.perm_append_comm_assoc _ _ _ |>.trans ?_
      exact hold.symm.append_left futures
    | none =>
      have hnew := (Dict.values_set_perm l.queueMap func.dedupKey
        (func, futures)).flatMap_right Prod.snd
      rw [Dict.erase_of_get?_eq_none hq, List.flatMap_cons] at hnew
      exact hnew

/-- The entry that the worker takes keeps its futures. -/
theorem attached_takeNext (l : MessagingRateLimiter) : l.takeNext.attached.Perm l.attached := by
  unfold takeNext
  split
  · next key rest hworker hclosed hqueue =>
    split
    · next func futures hget =>
      have hold := (Dict.values_perm_erase hget).flatMap_right Prod.snd
      simp only [List.flatMap_cons] at hold
      have hactive : l.activeFutures = [] := by
        unfold activeFutures
        rw [hworker]
      unfold attached
      rw [hactive, List.append_nil]
      exact List.perm_append_comm.trans hold.symm
    · exact List.Perm.refl _
  · exact List.Perm.refl _

end MessagingRateLimiter

/-! ## Runs -/

/-- `enqueue` is a call with a key of the caller's or with one of its own, also an
attempt of a `fire_and_forget` task. `close` and `clear` are the two halves of
`shutdown`, before and under the lock of the queue. -/
inductive FutureOp where
  | start
  | enqueue (dedupKey : String)
  /-- The task that waits for the future is cancelled, and the future with it. -/
  | giveUp (future : QueueFuture)
  | takeNext
  | call
  | finish (result : CallResult)
  /-- The call raises a `BaseException` that is neither an `Exception` nor a
  `CancelledError`. -/
  | escape
  | cancelWorker
  | close
  | clear

structure FutureRun where
  limiter : MessagingRateLimiter := {}
  /-- The futures made so far by accepted calls of `enqueue`. -/
  accepted : List QueueFuture := []
  done : List QueueFuture := []
  /-- `shutdown` has emptied the queue. -/
  cleared : Bool := false

namespace FutureRun

open MessagingRateLimiter

/-- Every future that is not done gets a result, an error or a cancellation. -/
def settle (r : FutureRun) (futures : List QueueFuture) : FutureRun :=
  { r with done := r.done ++ futures.filter fun f => f ∉ r.done }

def submission (r : FutureRun) (dedupKey : String) : Submission := ⟨dedupKey, r.accepted.length⟩

/-- A step; one that is not possible, or raises, changes nothing. -/
def next (r : FutureRun) : FutureOp → FutureRun
  | .start => match r.limiter.start with
    | .ok l => { r with limiter := l }
    | .error _ => r
  | .enqueue key => match r.limiter.enqueue (r.submission key) with
    | .ok l => { r with limiter := l, accepted := r.accepted ++ [⟨r.submission key, none⟩] }
    | .error _ => r
  | .giveUp future => r.settle [future]
  | .takeNext => { r with limiter := r.limiter.takeNext }
  | .call => match r.limiter.worker with
    | .holding func futures =>
      { r with limiter := { r.limiter with worker := .executing func futures } }
    | _ => r
  | .finish result => match r.limiter.worker with
    | .executing _ futures => { r.settle futures with limiter := r.limiter.finish result }
    | _ => r
  -- `finally` forgets the futures, and the worker is gone
  | .escape => match r.limiter.worker with
    | .executing _ _ => { r with limiter := { r.limiter with worker := .stopped } }
    | _ => r
  | .cancelWorker =>
    { r.settle r.limiter.activeFutures with limiter := r.limiter.cancelWorker }
  | .close => { r with limiter := { r.limiter with closed := true } }
  | .clear =>
    if r.limiter.closed then
      { r.settle r.limiter.attached with limiter := r.limiter.shutdown, cleared := true }
    else r

/-- No future is forgotten. -/
structure Unforgotten (r : FutureRun) : Prop where
  nodup : r.limiter.queueList.Nodup
  keys : ∀ key, key ∈ r.limiter.queueList ↔ key ∈ r.limiter.queueMap.keys
  /-- Until it is done, a future is attached to one entry, once. -/
  attached : ∀ f ∈ r.accepted, f ∉ r.done → r.limiter.attached.count f = 1
  /-- After `shutdown`, every future is done. -/
  settled : r.cleared = true → ∀ f ∈ r.accepted, f ∈ r.done

/-- An exception that the worker does not handle leaves a call only when all its
futures are done. -/
def Contained (r : FutureRun) : FutureOp → Prop
  | .escape => ∀ func futures, r.limiter.worker = .executing func futures →
    ∀ f ∈ futures, f ∈ r.done
  | _ => True

end FutureRun

def futureSystem : System FutureRun FutureOp where
  init r := r = {}
  step r op r' := r' = r.next op

namespace FutureRun

open MessagingRateLimiter

variable {r : FutureRun}

/-! ## The invariant -/

/-- The futures that are attached are accepted ones, each attached once, and those
that are not attached are done. -/
structure Kept (r : FutureRun) : Prop where
  compact : r.limiter.Compact
  numbered : ∀ f ∈ r.accepted, f.owner.number < r.accepted.length
  once : r.limiter.attached.Nodup
  accepted : ∀ f ∈ r.limiter.attached, f ∈ r.accepted
  waiting : ∀ f ∈ r.accepted, f ∈ r.limiter.attached ∨ f ∈ r.done
  closed : r.cleared = true → r.limiter.closed = true
  settled : r.cleared = true → ∀ f ∈ r.accepted, f ∈ r.done

theorem Kept.unforgotten (hr : r.Kept) : r.Unforgotten := by
  refine ⟨hr.compact.nodup, ?_, ?_, hr.settled⟩
  · intro key
    rw [hr.compact.listed, Dict.mem_keys, Option.isSome_iff_exists]
  · intro f hf hdone
    exact List.count_eq_one_of_mem hr.once ((hr.waiting f hf).resolve_right hdone)

@[simp] theorem settle_limiter (futures : List QueueFuture) :
    (r.settle futures).limiter = r.limiter := rfl

@[simp] theorem settle_accepted (futures : List QueueFuture) :
    (r.settle futures).accepted = r.accepted := rfl

@[simp] theorem settle_cleared (futures : List QueueFuture) :
    (r.settle futures).cleared = r.cleared := rfl

theorem mem_settle {futures : List QueueFuture} {f : QueueFuture} :
    f ∈ (r.settle futures).done ↔ f ∈ r.done ∨ f ∈ futures := by
  unfold settle
  simp only [List.mem_append, List.mem_filter, decide_eq_true_eq]
  tauto

/-- A step of the worker that loses no future except those that are done. -/
theorem Kept.moved (hr : r.Kept) {l : MessagingRateLimiter} {done : List QueueFuture}
    (hcompact : l.Compact) (hclosed : r.limiter.closed = true → l.closed = true)
    (hsub : l.attached.Subperm r.limiter.attached) (hdone : ∀ f ∈ r.done, f ∈ done)
    (hkept : ∀ f ∈ r.limiter.attached, f ∈ l.attached ∨ f ∈ done) :
    Kept { r with limiter := l, done := done } := by
  refine ⟨hcompact, hr.numbered, ?_, ?_, ?_, ?_, ?_⟩
  · obtain ⟨kept, hperm, hsublist⟩ := hsub
    exact hperm.nodup_iff.mp (hr.once.sublist hsublist)
  · exact fun f hf => hr.accepted f (hsub.subset hf)
  · intro f hf
    rcases hr.waiting f hf with hf | hf
    · exact hkept f hf
    · exact Or.inr (hdone f hf)
  · exact fun h => hclosed (hr.closed h)
  · exact fun h f hf => hdone f (hr.settled h f hf)

theorem Kept.settle (hr : r.Kept) (futures : List QueueFuture) : (r.settle futures).Kept :=
  hr.moved hr.compact id (List.Subperm.refl _) (fun _ hf => mem_settle.mpr (Or.inl hf))
    fun _ hf => Or.inl hf

/-- The limiter is as before, apart from its worker. -/
theorem compact_worker {l : MessagingRateLimiter} (hl : l.Compact) (worker : Worker) :
    ({ l with worker } : MessagingRateLimiter).Compact :=
  ⟨hl.nodup, hl.listed, hl.keyed⟩

theorem Kept.start (hr : r.Kept) : (r.next .start).Kept := by
  simp only [next, MessagingRateLimiter.start]
  split_ifs with hclosed hworker
  · exact hr
  · have hattached : ({ r.limiter with worker := .idle } : MessagingRateLimiter).attached =
        r.limiter.attached := by
      simp only [attached, queuedFutures, activeFutures, hworker]
    refine hr.moved (compact_worker hr.compact _) id ?_ (fun _ => id) ?_
    · rw [hattached]
    · exact fun f hf => Or.inl (hattached ▸ hf)
  · exact hr

theorem Kept.enqueue (hr : r.Kept) (key : String) : (r.next (.enqueue key)).Kept := by
  simp only [next]
  cases h : r.limiter.enqueue (r.submission key) with
  | error e => exact hr
  | ok l =>
    have hperm := attached_enqueueInternalMulti h
    have hin := enqueueInternalMulti_ok h
    have hopen : r.cleared = true → False := by
      intro hcleared
      have hrunning := (requireRunning_ok.mp hin.running).1
      rw [hr.closed hcleared] at hrunning
      cases hrunning
    have hnew : (⟨r.submission key, none⟩ : QueueFuture) ∉ r.accepted := by
      intro hmem
      exact absurd (hr.numbered _ hmem) (lt_irrefl _)
    refine ⟨hin.compact hr.compact, ?_, ?_, ?_, ?_, ?_, ?_⟩
    · intro f hf
      rw [List.length_append, List.length_singleton]
      rcases List.mem_append.mp hf with hf | hf
      · exact Nat.lt_succ_of_lt (hr.numbered f hf)
      · rw [List.mem_singleton.mp hf]
        exact Nat.lt_succ_self _
    · refine hperm.nodup_iff.mpr (List.nodup_cons.mpr ⟨?_, hr.once⟩)
      exact fun hmem => hnew (hr.accepted _ hmem)
    · intro f hf
      rcases List.mem_cons.mp (hperm.subset hf) with hf | hf
      · exact List.mem_append_right _ (List.mem_singleton.mpr hf)
      · exact List.mem_append_left _ (hr.accepted f hf)
    · intro f hf
      rcases List.mem_append.mp hf with hf | hf
      · refine (hr.waiting f hf).imp_left fun h => ?_
        exact hperm.symm.subset (List.mem_cons_of_mem _ h)
      · refine Or.inl (hperm.symm.subset ?_)
        rw [List.mem_singleton.mp hf]
        exact List.mem_cons_self
    · exact fun hcleared => (hopen hcleared).elim
    · exact fun hcleared => (hopen hcleared).elim

theorem closed_takeNext (l : MessagingRateLimiter) : l.takeNext.closed = l.closed := by
  unfold MessagingRateLimiter.takeNext
  split
  · split <;> simp_all
  · rfl

theorem Kept.takeNext (hr : r.Kept) : (r.next .takeNext).Kept := by
  have hperm := attached_takeNext r.limiter
  refine hr.moved hr.compact.takeNext ?_ hperm.subperm (fun _ => id) ?_
  · rw [closed_takeNext]
    exact id
  · exact fun f hf => Or.inl (hperm.symm.subset hf)

theorem Kept.call (hr : r.Kept) : (r.next .call).Kept := by
  simp only [next]
  split
  · next func futures hworker =>
    have hattached : ({ r.limiter with worker := .executing func futures } :
        MessagingRateLimiter).attached = r.limiter.attached := by
      simp only [attached, queuedFutures, activeFutures, hworker]
    refine hr.moved (compact_worker hr.compact _) id ?_ (fun _ => id) ?_
    · rw [hattached]
    · exact fun f hf => Or.inl (hattached ▸ hf)
  · exact hr

/-- The worker lets go of its entry, whose futures are all done. -/
theorem Kept.released (hr : r.Kept) {l : MessagingRateLimiter} {done : List QueueFuture}
    (hcompact : l.Compact) (hclosed : l.closed = r.limiter.closed)
    (hmap : l.queueMap = r.limiter.queueMap) (hactive : l.activeFutures = [])
    (hdone : ∀ f ∈ r.done, f ∈ done) (hsettled : ∀ f ∈ r.limiter.activeFutures, f ∈ done) :
    Kept { r with limiter := l, done := done } := by
  have hattached : l.attached = r.limiter.queuedFutures := by
    unfold attached queuedFutures
    rw [hmap, hactive, List.append_nil]
  refine hr.moved hcompact ?_ ?_ hdone ?_
  · rw [hclosed]
    exact id
  · rw [hattached]
    exact (List.sublist_append_left _ _).subperm
  · intro f hf
    rcases List.mem_append.mp hf with hf | hf
    · exact Or.inl (hattached ▸ hf)
    · exact Or.inr (hsettled f hf)

theorem Kept.finish (hr : r.Kept) (result : CallResult) : (r.next (.finish result)).Kept := by
  simp only [next]
  split
  · next func futures hworker =>
    have hactive : r.limiter.activeFutures = futures := by
      simp only [activeFutures, hworker]
    rcases LimiterRun.finish_cases r.limiter result with hsame | ⟨_, _, -, hslept⟩
    · rw [hsame]
      exact hr.settle futures
    · refine hr.released (hslept.compact (compact_worker hr.compact _)) hslept.closed
        hslept.queueMap ?_ (fun f hf => mem_settle.mpr (Or.inl hf)) ?_
      · unfold activeFutures
        rw [hslept.worker]
        cases r.limiter.closed <;> rfl
      · intro f hf
        exact mem_settle.mpr (Or.inr (hactive ▸ hf))
  · exact hr

theorem Kept.escape (hr : r.Kept) (hcontained : r.Contained .escape) :
    (r.next .escape).Kept := by
  simp only [next]
  split
  · next func futures hworker =>
    refine hr.released (compact_worker hr.compact _) rfl rfl rfl (fun _ => id) ?_
    intro f hf
    simp only [activeFutures, hworker] at hf
    exact hcontained func futures hworker f hf
  · exact hr

theorem Kept.cancelWorker (hr : r.Kept) : (r.next .cancelWorker).Kept :=
  hr.released (compact_worker hr.compact _) rfl rfl rfl (fun _ hf => mem_settle.mpr (Or.inl hf))
    fun _ hf => mem_settle.mpr (Or.inr hf)

theorem Kept.clear (hr : r.Kept) : (r.next .clear).Kept := by
  simp only [next]
  split_ifs
  · have hattached : r.limiter.shutdown.attached = r.limiter.activeFutures := rfl
    have hdone : ∀ f ∈ r.accepted, f ∈ (r.settle r.limiter.attached).done := fun f hf =>
      mem_settle.mpr (hr.waiting f hf).symm
    refine ⟨⟨List.nodup_nil, ?_, ?_⟩, hr.numbered, ?_, ?_, ?_, fun _ => rfl, fun _ => hdone⟩
    · simp [MessagingRateLimiter.shutdown]
    · intro key f fs hf
      cases hf
    · rw [hattached]
      exact (List.nodup_append.mp hr.once).2.1
    · intro f hf
      exact hr.accepted f (List.mem_append_right _ hf)
    · exact fun f hf => Or.inr (hdone f hf)
  · exact hr

theorem Kept.next (hr : r.Kept) {op : FutureOp} (hop : r.Contained op) : (r.next op).Kept := by
  cases op with
  | start => exact hr.start
  | enqueue key => exact hr.enqueue key
  | giveUp future => exact hr.settle [future]
  | takeNext => exact hr.takeNext
  | call => exact hr.call
  | finish result => exact hr.finish result
  | escape => exact hr.escape hop
  | cancelWorker => exact hr.cancelWorker
  | close =>
    exact hr.moved ⟨hr.compact.nodup, hr.compact.listed, hr.compact.keyed⟩ (fun _ => rfl)
      (List.Subperm.refl _) (fun _ => id) fun _ hf => Or.inl hf
  | clear => exact hr.clear

theorem kept_of_reach (hr : futureSystem.Reach Contained r) : r.Kept := by
  refine hr.invariant ?_ ?_
  · rintro r rfl
    have hattached : ({} : FutureRun).limiter.attached = [] := rfl
    refine ⟨⟨List.nodup_nil, fun key => ?_, ?_⟩, ?_, ?_, ?_, ?_, ?_, ?_⟩
    · change key ∈ [] ↔ ((Dict.empty : Dict String _).get? key).isSome
      simp
    · intro key f fs hf
      cases hf
    · simp
    · rw [hattached]
      exact List.nodup_nil
    · simp [hattached]
    · simp
    · simp
    · simp
  · rintro r op _ - hr hop rfl
    exact hr.next hop

/-- Such an exception leaves its pending futures without an entry. -/
theorem Kept.escape_forgets (hr : r.Kept) (hop : ¬ r.Contained .escape) :
    ¬ (r.next .escape).Unforgotten := by
  intro hnext
  refine hop fun func futures hworker f hf => ?_
  by_contra hdone
  have hactive : f ∈ r.limiter.activeFutures := by
    simp only [activeFutures, hworker]
    exact hf
  have hqueued : f ∉ r.limiter.queuedFutures := fun hmem =>
    (List.nodup_append.mp hr.once).2.2 f hmem f hactive rfl
  have hstep : r.next .escape =
      { r with limiter := { r.limiter with worker := .stopped } } := by
    simp only [FutureRun.next, hworker]
  have hattached : (r.next .escape).limiter.attached = r.limiter.queuedFutures := by
    rw [hstep]
    exact List.append_nil _
  have hcount : (r.next .escape).limiter.attached.count f = 1 := by
    refine hnext.attached f ?_ ?_ <;> rw [hstep]
    · exact hr.accepted f (List.mem_append_right _ hactive)
    · exact hdone
  rw [hattached, List.count_eq_zero.mpr hqueued] at hcount
  omega

end FutureRun

open FutureRun

/-- As long as no call raises an exception that the worker does not handle, no future
is forgotten; the first time it happens to a pending future, that one is. -/
theorem futures_unforgotten {r : FutureRun} (hr : futureSystem.Reach Contained r) :
    r.Unforgotten ∧ ∀ op, ¬ r.Contained op → ¬ (r.next op).Unforgotten := by
  have hkept := kept_of_reach hr
  refine ⟨hkept.unforgotten, fun op hop => ?_⟩
  cases op with
  | escape => exact hkept.escape_forgets hop
  | _ => exact absurd trivial hop

/-! ## A call whose exception passes the worker -/

section Example

/-- Two edits of a message are merged, and the call of the second one raises a
`BaseExceptionGroup`. -/
def escapedOps : List FutureOp :=
  [.start, .enqueue "edit:7:11", .enqueue "edit:7:11", .takeNext, .call, .escape, .close, .clear]

/-- Not even `shutdown` settles the futures of the two callers. -/
theorem escaped_call_forgets_futures : ¬ ∀ r, futureSystem.Reachable r → r.Unforgotten := by
  intro h
  have hsettled := (h _ (.foldl (fun _ _ => rfl) escapedOps (.start rfl))).settled
  have hcleared : (escapedOps.foldl FutureRun.next {}).cleared = true := by decide +kernel
  have haccepted : (escapedOps.foldl FutureRun.next {}).accepted =
      [⟨⟨"edit:7:11", 0⟩, none⟩, ⟨⟨"edit:7:11", 1⟩, none⟩] := by decide +kernel
  have hdone : (escapedOps.foldl FutureRun.next {}).done = [] := by decide +kernel
  have hmem := hsettled hcleared ⟨⟨"edit:7:11", 0⟩, none⟩ (by simp [haccepted])
  rw [hdone] at hmem
  cases hmem

/-- The two futures are attached to the call, until it raises. -/
theorem futures_unforgotten_sample :
    ((escapedOps.take 5).foldl FutureRun.next {}).Unforgotten ∧
      ¬ ((escapedOps.take 6).foldl FutureRun.next {}).Unforgotten := by
  have h0 : futureSystem.Reach Contained {} := .start rfl
  have h1 := h0.next (l := FutureOp.start) trivial rfl
  have h2 := h1.next (l := FutureOp.enqueue "edit:7:11") trivial rfl
  have h3 := h2.next (l := FutureOp.enqueue "edit:7:11") trivial rfl
  have h4 := h3.next (l := FutureOp.takeNext) trivial rfl
  have h5 := h4.next (l := FutureOp.call) trivial rfl
  refine ⟨(futures_unforgotten h5).1, (futures_unforgotten h5).2 .escape ?_⟩
  intro hcontained
  exact absurd (hcontained _ _ rfl _ List.mem_cons_self) (List.not_mem_nil)

end Example

end Switchboard.Messaging
