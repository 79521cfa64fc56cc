import Switchboard.Learning.Queue

/-!
# Runs of the learning queue

Any number of workers claim items and report outcomes; a worker may crash, and its lease
may run out while it still works. Each claim has a serial number. Where no outcome comes
from a worker whose item was claimed again, and no lease on the last allowed attempt runs
out, done items stay done and no item is claimed more often than allowed.
-/

namespace Switchboard.Learning

/-- A claim whose outcome has not been reported. -/
structure WorkerClaim where
  queueId : String
  serial : ℕ
deriving DecidableEq, Repr

/-- The claims of one item since it was enqueued. -/
structure ItemLog where
  claims : ℕ := 0
  lastClaim : Option ℕ := none
deriving DecidableEq, Repr

/-- The table, the workers, and the log of the items. -/
structure LearningRun where
  queue : LearningQueue := .empty
  workers : List WorkerClaim := []
  serial : ℕ := 0
  log : Dict String ItemLog := .empty

inductive LearningOp where
  | enqueue (queueId : String) (turn : LearningTurn) (now : ℚ)
  | claim (leaseSeconds now : ℚ)
  | complete (worker : WorkerClaim) (now : ℚ)
  | fail (worker : WorkerClaim) (error : String) (now : ℚ)
  | crash (worker : WorkerClaim)
  | cleanup (retentionDays : ℚ) (maxTerminalRows : ℤ) (now : ℚ)

namespace LearningRun

def enqueue (r : LearningRun) (queueId : String) (turn : LearningTurn) (now : ℚ) : LearningRun :=
  { r with
    queue := r.queue.enqueueLearning queueId turn now
    log := if r.queue.contains queueId then r.log else r.log.set queueId {} }

def claim (r : LearningRun) (leaseSeconds now : ℚ) : LearningRun :=
  match r.queue.claimLearning leaseSeconds now with
  | (none, queue) => { r with queue := queue }
  | (some (queueId, _), queue) =>
    { queue := queue
      workers := { queueId := queueId, serial := r.serial } :: r.workers
      serial := r.serial + 1
      log := r.log.modify queueId fun entry =>
        { claims := entry.claims + 1, lastClaim := some r.serial } }

/-- `drain_queue` reports one outcome for each claim. -/
def next (maxAttempts : ℤ) (r : LearningRun) : LearningOp → LearningRun
  | .enqueue queueId turn now => r.enqueue queueId turn now
  | .claim leaseSeconds now => r.claim leaseSeconds now
  | .complete worker now =>
    { r with
      queue := r.queue.completeLearning worker.queueId now
      workers := r.workers.erase worker }
  | .fail worker error now =>
    { r with
      queue := (r.queue.failLearning worker.queueId error maxAttempts now).2
      workers := r.workers.erase worker }
  | .crash worker => { r with workers := r.workers.erase worker }
  | .cleanup retentionDays maxTerminalRows now =>
    { r with queue := (r.queue.cleanupQueue retentionDays maxTerminalRows now).2 }

end LearningRun

/-- An outcome is that of a worker that has a claim. -/
def LearningOp.Proper (r : LearningRun) : LearningOp → Prop
  | complete worker _ | fail worker _ _ | crash worker => worker ∈ r.workers
  | _ => True

instance (r : LearningRun) (op : LearningOp) : Decidable (op.Proper r) := by
  cases op <;> unfold LearningOp.Proper <;> infer_instance

/-- Runs with one bound for the attempts. -/
def learningSystem (maxAttempts : ℤ) : System LearningRun LearningOp where
  init r := r = {}
  step r op r' := op.Proper r ∧ r' = r.next maxAttempts op

/-- The item was not claimed or enqueued again since the worker claimed it. -/
def LearningRun.Holds (r : LearningRun) (worker : WorkerClaim) : Prop :=
  ∀ entry, r.log.get? worker.queueId = some entry → entry.lastClaim = some worker.serial

/-- Outcomes come from the last worker of an item that is there, and no lease on a last
attempt is over when items are claimed. -/
def Attended (maxAttempts : ℤ) (r : LearningRun) : LearningOp → Prop
  | .claim leaseSeconds now => ∀ queueId row, r.queue.get? queueId = some row →
      LearningQueue.Expired leaseSeconds now row → (row.attempts : ℤ) < max 1 maxAttempts
  | .complete worker _ | .fail worker _ _ =>
      (r.queue.get? worker.queueId).isSome → r.Holds worker
  | _ => True

/-- A done item stays as it is, unless cleanup removes it. -/
def KeepsDone (r : LearningRun) (op : LearningOp) (r' : LearningRun) : Prop :=
  ∀ queueId row, r.queue.get? queueId = some row → row.status.Terminal →
    (∃ row', r'.queue.get? queueId = some row' ∧ row'.status = row.status) ∨
      r'.queue.get? queueId = none ∧ ∃ days rows now, op = .cleanup days rows now

/-- An outcome of a worker whose item was claimed again does not change the item. -/
def IgnoresStale (r : LearningRun) (op : LearningOp) (r' : LearningRun) : Prop :=
  ∀ worker, (∃ now, op = .complete worker now) ∨ (∃ error now, op = .fail worker error now) →
    ¬ r.Holds worker → r'.queue.get? worker.queueId = r.queue.get? worker.queueId

/-- No item was claimed more often than allowed, and one that was claimed as often as
allowed waits for no worker. -/
def Bounded (maxAttempts : ℤ) (r : LearningRun) : Prop :=
  ∀ queueId row, r.queue.get? queueId = some row → ∃ entry, r.log.get? queueId = some entry ∧
    (entry.claims : ℤ) ≤ max 1 maxAttempts ∧
      (row.status = .pending → (entry.claims : ℤ) < max 1 maxAttempts)

/-- A failure on the last allowed attempt of an item makes it a dead letter. -/
def BuriesLast (maxAttempts : ℤ) (r : LearningRun) (op : LearningOp) (r' : LearningRun) : Prop :=
  ∀ worker error now entry row, op = .fail worker error now →
    r.log.get? worker.queueId = some entry → (entry.claims : ℤ) = max 1 maxAttempts →
    r.queue.get? worker.queueId = some row →
    ∃ row', r'.queue.get? worker.queueId = some row' ∧ row'.status = .deadLetter

/-! ## The operations -/

namespace LearningQueue

variable {q : LearningQueue} {queueId id : String} {row row' : QueueRow} {now leaseSeconds : ℚ}

/-- What a row was before the leases were looked at. -/
theorem reclaim_back (h : (q.reclaim leaseSeconds now).get? id = some row') :
    ∃ row, q.get? id = some row ∧ row'.attempts = row.attempts ∧
      (row' = row ∨ Expired leaseSeconds now row ∧ row'.status = .pending) := by
  unfold reclaim at h
  rw [Dict.get?_mapValues] at h
  obtain ⟨row, hrow, rfl⟩ := Option.map_eq_some_iff.mp h
  refine ⟨row, hrow, ?_⟩
  split_ifs with hexpired
  · exact ⟨rfl, Or.inr ⟨hexpired, rfl⟩⟩
  · exact ⟨rfl, Or.inl rfl⟩

theorem reclaim_terminal (h : q.get? id = some row) (ht : row.status.Terminal) :
    (q.reclaim leaseSeconds now).get? id = some row := by
  have hnot : ¬ Expired leaseSeconds now row := by
    rintro ⟨hstatus, -⟩
    rw [hstatus] at ht
    exact ht
  unfold reclaim
  rw [Dict.get?_mapValues, h, Option.map_some, if_neg hnot]

theorem first_mem {l : List (String × QueueRow)} {e : String × QueueRow}
    (h : first l = some e) : e ∈ l := by
  induction l generalizing e with
  | nil => cases h
  | cons a l ih =>
    unfold first at h
    cases hl : first l with
    | none =>
      rw [hl] at h
      cases h
      exact List.mem_cons_self
    | some b =>
      rw [hl] at h
      dsimp only at h
      split_ifs at h
      · cases h
        exact List.mem_cons_of_mem _ (ih hl)
      · cases h
        exact List.mem_cons_self

/-- A claim leases one pending row, if there is one. -/
theorem claimLearning_cases (q : LearningQueue) (leaseSeconds now : ℚ) :
    q.claimLearning leaseSeconds now = (none, q.reclaim leaseSeconds now) ∨
      ∃ id row, (q.reclaim leaseSeconds now).get? id = some row ∧ row.status = .pending ∧
        q.claimLearning leaseSeconds now = (some (id, lease row now),
          (q.reclaim leaseSeconds now).modify id fun row => lease row now) := by
  unfold claimLearning
  dsimp only
  cases hfirst : first ((q.reclaim leaseSeconds now).ready now) with
  | none => exact Or.inl rfl
  | some e =>
    obtain ⟨id, row⟩ := e
    obtain ⟨hmem, hready⟩ := List.mem_filter.mp (first_mem hfirst)
    exact Or.inr ⟨id, row, Dict.get?_eq_some.mpr hmem, (of_decide_eq_true hready).1, rfl⟩

theorem cleanupQueue_get? (q : LearningQueue) (days : ℚ) (rows : ℤ) (now : ℚ) :
    (q.cleanupQueue days rows now).2.get? id = q.get? id ∨
      (q.cleanupQueue days rows now).2.get? id = none := by
  unfold cleanupQueue
  dsimp only
  rcases Dict.get?_filter_cases (q.filter fun _ row =>
    ¬ (row.status.Terminal ∧ row.updatedAt < now - max 0 days * 86400)) _ id with h | h
  · rw [h]
    exact q.get?_filter_cases _ id
  · exact Or.inr h

theorem failLearning_snd (q : LearningQueue) (id error : String) (maxAttempts : ℤ) (now : ℚ) :
    (q.failLearning id error maxAttempts now).2.get? id =
        (q.get? id).map (fun row => afterFailure row error maxAttempts now) ∧
      ∀ j, j ≠ id → (q.failLearning id error maxAttempts now).2.get? j = q.get? j := by
  unfold failLearning
  cases h : q.get? id with
  | none => exact ⟨h, fun _ _ => rfl⟩
  | some row =>
    dsimp only
    exact ⟨by rw [Dict.get?_modify_self, h], fun j hj => Dict.get?_modify_of_ne _ _ hj⟩

end LearningQueue

/-! ## The invariant -/

namespace LearningRun

variable {r : LearningRun} {maxAttempts : ℤ} {id : String} {row : QueueRow}

structure Sound (maxAttempts : ℤ) (r : LearningRun) : Prop where
  logged : ∀ {id row}, r.queue.get? id = some row →
    ∃ entry, r.log.get? id = some entry ∧ entry.claims = row.attempts
  bounded : ∀ {id row}, r.queue.get? id = some row → (row.attempts : ℤ) ≤ max 1 maxAttempts
  pending : ∀ {id row}, r.queue.get? id = some row → row.status = .pending →
    (row.attempts : ℤ) < max 1 maxAttempts
  serials : ∀ w ∈ r.workers, w.serial < r.serial
  distinct : (r.workers.map (·.serial)).Nodup
  claims : ∀ {id entry n}, r.log.get? id = some entry → entry.lastClaim = some n → n < r.serial
  working : ∀ w ∈ r.workers, ∀ {row}, r.queue.get? w.queueId = some row → r.Holds w →
    ¬ row.status.Terminal

theorem Sound.enqueue (h : r.Sound maxAttempts) (queueId : String) (turn : LearningTurn) (now : ℚ) :
    (r.enqueue queueId turn now).Sound maxAttempts := by
  unfold LearningRun.enqueue LearningQueue.enqueueLearning
  by_cases hin : r.queue.contains queueId = true
  · simp only [hin, if_true]
    exact h
  · simp only [hin, Bool.false_eq_true, if_false]
    refine ⟨?_, ?_, ?_, h.serials, h.distinct, ?_, ?_⟩
    · intro id row hrow
      rw [Dict.get?_set] at hrow ⊢
      split_ifs at hrow ⊢
      · cases hrow
        exact ⟨_, rfl, rfl⟩
      · exact h.logged hrow
    · intro id row hrow
      rw [Dict.get?_set] at hrow
      split_ifs at hrow
      · cases hrow
        simp
      · exact h.bounded hrow
    · intro id row hrow hpending
      rw [Dict.get?_set] at hrow
      split_ifs at hrow
      · cases hrow
        simp
      · exact h.pending hrow hpending
    · intro id entry n hentry hlast
      rw [Dict.get?_set] at hentry
      split_ifs at hentry
      · cases hentry
        cases hlast
      · exact h.claims hentry hlast
    · intro w hw row hrow hholds
      rw [Dict.get?_set] at hrow
      split_ifs at hrow with hid
      · cases hrow
        exact id
      · refine h.working w hw hrow fun entry hentry => hholds entry ?_
        rw [Dict.get?_set, if_neg hid]
        exact hentry

theorem Sound.crash (h : r.Sound maxAttempts) (w : WorkerClaim) :
    { r with workers := r.workers.erase w }.Sound maxAttempts :=
  ⟨h.logged, h.bounded, h.pending, fun v hv => h.serials v (List.mem_of_mem_erase hv),
    (List.erase_sublist.map _).nodup h.distinct, h.claims,
    fun v hv _ hrow hholds => h.working v (List.mem_of_mem_erase hv) hrow hholds⟩

/-- Only one worker holds an item. -/
theorem Sound.holder_unique (h : r.Sound maxAttempts) {v w : WorkerClaim} (hv : v ∈ r.workers)
    (hw : w ∈ r.workers) (hid : v.queueId = w.queueId) (hrow : r.queue.get? w.queueId = some row)
    (hholdsV : r.Holds v) (hholdsW : r.Holds w) : v = w := by
  obtain ⟨entry, hentry, -⟩ := h.logged hrow
  have hlast := hholdsW entry hentry
  have hlast' := hholdsV entry (hid ▸ hentry)
  exact List.inj_on_of_nodup_map h.distinct hv hw (Option.some.inj (hlast'.symm.trans hlast))

/-- The outcome of a worker that holds its item, or whose item is gone. -/
theorem Sound.outcome (h : r.Sound maxAttempts) {w : WorkerClaim} (hw : w ∈ r.workers)
    (hholds : (r.queue.get? w.queueId).isSome → r.Holds w) {queue : LearningQueue}
    {f : QueueRow → QueueRow}
    (hqueue : queue.get? w.queueId = (r.queue.get? w.queueId).map f)
    (hother : ∀ id, id ≠ w.queueId → queue.get? id = r.queue.get? id)
    (hattempts : ∀ row, (f row).attempts = row.attempts)
    (hpending : ∀ row, r.queue.get? w.queueId = some row → (f row).status = .pending →
      (row.attempts : ℤ) < max 1 maxAttempts) :
    { r with queue := queue, workers := r.workers.erase w }.Sound maxAttempts := by
  have hback : ∀ {id row}, queue.get? id = some row → ∃ old, r.queue.get? id = some old ∧
      row.attempts = old.attempts ∧
        (row.status = .pending → (row.attempts : ℤ) < max 1 maxAttempts) ∧
        (id = w.queueId ∨ row = old) := by
    intro id row hrow
    by_cases hid : id = w.queueId
    · subst hid
      rw [hqueue] at hrow
      obtain ⟨old, hold, rfl⟩ := Option.map_eq_some_iff.mp hrow
      exact ⟨old, hold, hattempts old, fun hp => by rw [hattempts]; exact hpending old hold hp,
        Or.inl rfl⟩
    · rw [hother id hid] at hrow
      exact ⟨row, hrow, rfl, h.pending hrow, Or.inr rfl⟩
  refine ⟨?_, ?_, ?_, fun v hv => h.serials v (List.mem_of_mem_erase hv),
    (List.erase_sublist.map _).nodup h.distinct, h.claims, ?_⟩
  · intro id row hrow
    obtain ⟨old, hold, hsame, -⟩ := hback hrow
    rw [hsame]
    exact h.logged hold
  · intro id row hrow
    obtain ⟨old, hold, hsame, -⟩ := hback hrow
    rw [hsame]
    exact h.bounded hold
  · intro id row hrow
    obtain ⟨old, -, -, hp, -⟩ := hback hrow
    exact hp
  · intro v hv row hrow hholdsV
    have hmem := List.mem_of_mem_erase hv
    obtain ⟨old, hold, -, -, hid | rfl⟩ := hback hrow
    · -- the worker that reported was the only one that held the item
      rw [hid] at hold
      have hsame := h.holder_unique hmem hw hid hold hholdsV (hholds (by rw [hold]; rfl))
      have hnodup : r.workers.Nodup := h.distinct.of_map _
      rw [hsame] at hv
      exact absurd hv hnodup.not_mem_erase
    · exact h.working v hmem hold hholdsV

theorem Sound.cleanup (h : r.Sound maxAttempts) (days : ℚ) (rows : ℤ) (now : ℚ) :
    { r with queue := (r.queue.cleanupQueue days rows now).2 }.Sound maxAttempts := by
  have hback : ∀ {id row}, (r.queue.cleanupQueue days rows now).2.get? id = some row →
      r.queue.get? id = some row := by
    intro id row hrow
    rcases r.queue.cleanupQueue_get? days rows now with hsame | hgone
    · exact hsame ▸ hrow
    · rw [hgone] at hrow
      cases hrow
  exact ⟨fun hrow => h.logged (hback hrow), fun hrow => h.bounded (hback hrow),
    fun hrow => h.pending (hback hrow), h.serials, h.distinct, h.claims,
    fun w hw _ hrow hholds => h.working w hw (hback hrow) hholds⟩

/-- The sweep of the leases, where none on a last attempt is over. -/
theorem Sound.reclaim (h : r.Sound maxAttempts) {leaseSeconds now : ℚ}
    (hattended : Attended maxAttempts r (.claim leaseSeconds now)) :
    { r with queue := r.queue.reclaim leaseSeconds now }.Sound maxAttempts := by
  refine ⟨?_, ?_, ?_, h.serials, h.distinct, h.claims, ?_⟩
  · intro id row hrow
    obtain ⟨old, hold, hsame, -⟩ := LearningQueue.reclaim_back hrow
    rw [hsame]
    exact h.logged hold
  · intro id row hrow
    obtain ⟨old, hold, hsame, -⟩ := LearningQueue.reclaim_back hrow
    rw [hsame]
    exact h.bounded hold
  · intro id row hrow hpending
    obtain ⟨old, hold, hsame, rfl | ⟨hexpired, -⟩⟩ := LearningQueue.reclaim_back hrow
    · exact h.pending hold hpending
    · rw [hsame]
      exact hattended id old hold hexpired
  · intro w hw row hrow hholds
    obtain ⟨old, hold, hsame, rfl | ⟨-, hstatus⟩⟩ := LearningQueue.reclaim_back hrow
    · exact h.working w hw hold hholds
    · rw [hstatus]
      exact id

theorem Sound.claim (h : r.Sound maxAttempts) {leaseSeconds now : ℚ}
    (hattended : Attended maxAttempts r (.claim leaseSeconds now)) :
    (r.claim leaseSeconds now).Sound maxAttempts := by
  have hreclaimed := h.reclaim hattended
  unfold LearningRun.claim
  rcases r.queue.claimLearning_cases leaseSeconds now with hnone | ⟨k, row, hrow, hpending, hsome⟩
  · rw [hnone]
    exact hreclaimed
  · rw [hsome]
    obtain ⟨entry, hentry, hclaims⟩ := hreclaimed.logged hrow
    have hattempts := hreclaimed.pending hrow hpending
    simp only at hrow hentry
    refine ⟨?_, ?_, ?_, ?_, ?_, ?_, ?_⟩
    · intro id row' hrow'
      rw [Dict.get?_modify] at hrow' ⊢
      split_ifs at hrow' ⊢ with hid
      · rw [hrow] at hrow'
        cases hrow'
        rw [hentry]
        exact ⟨_, rfl, by simp [LearningQueue.lease, hclaims]⟩
      · exact hreclaimed.logged hrow'
    · intro id row' hrow'
      rw [Dict.get?_modify] at hrow'
      split_ifs at hrow' with hid
      · rw [hrow] at hrow'
        cases hrow'
        simp only [LearningQueue.lease, Nat.cast_add, Nat.cast_one]
        omega
      · exact hreclaimed.bounded hrow'
    · intro id row' hrow' hstatus
      rw [Dict.get?_modify] at hrow'
      split_ifs at hrow' with hid
      · rw [hrow] at hrow'
        cases hrow'
        cases hstatus
      · exact hreclaimed.pending hrow' hstatus
    · intro w hw
      rcases List.mem_cons.mp hw with rfl | hw
      · exact Nat.lt_succ_self _
      · exact (h.serials w hw).trans (Nat.lt_succ_self _)
    · rw [List.map_cons, List.nodup_cons]
      refine ⟨fun hmem => ?_, h.distinct⟩
      obtain ⟨w, hw, hserial⟩ := List.mem_map.mp hmem
      exact absurd hserial (h.serials w hw).ne
    · intro id entry' n hentry' hlast
      rw [Dict.get?_modify] at hentry'
      split_ifs at hentry' with hid
      · rw [hentry] at hentry'
        cases hentry'
        cases hlast
        exact Nat.lt_succ_self _
      · exact (h.claims hentry' hlast).trans (Nat.lt_succ_self _)
    · intro w hw row' hrow' hholds
      rw [Dict.get?_modify] at hrow'
      split_ifs at hrow' with hid
      · rw [hrow] at hrow'
        cases hrow'
        exact id
      · rcases List.mem_cons.mp hw with rfl | hw
        · exact absurd rfl hid
        · refine hreclaimed.working w hw hrow' fun entry' hentry' => hholds entry' ?_
          exact (Dict.get?_modify_of_ne _ _ hid).trans hentry'

end LearningRun

namespace LearningRun

variable {r : LearningRun} {maxAttempts : ℤ}

/-- The step lemma. -/
theorem Sound.next (h : r.Sound maxAttempts) {op : LearningOp} (hop : op.Proper r)
    (hattended : Attended maxAttempts r op) : (r.next maxAttempts op).Sound maxAttempts := by
  cases op with
  | enqueue queueId turn now => exact h.enqueue queueId turn now
  | claim leaseSeconds now => exact h.claim hattended
  | complete worker now =>
    refine h.outcome hop hattended (Dict.get?_modify_self _ _ _)
      (fun id hid => Dict.get?_modify_of_ne _ _ hid) (fun _ => rfl) ?_
    intro row _ hpending
    cases hpending
  | fail worker error now =>
    obtain ⟨hself, hother⟩ :=
      r.queue.failLearning_snd worker.queueId error maxAttempts now
    refine h.outcome hop hattended hself hother (fun _ => rfl) ?_
    intro row _ hpending
    by_contra hreached
    have hdead : max 1 maxAttempts ≤ (row.attempts : ℤ) := not_lt.mp hreached
    simp only [LearningQueue.afterFailure, hdead, if_true] at hpending
    cases hpending
  | crash worker => exact h.crash worker
  | cleanup days rows now => exact h.cleanup days rows now

theorem sound_of_reach (hr : (learningSystem maxAttempts).Reach (Attended maxAttempts) r) :
    r.Sound maxAttempts := by
  refine hr.invariant (P := LearningRun.Sound maxAttempts) ?_ ?_
  · rintro r rfl
    exact ⟨(fun h => nomatch h), (fun h => nomatch h), (fun h => nomatch h),
      (fun w hw => nomatch hw), List.nodup_nil, (fun h => nomatch h), (fun w hw => nomatch hw)⟩
  · rintro r op _ - h hattended ⟨hop, rfl⟩
    exact h.next hop hattended

theorem Sound.boundedBy (h : r.Sound maxAttempts) : Bounded maxAttempts r := by
  intro queueId row hrow
  obtain ⟨entry, hentry, hclaims⟩ := h.logged hrow
  refine ⟨entry, hentry, ?_, ?_⟩
  · rw [hclaims]
    exact h.bounded hrow
  · rw [hclaims]
    exact h.pending hrow

/-- An outcome of a worker that holds its item meets no done item. -/
theorem Sound.keepsDone (h : r.Sound maxAttempts) {op : LearningOp} (hop : op.Proper r)
    (hattended : Attended maxAttempts r op) : KeepsDone r op (r.next maxAttempts op) := by
  intro queueId row hrow hterminal
  have hworker : ∀ w ∈ r.workers, ((r.queue.get? w.queueId).isSome → r.Holds w) →
      queueId ≠ w.queueId := by
    rintro w hw hholds rfl
    exact h.working w hw hrow (hholds (by rw [hrow]; rfl)) hterminal
  cases op with
  | enqueue k turn now =>
    refine Or.inl ⟨row, ?_, rfl⟩
    simp only [LearningRun.next, LearningRun.enqueue, LearningQueue.enqueueLearning]
    split_ifs with hin
    · exact hrow
    · have hne : queueId ≠ k := by
        rintro rfl
        exact hin (by simp [Dict.contains, hrow])
      exact (Dict.get?_set_of_ne _ _ hne).trans hrow
  | claim leaseSeconds now =>
    refine Or.inl ⟨row, ?_, rfl⟩
    have hkept : (r.queue.reclaim leaseSeconds now).get? queueId = some row :=
      LearningQueue.reclaim_terminal hrow hterminal
    simp only [LearningRun.next, LearningRun.claim]
    rcases r.queue.claimLearning_cases leaseSeconds now with
      hnone | ⟨k, row', hrow', hpending, hsome⟩
    · rw [hnone]
      exact hkept
    · rw [hsome]
      have hne : queueId ≠ k := by
        rintro rfl
        rw [hkept] at hrow'
        cases hrow'
        rw [hpending] at hterminal
        exact hterminal
      exact (Dict.get?_modify_of_ne _ _ hne).trans hkept
  | complete w now =>
    exact Or.inl ⟨row, (Dict.get?_modify_of_ne _ _ (hworker w hop hattended)).trans hrow, rfl⟩
  | fail w error now =>
    have hother := (r.queue.failLearning_snd w.queueId error maxAttempts now).2
    exact Or.inl ⟨row, (hother _ (hworker w hop hattended)).trans hrow, rfl⟩
  | crash w => exact Or.inl ⟨row, hrow, rfl⟩
  | cleanup days rows now =>
    rcases r.queue.cleanupQueue_get? days rows now with hsame | hgone
    · exact Or.inl ⟨row, hsame.trans hrow, rfl⟩
    · exact Or.inr ⟨hgone, days, rows, now, rfl⟩

/-- A stale outcome that comes anyway is for an item that is gone. -/
theorem ignoresStale {op : LearningOp} (hattended : Attended maxAttempts r op) :
    IgnoresStale r op (r.next maxAttempts op) := by
  rintro w hw hstale
  have hgone : ∀ hattended' : (r.queue.get? w.queueId).isSome → r.Holds w,
      r.queue.get? w.queueId = none := by
    intro hattended'
    by_contra hsome
    exact hstale (hattended' (Option.isSome_iff_ne_none.mpr hsome))
  rcases hw with ⟨now, rfl⟩ | ⟨error, now, rfl⟩
  · have hnone := hgone hattended
    simp only [LearningRun.next, LearningQueue.completeLearning]
    rw [Dict.get?_modify_self, hnone]
    rfl
  · have hnone := hgone hattended
    simp only [LearningRun.next]
    rw [(r.queue.failLearning_snd w.queueId error maxAttempts now).1, hnone]
    rfl

theorem Sound.buriesLast (h : r.Sound maxAttempts) (op : LearningOp) :
    BuriesLast maxAttempts r op (r.next maxAttempts op) := by
  rintro w error now entry row rfl hentry hlast hrow
  obtain ⟨entry', hentry', hclaims⟩ := h.logged hrow
  rw [hentry] at hentry'
  cases hentry'
  refine ⟨_, (r.queue.failLearning_snd w.queueId error maxAttempts now).1.trans
    (by rw [hrow]; rfl), ?_⟩
  have hdead : max 1 maxAttempts ≤ (row.attempts : ℤ) := by
    rw [← hclaims]
    exact hlast.ge
  simp only [LearningQueue.afterFailure, hdead, if_true]

end LearningRun

section Example

/-- The state after a script, if each outcome is that of a worker with a claim. -/
def learningScript (script : List LearningOp) : Option LearningRun :=
  System.replay (fun r op => if op.Proper r then some (r.next 3 op) else none) {} script

theorem reachable_of_script {script : List LearningOp} {r : LearningRun}
    (h : learningScript script = some r) : (learningSystem 3).Reachable r := by
  refine System.Reachable.replay ?_ (.start rfl) h
  intro r op r' hact
  split_ifs at hact with hop
  cases hact
  exact ⟨op, hop, rfl⟩

def sampleTurn : LearningTurn := ⟨"s", "/tmp", "prompt", "answer", "\x7b\x7d"⟩

/-- The lease of the first worker runs out, and a second worker completes the item. -/
def completedBySecond : List LearningOp :=
  [.enqueue "q" sampleTurn 0, .claim 120 0, .claim 120 200, .complete ⟨"q", 1⟩ 201]

def completedRun : LearningRun := ((learningScript completedBySecond).getD {})

theorem completedRun_script : learningScript completedBySecond = some completedRun := by
  have hsome : (learningScript completedBySecond).isSome = true := by decide +kernel
  obtain ⟨r, hr⟩ := Option.isSome_iff_exists.mp hsome
  unfold completedRun
  rw [hr]
  rfl

/-- Every attempt ends in a crash. -/
def crashedRun : LearningRun :=
  (learningScript [.enqueue "q" sampleTurn 0, .claim 120 0, .claim 120 200, .claim 120 400,
    .claim 120 600]).getD {}

theorem crashedRun_reachable : (learningSystem 3).Reachable crashedRun := by
  have hsome : (learningScript [.enqueue "q" sampleTurn 0, .claim 120 0, .claim 120 200,
      .claim 120 400, .claim 120 600]).isSome = true := by decide
  obtain ⟨r, hr⟩ := Option.isSome_iff_exists.mp hsome
  unfold crashedRun
  rw [hr]
  exact reachable_of_script hr

theorem reach_next {r : LearningRun} (hr : (learningSystem 3).Reach (Attended 3) r)
    (op : LearningOp) (hattended : Attended 3 r op) (hop : op.Proper r) :
    (learningSystem 3).Reach (Attended 3) (r.next 3 op) :=
  hr.next hattended ⟨hop, rfl⟩

def enqueuedRun : LearningRun := LearningRun.next 3 {} (.enqueue "q" sampleTurn 0)

/-- An item that its only worker holds. -/
def claimedRun : LearningRun := enqueuedRun.next 3 (.claim 120 0)

theorem claimedRun_reach : (learningSystem 3).Reach (Attended 3) claimedRun := by
  have h0 : (learningSystem 3).Reach (Attended 3) {} := .start rfl
  have h1 : (learningSystem 3).Reach (Attended 3) enqueuedRun :=
    reach_next h0 (.enqueue "q" sampleTurn 0) trivial trivial
  refine reach_next h1 (.claim 120 0) ?_ trivial
  intro queueId row hrow hexpired
  have hnew : enqueuedRun.queue.values.all (fun row => row.status = .pending) = true := by
    decide
  have hpending := of_decide_eq_true (List.all_eq_true.mp hnew row
    (Dict.mem_values.mpr ⟨queueId, hrow⟩))
  rw [hexpired.1] at hpending
  cases hpending

theorem claimedRun_attended : Attended 3 claimedRun (.complete ⟨"q", 0⟩ 1) := by
  rintro - entry hentry
  have hlog : claimedRun.log.get? "q" = some ⟨1, some 0⟩ := by decide
  rw [hlog] at hentry
  cases hentry
  rfl

end Example

end Switchboard.Learning
