import Mathlib.Data.List.TakeWhile
import Switchboard.Library.Run
import Switchboard.Library.SlidingWindow

/-!
# The strict sliding-window limiter

Callers come to the limiter in any order, sleep while it is full and look again when
they wake. No window holds more than `rateLimit` of the acquisitions it records, and
a caller whose condition fails leaves behind what no later caller can tell apart.
-/

namespace Switchboard.RateLimit

open SlidingWindow

structure StrictSlidingWindowLimiter where
  rateLimit : ℕ
  rateWindow : ℚ
  limit_pos : 0 < rateLimit
  window_pos : 0 < rateWindow

namespace StrictSlidingWindowLimiter

def create (rateLimit : ℤ) (rateWindow : ℚ) : Except String StrictSlidingWindowLimiter :=
  if hlimit : 0 < rateLimit then
    if hwindow : 0 < rateWindow then
      .ok ⟨rateLimit.toNat, rateWindow, by omega, hwindow⟩
    else .error "rate_window must be > 0"
  else .error "rate_limit must be > 0"

variable (l : StrictSlidingWindowLimiter) {now later : ℚ} {times : List ℚ}

/-- `_times` once the expired timestamps at its left end are popped. -/
def popExpired (now : ℚ) (times : List ℚ) : List ℚ :=
  times.dropWhile fun t => t ≤ now - l.rateWindow

/-- What is popped is a whole window old. -/
theorem popExpired_split : ∃ old, times = old ++ l.popExpired now times ∧
    ∀ t ∈ old, t + l.rateWindow ≤ now := by
  refine ⟨times.takeWhile fun t => t ≤ now - l.rateWindow, ?_, fun t ht => ?_⟩
  · unfold popExpired
    rw [List.takeWhile_append_dropWhile]
  · have hold : t ≤ now - l.rateWindow := by simpa using List.mem_takeWhile_imp ht
    linarith

/-- Who looks later pops what an earlier look has popped. -/
theorem popExpired_popExpired (h : now ≤ later) :
    l.popExpired later (l.popExpired now times) = l.popExpired later times := by
  induction times with
  | nil => rfl
  | cons t times ih =>
    unfold popExpired at ih ⊢
    by_cases hnow : t ≤ now - l.rateWindow
    · have hlater : t ≤ later - l.rateWindow := by linarith
      rw [List.dropWhile_cons_of_pos (by simpa using hnow),
        List.dropWhile_cons_of_pos (by simpa using hlater)]
      exact ih
    · rw [@List.dropWhile_cons_of_neg _ (fun t => decide (t ≤ now - l.rateWindow)) _ _
        (by simpa using hnow)]

/-- What one round under the lock comes to. -/
inductive Round where
  | recorded
  | rejected
  | full (waitTime : ℚ)
deriving DecidableEq, Repr

/-- One round under the lock: `now` is the first reading of the clock, `stamp` the
second one. `allowed` is the answer of the condition, if the caller has one. -/
def lockedRound (now stamp : ℚ) (allowed : Option Bool) (times : List ℚ) : List ℚ × Round :=
  let kept := l.popExpired now times
  if kept.length < l.rateLimit then
    if allowed = some false then (kept, .rejected)
    else (kept ++ [stamp], .recorded)
  else (kept, .full (max 0 ((kept.headD 0 + l.rateWindow) - now)))

end StrictSlidingWindowLimiter

open StrictSlidingWindowLimiter

/-! ## Callers -/

/-- Where a caller is in `_acquire`. -/
inductive Caller where
  | idle
  | looking (conditional : Bool)
  | sleeping (conditional : Bool) (wake : ℚ)
  | returned (admitted : Bool)
deriving DecidableEq, Repr

structure LimiterState (κ : Type) where
  times : List ℚ := []
  clock : ℚ
  caller : κ → Caller := fun _ => .idle
  /-- Every timestamp that was appended, oldest first. -/
  acquisitions : List ℚ := []

/-- `look` carries the second reading of the clock and the answer of the condition. -/
inductive Label (κ : Type) where
  | tick (elapsed : ℚ)
  | acquire (k : κ)
  | acquireIf (k : κ)
  | look (k : κ) (stamp : ℚ) (answer : Bool)
  | wake (k : κ)
  | cancel (k : κ)

namespace LimiterState

variable {κ : Type} [DecidableEq κ] (l : StrictSlidingWindowLimiter) (s : LimiterState κ)

def goto (k : κ) (c : Caller) : LimiterState κ :=
  { s with caller := Function.update s.caller k c }

/-- No step between taking the lock and releasing it yields, so a round is one step. -/
def lookRound (k : κ) (conditional : Bool) (stamp : ℚ) (answer : Bool) : LimiterState κ :=
  let result := l.lockedRound s.clock stamp (if conditional then some answer else none) s.times
  match result.2 with
  | .recorded =>
    { s with times := result.1, clock := stamp, acquisitions := s.acquisitions ++ [stamp] }.goto k
      (.returned true)
  | .rejected => { s with times := result.1, clock := stamp }.goto k (.returned false)
  | .full wait =>
    { s with times := result.1, clock := stamp }.goto k (.sleeping conditional (s.clock + wait))

/-- A caller that has returned may call again. What wakes a sleeper is not relied on,
so it may wake at any time. -/
def act : Label κ → Option (LimiterState κ)
  | .tick elapsed => if 0 ≤ elapsed then some { s with clock := s.clock + elapsed } else none
  | .acquire k =>
    match s.caller k with
    | .idle | .returned _ => some (s.goto k (.looking false))
    | .looking _ | .sleeping _ _ => none
  | .acquireIf k =>
    match s.caller k with
    | .idle | .returned _ => some (s.goto k (.looking true))
    | .looking _ | .sleeping _ _ => none
  | .look k stamp answer =>
    match s.caller k with
    | .looking conditional =>
      if s.clock ≤ stamp then some (s.lookRound l k conditional stamp answer) else none
    | .idle | .returned _ | .sleeping _ _ => none
  | .wake k =>
    match s.caller k with
    | .sleeping conditional _ => some (s.goto k (.looking conditional))
    | .idle | .returned _ | .looking _ => none
  | .cancel k =>
    match s.caller k with
    | .sleeping _ _ | .looking _ => some (s.goto k .idle)
    | .idle | .returned _ => none

end LimiterState

/-- Runs of one limiter with any callers. -/
def limiterSystem (κ : Type) [DecidableEq κ] (l : StrictSlidingWindowLimiter) :
    System (LimiterState κ) (Label κ) where
  init s := ∃ now, s = { clock := now }
  step s a t := s.act l a = some t

/-! ## What the rounds keep -/

namespace StrictSlidingWindowLimiter

variable {l : StrictSlidingWindowLimiter} {now later stamp : ℚ} {times : List ℚ}
  {allowed : Option Bool}

theorem lockedRound_recorded (h : (l.lockedRound now stamp allowed times).2 = .recorded) :
    (l.popExpired now times).length < l.rateLimit ∧
      (l.lockedRound now stamp allowed times).1 = l.popExpired now times ++ [stamp] := by
  unfold lockedRound at h ⊢
  dsimp only at h ⊢
  by_cases hbelow : (l.popExpired now times).length < l.rateLimit
  · by_cases hallowed : allowed = some false
    · simp [hbelow, hallowed] at h
    · simp [hbelow, hallowed]
  · simp [hbelow] at h

theorem lockedRound_not_recorded (h : (l.lockedRound now stamp allowed times).2 ≠ .recorded) :
    (l.lockedRound now stamp allowed times).1 = l.popExpired now times := by
  unfold lockedRound at h ⊢
  dsimp only at h ⊢
  split_ifs at h ⊢
  · rfl
  · exact absurd rfl h
  · rfl

/-- After the computed wait one timestamp less counts. -/
theorem lockedRound_full {waitTime : ℚ}
    (h : (l.lockedRound now stamp allowed times).2 = .full waitTime)
    (hlater : now + waitTime ≤ later) :
    (l.popExpired later times).length < (l.popExpired now times).length := by
  unfold lockedRound at h
  dsimp only at h
  split_ifs at h with hbelow
  have hpositive := l.limit_pos
  have hwait : 0 ≤ waitTime := by
    cases h
    exact le_max_left _ _
  rw [← l.popExpired_popExpired (by linarith : now ≤ later)]
  generalize l.popExpired now times = kept at h hbelow ⊢
  cases kept with
  | nil => exact absurd hpositive hbelow
  | cons oldest kept =>
    have hexpired : oldest ≤ later - l.rateWindow := by
      cases h
      have hcomputed := le_max_right 0 (oldest + l.rateWindow - now)
      simp only [List.headD_cons] at hlater
      linarith
    unfold popExpired
    rw [List.dropWhile_cons_of_pos (by simpa using hexpired), List.length_cons]
    exact Nat.lt_succ_of_le (List.length_dropWhile_le _ _)

/-- A later round does not see whether the timestamps expired by now were popped. -/
theorem lockedRound_popExpired (h : now ≤ later) :
    l.lockedRound later stamp allowed (l.popExpired now times) =
      l.lockedRound later stamp allowed times := by
  unfold lockedRound
  rw [l.popExpired_popExpired h]

end StrictSlidingWindowLimiter

namespace LimiterState

variable {κ : Type} {l : StrictSlidingWindowLimiter} {s t : LimiterState κ} {k : κ}
  {conditional answer : Bool} {stamp : ℚ} {a : Label κ}

/-- Every acquisition still counts or is a window old, and no window has too many. -/
structure Paced (l : StrictSlidingWindowLimiter) (s : LimiterState κ) : Prop where
  strict : Strict l.rateLimit l.rateWindow s.acquisitions
  recent : ∃ old, s.acquisitions = old ++ s.times ∧ ∀ t ∈ old, t + l.rateWindow ≤ s.clock

/-- Time passes, and timestamps that have expired may be popped. -/
theorem Paced.later (h : s.Paced l) (hclock : s.clock ≤ t.clock)
    (hlog : t.acquisitions = s.acquisitions)
    (htimes : t.times = s.times ∨ t.times = l.popExpired s.clock s.times) : t.Paced l := by
  obtain ⟨old, hold, hpast⟩ := h.recent
  refine ⟨hlog ▸ h.strict, ?_⟩
  rw [hlog]
  rcases htimes with htimes | htimes
  · exact ⟨old, htimes ▸ hold, fun u hu => (hpast u hu).trans hclock⟩
  · obtain ⟨popped, hsplit, hpopped⟩ := @popExpired_split l s.clock s.times
    refine ⟨old ++ popped, ?_, fun u hu => ?_⟩
    · rw [htimes, List.append_assoc, ← hsplit, hold]
    · rcases List.mem_append.mp hu with hu | hu
      · exact (hpast u hu).trans hclock
      · exact (hpopped u hu).trans hclock

/-- An acquisition is recorded while fewer than the limit still count. -/
theorem Paced.records (h : s.Paced l) (hclock : s.clock ≤ stamp)
    (hbelow : (l.popExpired s.clock s.times).length < l.rateLimit)
    (htimes : t.times = l.popExpired s.clock s.times ++ [stamp]) (hnow : t.clock = stamp)
    (hlog : t.acquisitions = s.acquisitions ++ [stamp]) : t.Paced l := by
  have hpopped : Paced l { s with times := l.popExpired s.clock s.times, clock := stamp } :=
    h.later hclock rfl (Or.inr rfl)
  obtain ⟨old, hold, hpast⟩ := hpopped.recent
  dsimp only at hold hpast
  refine ⟨?_, old, ?_, fun u hu => hnow ▸ hpast u hu⟩
  · have hstrict := h.strict
    rw [hlog, hold]
    rw [hold] at hstrict
    exact hstrict.concat hpast hbelow
  · rw [hlog, htimes, hold, List.append_assoc]

variable [DecidableEq κ]

theorem Paced.lookRound (h : s.Paced l) (hclock : s.clock ≤ stamp) :
    (s.lookRound l k conditional stamp answer).Paced l := by
  unfold LimiterState.lookRound
  dsimp only
  split
  · next hround =>
    obtain ⟨hbelow, htimes⟩ := lockedRound_recorded hround
    exact h.records hclock hbelow htimes rfl rfl
  · next hround =>
    refine h.later hclock rfl (Or.inr (lockedRound_not_recorded ?_))
    rw [hround]
    simp
  · next hround =>
    refine h.later hclock rfl (Or.inr (lockedRound_not_recorded ?_))
    rw [hround]
    simp

/-- A step that is not a round leaves the timestamps and does not turn the clock back. -/
theorem Paced.act_paced (h : s.Paced l) (ht : s.act l a = some t) : t.Paced l := by
  cases a with
  | tick elapsed =>
    simp only [act] at ht
    split_ifs at ht with helapsed
    cases ht
    exact h.later (le_add_of_nonneg_right helapsed) rfl (Or.inl rfl)
  | look k stamp answer =>
    simp only [act] at ht
    split at ht <;> try cases ht
    split_ifs at ht with hclock
    cases ht
    exact h.lookRound hclock
  | _ =>
    simp only [act] at ht
    split at ht <;> cases ht <;> exact h.later le_rfl rfl (Or.inl rfl)

theorem reachable_paced (hs : (limiterSystem κ l).Reachable s) : s.Paced l := by
  refine hs.invariant (fun s h0 => ?_) fun s a t _ h ht => ?_
  · obtain ⟨now, rfl⟩ := h0
    exact ⟨strict_nil, [], rfl, fun t ht => absurd ht List.not_mem_nil⟩
  · exact h.act_paced ht

/-- What a look leaves behind that ends in a rejection. -/
theorem look_rejected (ht : s.act l (.look k stamp answer) = some t)
    (hrejected : t.caller k = .returned false) :
    t.acquisitions = s.acquisitions ∧ t.times = l.popExpired s.clock s.times ∧
      ∀ j, j ≠ k → t.caller j = s.caller j := by
  simp only [act] at ht
  split at ht <;> try cases ht
  split_ifs at ht
  cases ht
  unfold LimiterState.lookRound at hrejected ⊢
  dsimp only at hrejected ⊢
  split at hrejected
  · simp [goto] at hrejected
  · next hround =>
    refine ⟨rfl, lockedRound_not_recorded ?_, fun j hj => ?_⟩
    · rw [hround]
      simp
    · simp [goto, hj]
  · simp [goto] at hrejected

end LimiterState

open LimiterState

/-- One acquisition a second, one caller: it acquires at 0 and comes back at 5. -/
def oneASecond : StrictSlidingWindowLimiter := ⟨1, 1, Nat.one_pos, one_pos⟩

def comeBack : List (Label Unit) := [.acquire (), .look () 0 true, .tick 5, .acquireIf ()]

def backAtFive : LimiterState Unit :=
  { times := [0], clock := 5, caller := fun _ => .looking true, acquisitions := [0] }

theorem backAtFive_reachable : (limiterSystem Unit oneASecond).Reachable backAtFive := by
  have hscript : System.replay (fun s a => act oneASecond s a) { clock := 0 } comeBack =
      some backAtFive := by
    simp [System.replay, comeBack, act, goto, lookRound, lockedRound, popExpired, oneASecond,
      backAtFive]
    funext j
    simp
  exact System.Reachable.replay (fun s a t h => ⟨a, h⟩) (.start ⟨0, rfl⟩) hscript

theorem backAtFive_rejected : backAtFive.act oneASecond (.look () 5 false) =
    some ({ backAtFive with times := [] }.goto () (.returned false)) := by
  simp [act, lookRound, lockedRound, popExpired, oneASecond, backAtFive]

end Switchboard.RateLimit
