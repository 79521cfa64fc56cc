import Mathlib.Data.List.TakeWhile
import Switchboard.Library.SlidingWindow
import Switchboard.Providers.Leadership

/-!
# The rate window of a provider

At most `rateLimit` passages through the limiter fall in any half-open window, and
every attempt that `open_attempt` returns has a passage of its own. What starts later
than it passed, because it waited for the semaphore, is not bounded by the window.
-/

namespace Switchboard.Providers

open SlidingWindow

/-- An attempt that `open_attempt` returned: which passage through the limiter it
rests on, when that was, and when it was returned. -/
structure Opening where
  passage : ℕ
  passedAt : ℚ
  openedAt : ℚ
deriving DecidableEq, Repr

/-- A controller with the history of its run. -/
structure RateLog (σ φ ε : Type) where
  state : AdmissionState σ φ ε
  /-- The times the limiter has recorded, oldest first. -/
  passages : List ℚ := []
  /-- The last passage of a frame. -/
  passed : φ → ℕ := fun _ => 0
  openings : List Opening := []

def AdmissionPc.isSlotting {ε : Type} : AdmissionPc ε → Bool
  | .slotting _ => true
  | _ => false

def AdmissionPc.isOpen {ε : Type} : AdmissionPc ε → Bool
  | .attempt _ _ => true
  | _ => false

namespace RateLog

open AdmissionState

variable {σ φ ε : Type} [DecidableEq σ] [DecidableEq φ] {cfg : AdmissionConfig} {owner : φ → σ}

/-- A passage is recorded when a frame comes to wait for the semaphore, an opening
when it goes on from there with an attempt. -/
def record (r : RateLog σ φ ε) (t : AdmissionState σ φ ε) : Label φ ε → RateLog σ φ ε
  | .tick _ => { r with state := t }
  | .frame f _ =>
    if (t.pc f).isSlotting then
      { r with
        state := t
        passages := r.passages ++ [t.now]
        passed := Function.update r.passed f r.passages.length }
    else if (r.state.pc f).isSlotting ∧ (t.pc f).isOpen then
      { r with
        state := t
        openings := r.openings ++ [⟨r.passed f, r.passages.getD (r.passed f) 0, t.now⟩] }
    else { r with state := t }

end RateLog

open AdmissionState in
/-- Runs of one controller, with their history. -/
def rateSystem {σ φ : Type} (ε : Type) [DecidableEq σ] [DecidableEq φ]
    (cfg : AdmissionConfig) (owner : φ → σ) : System (RateLog σ φ ε) (Label φ ε) where
  init r := ∃ now, r = { state := fresh cfg now }
  step r l r' := ∃ t, (admissionSystem ε cfg owner).step r.state l t ∧ r' = r.record t l

namespace AdmissionState

variable {σ φ ε : Type} [DecidableEq σ] [DecidableEq φ] {cfg : AdmissionConfig} {owner : φ → σ}
  {s t u : AdmissionState σ φ ε} {f : φ} {x : σ} {p : GatePermit} {c : AdmissionPc ε}
  {e : RecoveryEpisode σ ε}

/-! ## Steps apart from the limiter -/

/-- A step of `f` that records no time and does not lead it to the semaphore. -/
structure Unpaced (s t : AdmissionState σ φ ε) (f : φ) : Prop where
  now : t.now = s.now
  times : t.times = s.times
  point : (t.pc f).isSlotting = false

omit [DecidableEq σ] in
theorem unpaced_goto (hnow : u.now = s.now) (htimes : u.times = s.times)
    (hc : c.isSlotting = false) : Unpaced s (u.goto f c) f := by
  refine ⟨hnow, htimes, ?_⟩
  simp only [goto, Function.update_self]
  exact hc

omit [DecidableEq σ] in
theorem unpaced_dropPermit {again : Bool} (hnow : u.now = s.now) (htimes : u.times = s.times) :
    Unpaced s (u.dropPermit f p again) f := by
  unfold AdmissionState.dropPermit
  split
  · exact unpaced_goto hnow htimes rfl
  · cases again <;> exact unpaced_goto hnow htimes rfl

theorem unpaced_joinEpisode (hnow : u.now = s.now) (htimes : u.times = s.times) :
    Unpaced s (u.joinEpisode owner f e) f := by
  unfold AdmissionState.joinEpisode
  dsimp only
  split_ifs <;> exact unpaced_goto hnow htimes rfl

theorem unpaced_gateRound : Unpaced s (s.gateRound owner f) f := by
  unfold AdmissionState.gateRound AdmissionState.gateSection
  split
  · exact unpaced_goto rfl rfl rfl
  · split
    · exact unpaced_goto rfl rfl rfl
    · split
      · exact unpaced_joinEpisode rfl rfl
      · split_ifs
        · exact unpaced_goto rfl rfl rfl
        · exact unpaced_joinEpisode rfl rfl

theorem unpaced_claimProbe {generation : ℕ} : Unpaced s (s.claimProbe owner f generation) f := by
  unfold AdmissionState.claimProbe
  split
  · exact unpaced_goto rfl rfl rfl
  · split_ifs <;> exact unpaced_goto rfl rfl rfl

theorem unpaced_slotSection : Unpaced s (s.slotSection cfg owner f p) f := by
  unfold AdmissionState.slotSection
  split_ifs
  · exact unpaced_dropPermit rfl rfl
  · exact unpaced_dropPermit rfl rfl
  · exact unpaced_goto rfl rfl rfl

omit [DecidableEq φ] in
theorem giveUpProbe_clock : (s.giveUpProbe x p).now = s.now ∧
    (s.giveUpProbe x p).times = s.times := by
  unfold giveUpProbe
  split <;> exact ⟨rfl, rfl⟩

omit [DecidableEq φ] in
theorem outcomeSection_clock {o : AttemptOutcome ε} : (s.outcomeSection x p o).now = s.now ∧
    (s.outcomeSection x p o).times = s.times := by
  cases o with
  | failed =>
    simp only [outcomeSection, attemptFailed]
    repeat' split
    all_goals exact ⟨rfl, rfl⟩
  | _ =>
    simp only [outcomeSection, attemptSucceeded, attemptCorrected, attemptRejected]
    split <;> exact ⟨rfl, rfl⟩

theorem unpaced_advance (ht : s.advance cfg owner f = some t) : Unpaced s t f := by
  unfold AdmissionState.advance at ht
  split at ht
  · cases ht
    exact unpaced_gateRound
  · split_ifs at ht
    cases ht
    exact unpaced_claimProbe
  · cases ht
    refine unpaced_goto ?_ ?_ rfl <;> unfold discardWaiter <;> split <;> try rfl
    all_goals split_ifs <;> rfl
  · cases ht
    refine unpaced_goto ?_ ?_ rfl <;> unfold abandonWaitingLeader <;> split <;> try rfl
    all_goals split_ifs <;> rfl
  · split_ifs at ht
    cases ht
    exact unpaced_slotSection
  · next again _ =>
    cases ht
    cases again <;> exact unpaced_goto giveUpProbe_clock.1 giveUpProbe_clock.2 rfl
  · cases ht
    exact unpaced_goto outcomeSection_clock.1 outcomeSection_clock.2 rfl
  · cases ht
    exact unpaced_goto giveUpProbe_clock.1 giveUpProbe_clock.2 rfl
  · cases ht
    exact unpaced_goto rfl rfl rfl
  · cases ht
    exact unpaced_goto giveUpProbe_clock.1 giveUpProbe_clock.2 rfl
  · cases ht

omit [DecidableEq σ] in
theorem unpaced_cancel (ht : s.cancel f = some t) : Unpaced s t f := by
  unfold AdmissionState.cancel at ht
  split at ht
  case h_6 =>
    cases ht
    exact unpaced_dropPermit rfl rfl
  case h_7 =>
    cases ht
    exact unpaced_dropPermit rfl rfl
  case h_8 =>
    cases ht
    split_ifs <;> exact unpaced_goto rfl rfl rfl
  case h_12 => cases ht
  all_goals
    cases ht
    exact unpaced_goto rfl rfl rfl

/-- The times that still count when a frame looks at the clock. -/
def recentTimes (cfg : AdmissionConfig) (s : AdmissionState σ φ ε) : List ℚ :=
  s.times.dropWhile fun t => t ≤ s.now - cfg.rateWindow

/-- A frame passes the limiter. -/
structure Passes (cfg : AdmissionConfig) (s t : AdmissionState σ φ ε) (f : φ) : Prop where
  now : s.now ≤ t.now
  below : (s.recentTimes cfg).length < cfg.rateLimit
  times : t.times = s.recentTimes cfg ++ [t.now]
  point : (t.pc f).isSlotting = true

theorem act_paced {a : Action ε} (ht : s.act cfg owner f a = some t) :
    (t.pc f).isSlotting = false ∧ t.now = s.now ∧
        (t.times = s.times ∨ t.times = s.recentTimes cfg) ∨ Passes cfg s t f := by
  have hunpaced : Unpaced s t f → (t.pc f).isSlotting = false ∧ t.now = s.now ∧
      (t.times = s.times ∨ t.times = s.recentTimes cfg) := fun h => ⟨h.point, h.now, Or.inl h.times⟩
  cases a with
  | advance => exact Or.inl (hunpaced (unpaced_advance ht))
  | cancel => exact Or.inl (hunpaced (unpaced_cancel ht))
  | begin =>
    simp only [AdmissionState.act] at ht
    split at ht
    · cases ht
      refine Or.inl (hunpaced (unpaced_goto rfl rfl ?_))
      split_ifs <;> rfl
    · cases ht
  | pace elapsed =>
    simp only [AdmissionState.act] at ht
    split at ht
    · next q hs =>
      split_ifs at ht with helapsed
      cases ht
      unfold AdmissionState.limiterSection
      dsimp only
      split_ifs with hbelow hcurrent
      · refine Or.inr ⟨?_, hbelow, rfl, ?_⟩
        · exact le_add_of_nonneg_right helapsed
        · simp [goto, AdmissionPc.isSlotting]
      · have hdrop : Unpaced { s with times := s.recentTimes cfg }
            (AdmissionState.dropPermit { s with times := s.recentTimes cfg } f q true) f :=
          unpaced_dropPermit rfl rfl
        exact Or.inl ⟨hdrop.point, hdrop.now, Or.inr hdrop.times⟩
      · refine Or.inl ⟨?_, rfl, Or.inr rfl⟩
        simp only [hs, AdmissionPc.isSlotting]
    · cases ht
  | wake =>
    simp only [AdmissionState.act] at ht
    split at ht
    · cases ht
      exact Or.inl (hunpaced (unpaced_goto rfl rfl rfl))
    · cases ht
      exact Or.inl (hunpaced (unpaced_goto rfl rfl rfl))
    · cases ht
  | report r =>
    simp only [AdmissionState.act] at ht
    split at ht
    · cases ht
      refine Or.inl (hunpaced ?_)
      unfold reportOutcome
      split
      · exact unpaced_goto rfl rfl rfl
      · split_ifs <;> exact unpaced_goto rfl rfl rfl
    · cases ht
  | close =>
    simp only [AdmissionState.act] at ht
    split at ht
    · cases ht
      exact Or.inl (hunpaced (unpaced_goto rfl rfl rfl))
    · cases ht
      exact Or.inl (hunpaced (unpaced_goto rfl rfl rfl))
    · cases ht

end AdmissionState

/-! ## Runs -/

namespace RateLog

open AdmissionState

variable {σ φ ε : Type} {cfg : AdmissionConfig} {owner : φ → σ} {r : RateLog σ φ ε}
  {s t : AdmissionState σ φ ε} {f g : φ}

/-- The passage of a frame that waits for the semaphore is recorded and not used yet. -/
structure Waits (r : RateLog σ φ ε) (f : φ) : Prop where
  recorded : r.passed f < r.passages.length
  unused : r.passed f ∉ r.openings.map (·.passage)

structure Paced (cfg : AdmissionConfig) (r : RateLog σ φ ε) : Prop where
  strict : Strict cfg.rateLimit cfg.rateWindow r.passages
  recent : ∃ old, r.passages = old ++ r.state.times ∧
    ∀ t ∈ old, t + cfg.rateWindow ≤ r.state.now
  past : ∀ t ∈ r.passages, t ≤ r.state.now
  waits : ∀ {f}, (r.state.pc f).isSlotting = true → r.Waits f
  distinct : ∀ {f g}, (r.state.pc f).isSlotting = true → (r.state.pc g).isSlotting = true →
    r.passed f = r.passed g → f = g
  openings : ∀ o ∈ r.openings, r.passages[o.passage]? = some o.passedAt ∧ o.passedAt ≤ o.openedAt
  once : (r.openings.map (·.passage)).Nodup

/-- Time that passes moves nothing into the window. -/
theorem Paced.later (h : r.Paced cfg) (hnow : r.state.now ≤ t.now)
    (htimes : t.times = r.state.times ∨ t.times = r.state.recentTimes cfg) :
    (∃ old, r.passages = old ++ t.times ∧ ∀ u ∈ old, u + cfg.rateWindow ≤ t.now) ∧
      ∀ u ∈ r.passages, u ≤ t.now := by
  refine ⟨?_, fun u hu => (h.past u hu).trans hnow⟩
  obtain ⟨old, hold, hpast⟩ := h.recent
  rcases htimes with htimes | htimes
  · rw [htimes]
    exact ⟨old, hold, fun u hu => (hpast u hu).trans hnow⟩
  · refine ⟨old ++ r.state.times.takeWhile fun t => t ≤ r.state.now - cfg.rateWindow, ?_, ?_⟩
    · rw [htimes, hold, List.append_assoc]
      unfold recentTimes
      rw [List.takeWhile_append_dropWhile]
    · intro u hu
      rcases List.mem_append.mp hu with hu | hu
      · exact (hpast u hu).trans hnow
      · have hdropped : u ≤ r.state.now - cfg.rateWindow := by
          simpa using List.mem_takeWhile_imp hu
        linarith

/-- A step of a frame that neither passes the limiter nor opens an attempt. -/
theorem Paced.quiet (h : r.Paced cfg) (hnow : r.state.now ≤ t.now)
    (htimes : t.times = r.state.times ∨ t.times = r.state.recentTimes cfg)
    (hslots : ∀ {f}, (t.pc f).isSlotting = true → (r.state.pc f).isSlotting = true) :
    Paced cfg { r with state := t } := by
  obtain ⟨hrecent, hpast⟩ := h.later hnow htimes
  have hwaits : ∀ {f}, (t.pc f).isSlotting = true → Waits { r with state := t } f := fun hf =>
    ⟨(h.waits (hslots hf)).recorded, (h.waits (hslots hf)).unused⟩
  exact ⟨h.strict, hrecent, hpast, hwaits, fun hf hg => h.distinct (hslots hf) (hslots hg),
    h.openings, h.once⟩

/-- An attempt is returned on the passage its frame has waited with. -/
theorem Paced.opens (h : r.Paced cfg) (hnow : t.now = r.state.now)
    (htimes : t.times = r.state.times ∨ t.times = r.state.recentTimes cfg)
    (hf : (r.state.pc f).isSlotting = true) (hgone : (t.pc f).isSlotting = false)
    (hslots : ∀ {g}, (t.pc g).isSlotting = true → (r.state.pc g).isSlotting = true) :
    Paced cfg { r with
      state := t
      openings := r.openings ++ [⟨r.passed f, r.passages.getD (r.passed f) 0, t.now⟩] } := by
  obtain ⟨hrecent, hpast⟩ := h.later hnow.ge htimes
  obtain ⟨hrecorded, hunused⟩ := h.waits hf
  have hget : r.passages[r.passed f]? = some (r.passages.getD (r.passed f) 0) := by
    simp [hrecorded]
  refine ⟨h.strict, hrecent, hpast, fun {g} hg => ⟨(h.waits (hslots hg)).recorded, ?_⟩,
    fun hg hk => h.distinct (hslots hg) (hslots hk), ?_, ?_⟩
  · change r.passed g ∉ (r.openings ++ [_]).map Opening.passage
    rw [List.map_append, List.mem_append, not_or, List.map_singleton, List.mem_singleton]
    refine ⟨(h.waits (hslots hg)).unused, fun heq => ?_⟩
    rw [h.distinct (hslots hg) hf heq, hgone] at hg
    cases hg
  · intro o ho
    rcases List.mem_append.mp ho with ho | ho
    · exact h.openings o ho
    · rw [List.mem_singleton.mp ho]
      exact ⟨hget, hpast _ (List.mem_of_getElem? hget)⟩
  · change ((r.openings ++ [_]).map Opening.passage).Nodup
    rw [List.map_append, List.map_singleton]
    refine h.once.append (List.nodup_singleton _) ?_
    rw [List.disjoint_singleton]
    exact hunused

/-- Openings in a window that also passed the limiter in it. -/
theorem Paced.countP_passed_le (h : r.Paced cfg) (a : ℚ) :
    r.openings.countP (fun o => within cfg.rateWindow a o.passedAt) ≤ cfg.rateLimit := by
  have hpositions := countP_positions_le cfg.rateWindow r.passages h.once a
  rw [List.countP_map] at hpositions
  refine le_trans (le_of_eq ?_) (hpositions.trans (h.strict a))
  refine List.countP_congr fun o ho => ?_
  simp [(h.openings o ho).1]

theorem Paced.countP_opened_le (h : r.Paced cfg) (a : ℚ) :
    r.openings.countP (fun o => within cfg.rateWindow a o.openedAt) ≤ cfg.rateLimit +
      r.openings.countP (fun o => within cfg.rateWindow a o.openedAt && o.passedAt < a) := by
  have hsplit : r.openings.countP (fun o => within cfg.rateWindow a o.openedAt) ≤
      r.openings.countP (fun o => within cfg.rateWindow a o.passedAt) +
        r.openings.countP (fun o => within cfg.rateWindow a o.openedAt && o.passedAt < a) := by
    refine countP_le_add fun o ho hin => ?_
    obtain ⟨-, hlt⟩ := within_iff.mp hin
    by_cases hbefore : o.passedAt < a
    · right
      simp [hin, hbefore]
    · left
      exact within_iff.mpr ⟨not_lt.mp hbefore, ((h.openings o ho).2).trans_lt hlt⟩
  have hpassed := h.countP_passed_le a
  omega

variable [DecidableEq φ]

/-- A frame passes the limiter. -/
theorem Paced.passes (h : r.Paced cfg) (ht : Passes cfg r.state t f)
    (hmoves : Moves r.state t f) :
    Paced cfg { r with
      state := t
      passages := r.passages ++ [t.now]
      passed := Function.update r.passed f r.passages.length } := by
  obtain ⟨⟨old, hold, hout⟩, hpast⟩ :=
    h.later (t := { t with times := r.state.recentTimes cfg }) ht.now (Or.inr rfl)
  have hother : ∀ {g}, g ≠ f → (t.pc g).isSlotting = true → r.Waits g := by
    intro g hg hslot
    rw [hmoves g hg] at hslot
    exact h.waits hslot
  have hbelow : ∀ o ∈ r.openings, o.passage < r.passages.length := fun o ho =>
    (List.getElem?_eq_some_iff.mp (h.openings o ho).1).1
  refine ⟨?_, ⟨old, ?_, hout⟩, ?_, fun {g} hslot => ?_, fun {g k} hg hk heq => ?_, ?_, h.once⟩
  · have hstrict := h.strict
    rw [hold] at hstrict
    change Strict _ _ (r.passages ++ [t.now])
    rw [hold]
    exact hstrict.concat hout ht.below
  · change r.passages ++ [t.now] = old ++ t.times
    rw [ht.times, hold, List.append_assoc]
  · intro u hu
    rcases List.mem_append.mp hu with hu | hu
    · exact hpast u hu
    · rw [List.mem_singleton.mp hu]
  · by_cases hg : g = f
    · subst hg
      refine ⟨?_, fun hmem => ?_⟩
      · simp
      · obtain ⟨o, ho, hpassage⟩ := List.mem_map.mp hmem
        have hlt := hbelow o ho
        simp only [Function.update_self] at hpassage
        omega
    · obtain ⟨hrecorded, hunused⟩ := hother hg hslot
      refine ⟨?_, ?_⟩
      · simp only [Function.update_of_ne hg, List.length_append, List.length_singleton]
        exact Nat.lt_succ_of_lt hrecorded
      · simp only [Function.update_of_ne hg]
        exact hunused
  · by_cases hgf : g = f
    · by_cases hkf : k = f
      · rw [hgf, hkf]
      · have hlt := (hother hkf hk).recorded
        simp only [hgf, Function.update_self, Function.update_of_ne hkf] at heq
        omega
    · by_cases hkf : k = f
      · have hlt := (hother hgf hg).recorded
        simp only [hkf, Function.update_self, Function.update_of_ne hgf] at heq
        omega
      · simp only [Function.update_of_ne hgf, Function.update_of_ne hkf] at heq
        rw [hmoves g hgf] at hg
        rw [hmoves k hkf] at hk
        exact h.distinct hg hk heq
  · intro o ho
    refine ⟨?_, (h.openings o ho).2⟩
    rw [List.getElem?_append_left (hbelow o ho)]
    exact (h.openings o ho).1

variable [DecidableEq σ]

theorem Paced.record (h : r.Paced cfg) {l : Label φ ε}
    (ht : (admissionSystem ε cfg owner).step r.state l t) : (r.record t l).Paced cfg := by
  cases l with
  | tick elapsed =>
    obtain ⟨helapsed, rfl⟩ := ht
    exact h.quiet (le_add_of_nonneg_right helapsed) (Or.inl rfl) id
  | frame f a =>
    have hmoves := moves_act ht
    unfold RateLog.record
    rcases act_paced ht with ⟨hgone, hnow, htimes⟩ | hpasses
    · have hslots : ∀ {g}, (t.pc g).isSlotting = true → (r.state.pc g).isSlotting = true := by
        intro g hg
        by_cases hgf : g = f
        · rw [hgf, hgone] at hg
          cases hg
        · rwa [hmoves g hgf] at hg
      simp only [hgone, Bool.false_eq_true, if_false]
      split_ifs with hopen
      · exact h.opens hnow htimes hopen.1 hgone hslots
      · exact h.quiet hnow.ge htimes hslots
    · simp only [hpasses.point, if_true]
      exact h.passes hpasses hmoves

theorem paced_of_reachable (hr : (rateSystem ε cfg owner).Reachable r) : r.Paced cfg := by
  refine System.Reachable.invariant (P := Paced cfg) ?_ ?_ hr
  · rintro _ ⟨now, rfl⟩
    refine ⟨strict_nil, ⟨[], rfl, ?_⟩, ?_, fun h => ?_, fun h => ?_, ?_, List.nodup_nil⟩
    · simp
    · simp
    · cases h
    · cases h
    · simp
  · rintro r l _ _ ih ⟨t, ht, rfl⟩
    exact ih.record ht

end RateLog

open RateLog

/-- No half-open window holds more than `rateLimit` passages, every returned attempt has
a passage of its own, and an excess of openings in a window comes from attempts that
passed before it. -/
theorem strict_rate {σ φ ε : Type} [DecidableEq σ] [DecidableEq φ] (cfg : AdmissionConfig)
    (owner : φ → σ) (r : RateLog σ φ ε) (hr : (rateSystem ε cfg owner).Reachable r) :
    Strict cfg.rateLimit cfg.rateWindow r.passages ∧
      (r.openings.map (·.passage)).Nodup ∧
      (∀ o ∈ r.openings, r.passages[o.passage]? = some o.passedAt ∧ o.passedAt ≤ o.openedAt) ∧
      ∀ a, r.openings.countP (fun o => within cfg.rateWindow a o.openedAt) ≤ cfg.rateLimit +
        r.openings.countP (fun o => within cfg.rateWindow a o.openedAt && o.passedAt < a) := by
  have hpaced := paced_of_reachable hr
  exact ⟨hpaced.strict, hpaced.once, hpaced.openings, hpaced.countP_opened_le⟩

/-! ## Two attempts that wait for one slot -/

section Example

open AdmissionState

def oneByOne : AdmissionConfig :=
  { sampleConfig with
    rateLimit := 1, maxConcurrency := 1, rateLimit_pos := by decide
    maxConcurrency_pos := by decide }

/-- One frame for each of three sessions. -/
def oneByOneSystem : System (RateLog (Fin 3) (Fin 3) Unit) (Label (Fin 3) Unit) :=
  rateSystem Unit oneByOne id

def oneByOneAct (r : RateLog (Fin 3) (Fin 3) Unit) :
    Label (Fin 3) Unit → Option (RateLog (Fin 3) (Fin 3) Unit)
  | .tick elapsed =>
    if 0 ≤ elapsed then
      some (r.record { r.state with now := r.state.now + elapsed } (.tick elapsed))
    else none
  | .frame f a => (r.state.act oneByOne id f a).map fun t => r.record t (.frame f a)

/-- The first attempt takes the slot; the others pass the limiter one second apart and
wait for it, and then both are returned at the same time. -/
def delayedAttempts : List (Label (Fin 3) Unit) :=
  [.frame 0 .begin, .frame 0 .advance, .frame 0 (.pace 0), .frame 0 .advance, .tick 1,
    .frame 1 .begin, .frame 1 .advance, .frame 1 (.pace 0), .tick 1,
    .frame 2 .begin, .frame 2 .advance, .frame 2 (.pace 0), .tick 1,
    .frame 0 (.report .succeeded), .frame 0 .close, .frame 1 .advance,
    .frame 1 (.report .succeeded), .frame 1 .close, .frame 2 .advance]

theorem oneByOneAct_step (r : RateLog (Fin 3) (Fin 3) Unit) (l : Label (Fin 3) Unit)
    (r' : RateLog (Fin 3) (Fin 3) Unit) (h : oneByOneAct r l = some r') :
    ∃ l, oneByOneSystem.step r l r' := by
  refine ⟨l, ?_⟩
  cases l with
  | tick elapsed =>
    simp only [oneByOneAct] at h
    split_ifs at h with helapsed
    cases h
    exact ⟨_, ⟨helapsed, rfl⟩, rfl⟩
  | frame f a =>
    obtain ⟨t, ht, rfl⟩ := Option.map_eq_some_iff.mp h
    exact ⟨t, ht, rfl⟩

theorem reachable_delayedAttempts : ∃ r, oneByOneSystem.Reachable r ∧
    r.openings = [⟨0, 0, 0⟩, ⟨1, 1, 3⟩, ⟨2, 2, 3⟩] := by
  have hopenings : (System.replay oneByOneAct { state := fresh oneByOne 0 }
      delayedAttempts).map (·.openings) = some [⟨0, 0, 0⟩, ⟨1, 1, 3⟩, ⟨2, 2, 3⟩] := by decide +kernel
  obtain ⟨r, hr, hopenings⟩ := Option.map_eq_some_iff.mp hopenings
  exact ⟨r, System.Reachable.replay oneByOneAct_step (.start ⟨0, rfl⟩) hr, hopenings⟩

theorem two_openings_at_once : ¬ ∀ r, oneByOneSystem.Reachable r →
    ∀ a, r.openings.countP (fun o => within oneByOne.rateWindow a o.openedAt) ≤
      oneByOne.rateLimit := by
  intro h
  obtain ⟨r, hr, hopenings⟩ := reachable_delayedAttempts
  have hle := h r hr 3
  rw [hopenings] at hle
  exact absurd hle (by decide +kernel)

theorem strict_rate_sample : ∃ r, oneByOneSystem.Reachable r ∧
    r.openings.length = 3 ∧ (r.openings.map (·.passage)).Nodup ∧
    Strict oneByOne.rateLimit oneByOne.rateWindow r.passages := by
  obtain ⟨r, hr, hopenings⟩ := reachable_delayedAttempts
  obtain ⟨hstrict, honce, -⟩ := strict_rate oneByOne id r hr
  exact ⟨r, hr, by rw [hopenings]; rfl, honce, hstrict⟩

end Example

end Switchboard.Providers
