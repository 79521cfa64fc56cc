import Switchboard.Providers.Leadership

/-!
# What a step does at the gate

`GateEffect` says once what a step of a frame does to the open episode, its waiters and
the failures of the sessions; invariants about waiters are proved from it.
-/

namespace Switchboard.Providers

namespace AdmissionPc

variable {ε : Type}

/-- The execution of the session is inside a call of `open_attempt` or reports. -/
def busy (c : AdmissionPc ε) : Bool :=
  c.opening || match c with
    | .reporting .. => true
    | _ => false

/-- The frame went through the gate and its attempt is not resolved. -/
def past : AdmissionPc ε → Bool
  | .parked | .leading .. | .leavingLead _ | .limiting _ | .slotting _ | .abandoningPermit ..
  | .attempt _ false | .reporting .. => true
  | _ => false

theorem waits_of_opening {c : AdmissionPc ε} (ho : c.opening = true) (hp : c.past = false) :
    c = .gate ∨ (∃ n, c = .coalesced n) ∨ ∃ n, c = .leavingWait n := by
  cases c <;> simp_all [opening, past]

end AdmissionPc

namespace AdmissionState

variable {σ φ ε : Type}

/-- The failure that `_wait_for_gate` raises for a session in a round. -/
def gateFailure (s : AdmissionState σ φ ε) (x : σ) : Option ε :=
  match (s.sessions x).terminalError with
  | some error => some error
  | none => s.episode.bind fun e => e.terminalUntil.bind fun terminalUntil =>
      if s.now < terminalUntil then some e.lastError else none

/-- An episode is left alone, loses its leader, or is closed by its leader. -/
inductive Subsides : Option (RecoveryEpisode σ ε) → Option (RecoveryEpisode σ ε) → Prop
  | absent : Subsides none none
  | closed {e} (hlead : e.leader ≠ none) : Subsides (some e) none
  | kept {e e'} (hgen : e'.generation = e.generation) (hterm : e'.terminalUntil = e.terminalUntil)
    (herror : e'.lastError = e.lastError) (hwait : e'.waiters = e.waiters)
    (hlead : e'.leader = e.leader ∨ e'.leader = none) : Subsides (some e) (some e')

theorem subsides_refl (o : Option (RecoveryEpisode σ ε)) : Subsides o o := by
  cases o with
  | none => exact .absent
  | some e => exact .kept rfl rfl rfl rfl (.inl rfl)

variable [DecidableEq σ] [DecidableEq φ]

/-- What a step of a frame does to the episode, the failures of the sessions and the
gate. -/
inductive GateEffect (owner : φ → σ) (s t : AdmissionState σ φ ε) (f : φ) : Prop
  /-- The step is neither at the gate nor about the waiters. -/
  | aside (hfail : ∀ y, (t.sessions y).terminalError = (s.sessions y).terminalError)
    (hgen : t.nextGeneration = s.nextGeneration) (hep : Subsides s.episode t.episode)
    (hcoal : ∀ n, t.pc f ≠ .coalesced n) (hpast : (t.pc f).past = true → (s.pc f).past = true)
    (hperm : ∀ p, (t.pc f).permit? = some p → (s.pc f).permit? = some p ∨ p.probe = true)
  | raised (error : ε) (hpc : s.pc f = .gate) (hfail : s.gateFailure (owner f) = some error)
    (ht : t = s.goto f .ended)
  | admitted (hpc : s.pc f = .gate) (hfail : s.gateFailure (owner f) = none)
    (he : s.episode = none) (ht : t = s.goto f (.limiting ⟨none, false⟩))
  | leads (e e' : RecoveryEpisode σ ε) (c : AdmissionPc ε) (hpc : s.pc f = .gate)
    (hfail : s.gateFailure (owner f) = none) (he : s.episode = some e)
    (hterm : e.terminalUntil = none)
    (hlead : e.leader = none ∧ e'.waiters = e.waiters.erase (owner f) ∨
      e.leader = some (owner f) ∧ e'.waiters = e.waiters)
    (hsame : e'.generation = e.generation ∧ e'.terminalUntil = e.terminalUntil ∧
      e'.lastError = e.lastError ∧ e'.leader = some (owner f))
    (hc : (∀ n, c ≠ .coalesced n) ∧ ∀ p, c.permit? = some p → p.probe = true)
    (ht : t = (s.setEpisode e').goto f c)
  | renewed (e : RecoveryEpisode σ ε) (terminalUntil : ℚ) (hpc : s.pc f = .gate)
    (hfail : s.gateFailure (owner f) = none) (he : s.episode = some e)
    (hterm : e.terminalUntil = some terminalUntil)
    (ht : t = ((s.startRecoveryEpisode (some (owner f)) s.now e.lastError).setEpisode
      { generation := s.nextGeneration, leader := some (owner f), readyAt := s.now,
        lastError := e.lastError, probeActive := true }).goto f
          (.limiting ⟨some s.nextGeneration, true⟩))
  | coalesces (e : RecoveryEpisode σ ε) (hpc : s.pc f = .gate)
    (hfail : s.gateFailure (owner f) = none) (he : s.episode = some e)
    (hterm : e.terminalUntil = none) (hlead : e.leader ≠ some (owner f))
    (ht : t = (s.setEpisode { e with waiters := insert (owner f) e.waiters }).goto f
      (.coalesced e.generation))
  | leaves (e : RecoveryEpisode σ ε) (generation : ℕ) (hpc : s.pc f = .leavingWait generation)
    (he : s.episode = some e)
    (ht : t = (s.setEpisode { e with waiters := e.waiters.erase (owner f) }).goto f .ended)
  | opens (p : GatePermit) (o : AttemptOutcome ε) (readyAt : ℚ) (error : ε)
    (hpc : s.pc f = .reporting p o) (he : s.episode = none)
    (ht : t = (s.startRecoveryEpisode (some (owner f)) readyAt error).goto f (.attempt p true))
  | retries (p : GatePermit) (o : AttemptOutcome ε) (e : RecoveryEpisode σ ε) (readyAt : ℚ)
    (error : ε) (hpc : s.pc f = .reporting p o) (he : s.episode = some e)
    (hlead : e.leader = some (owner f))
    (ht : t = (s.setEpisode
      { e with lastError := error, probeActive := false, readyAt := readyAt }).goto f
        (.attempt p true))
  | refused (p : GatePermit) (o : AttemptOutcome ε) (e : RecoveryEpisode σ ε)
    (hpc : s.pc f = .reporting p o) (he : s.episode = some e)
    (ht : t = (s.failWaiters {owner f} e.lastError).goto f (.attempt p true))
  | joins (p : GatePermit) (o : AttemptOutcome ε) (e : RecoveryEpisode σ ε)
    (hpc : s.pc f = .reporting p o) (he : s.episode = some e) (hterm : e.terminalUntil = none)
    (hm : s.matchingProbe (owner f) p = none)
    (ht : t = (s.setEpisode { e with waiters := insert (owner f) e.waiters }).goto f
      (.attempt p true))
  | flares (p : GatePermit) (o : AttemptOutcome ε) (e : RecoveryEpisode σ ε) (error : ε)
    (terminalDelay : ℚ) (hpc : s.pc f = .reporting p o) (he : s.episode = none)
    (hnew : (s.startRecoveryEpisode none s.now error).episode = some e)
    (ht : t = ((s.startRecoveryEpisode none s.now error).exhaustEpisode e error
      terminalDelay).goto f (.attempt p true))
  | exhausts (p : GatePermit) (o : AttemptOutcome ε) (e : RecoveryEpisode σ ε) (error : ε)
    (terminalDelay : ℚ) (hpc : s.pc f = .reporting p o) (he : s.episode = some e)
    (hlead : e.leader = some (owner f))
    (ht : t = (s.exhaustEpisode e error terminalDelay).goto f (.attempt p true))

section Effects

variable {cfg : AdmissionConfig} {owner : φ → σ} {s t u : AdmissionState σ φ ε} {f : φ}
  {p : GatePermit} {c : AdmissionPc ε}

theorem effect_goto (hfail : ∀ y, (u.sessions y).terminalError = (s.sessions y).terminalError)
    (hgen : u.nextGeneration = s.nextGeneration) (hep : Subsides s.episode u.episode)
    (hcoal : ∀ n, c ≠ .coalesced n) (hpast : c.past = true → (s.pc f).past = true)
    (hperm : ∀ p, c.permit? = some p → (s.pc f).permit? = some p ∨ p.probe = true) :
    GateEffect owner s (u.goto f c) f := by
  have hpc : (u.goto f c).pc f = c := Function.update_self _ _ _
  refine .aside hfail hgen hep (fun n => ?_) (fun h => ?_) (fun p h => ?_)
  · rw [hpc]
    exact hcoal n
  · exact hpast (hpc ▸ h)
  · exact hperm p (hpc ▸ h)

/-- A frame moves and the shared state stays. -/
theorem effect_move (hcoal : ∀ n, c ≠ .coalesced n) (hpast : c.past = true → (s.pc f).past = true)
    (hperm : ∀ p, c.permit? = some p → (s.pc f).permit? = some p ∨ p.probe = true) :
    GateEffect owner s (s.goto f c) f :=
  effect_goto (fun _ => rfl) rfl (subsides_refl _) hcoal hpast hperm

theorem effect_dropPermit {again : Bool} (hu : u.sessions = s.sessions)
    (hgen : u.nextGeneration = s.nextGeneration) (hep : u.episode = s.episode)
    (hpast : (s.pc f).past = true) (hperm : (s.pc f).permit? = some p) :
    GateEffect owner s (u.dropPermit f p again) f := by
  have hsub : Subsides s.episode u.episode := hep ▸ subsides_refl _
  have hfail : ∀ y, (u.sessions y).terminalError = (s.sessions y).terminalError := by simp [hu]
  unfold AdmissionState.dropPermit
  split
  · refine effect_goto hfail hgen hsub (by simp) (fun _ => hpast) (fun q hq => .inl ?_)
    rw [hperm, ← hq]
    rfl
  · cases again <;> exact effect_goto hfail hgen hsub (by simp) (fun _ => hpast)
      (by simp [AdmissionPc.permit?])

omit [DecidableEq σ] [DecidableEq φ] in
theorem gateFailure_of_none (hs : (s.sessions (owner f)).terminalError = none)
    (he : ∀ e, s.episode = some e → ∀ d, e.terminalUntil = some d → d ≤ s.now) :
    s.gateFailure (owner f) = none := by
  simp only [gateFailure, hs]
  cases hep : s.episode with
  | none => rfl
  | some e =>
    cases hterm : e.terminalUntil with
    | none => simp [hterm]
    | some d => simp [hterm, he e hep d hterm]

theorem effect_gateRound (hpc : s.pc f = .gate) : GateEffect owner s (s.gateRound owner f) f := by
  unfold AdmissionState.gateRound
  split
  · next error hs => exact .raised error hpc (by simp [gateFailure, hs]) rfl
  · next hs =>
    unfold AdmissionState.gateSection
    split
    · next he => exact .admitted hpc (gateFailure_of_none hs (by simp [he])) he rfl
    · next e he =>
      split
      · next hterm =>
        have hfail : s.gateFailure (owner f) = none :=
          gateFailure_of_none hs (by simp [he, hterm])
        have hleads : ∀ {e' : RecoveryEpisode σ ε} {c : AdmissionPc ε},
            (e.leader = none ∧ e'.waiters = e.waiters.erase (owner f) ∨
              e.leader = some (owner f) ∧ e'.waiters = e.waiters) →
            (e'.generation = e.generation ∧ e'.terminalUntil = e.terminalUntil ∧
              e'.lastError = e.lastError ∧ e'.leader = some (owner f)) →
            ((∀ n, c ≠ .coalesced n) ∧ ∀ p, c.permit? = some p → p.probe = true) →
            GateEffect owner s ((s.setEpisode e').goto f c) f :=
          fun hlead hsame hc => .leads e _ _ hpc hfail he hterm hlead hsame hc rfl
        unfold AdmissionState.joinEpisode
        by_cases hnone : e.leader = none
        · simp only [if_pos hnone, if_true]
          split_ifs <;> exact hleads (.inl ⟨hnone, rfl⟩) ⟨rfl, rfl, rfl, rfl⟩
            (by simp [AdmissionPc.permit?])
        · simp only [if_neg hnone]
          by_cases hown : e.leader = some (owner f)
          · simp only [if_pos hown]
            split_ifs <;> exact hleads (.inr ⟨hown, rfl⟩) ⟨rfl, rfl, rfl, hown⟩
              (by simp [AdmissionPc.permit?])
          · rw [if_neg hown]
            exact .coalesces e hpc hfail he hterm hown rfl
      · next d hterm =>
        split_ifs with hnow
        · exact .raised e.lastError hpc (by simp [gateFailure, hs, he, hterm, hnow]) rfl
        · have hfail : s.gateFailure (owner f) = none :=
            gateFailure_of_none hs (by simpa [he, hterm] using not_lt.mp hnow)
          refine .renewed e d hpc hfail he hterm ?_
          simp [startRecoveryEpisode, joinEpisode, setEpisode]

omit [DecidableEq φ] in
theorem subsides_giveUpProbe {x : σ} : Subsides s.episode (s.giveUpProbe x p).episode := by
  unfold giveUpProbe
  split
  · exact subsides_refl _
  · next e hm =>
    rw [(matchingProbe_eq_some.mp hm).1]
    exact .kept rfl rfl rfl rfl (.inr rfl)

omit [DecidableEq φ] in
theorem giveUpProbe_kept {x : σ} : (s.giveUpProbe x p).sessions = s.sessions ∧
    (s.giveUpProbe x p).nextGeneration = s.nextGeneration := by
  unfold giveUpProbe
  split <;> exact ⟨rfl, rfl⟩

theorem effect_outcome {o : AttemptOutcome ε} (hpc : s.pc f = .reporting p o) :
    GateEffect owner s ((s.outcomeSection (owner f) p o).goto f (.attempt p true)) f := by
  have hmove : ∀ {u : AdmissionState σ φ ε}, u.sessions = s.sessions →
      u.nextGeneration = s.nextGeneration → Subsides s.episode u.episode →
      GateEffect owner s (u.goto f (.attempt p true)) f := fun hu hgen hep =>
    effect_goto (by simp [hu]) hgen hep (by simp) (by simp [AdmissionPc.past])
      (by simp [AdmissionPc.permit?])
  cases o with
  | succeeded =>
    simp only [outcomeSection, attemptSucceeded]
    split
    · exact hmove rfl rfl (subsides_refl _)
    · next e hm =>
      obtain ⟨he, -, -, hlead, -⟩ := matchingProbe_eq_some.mp hm
      exact hmove rfl rfl (he ▸ .closed (by simp [hlead]))
  | corrected =>
    simp only [outcomeSection, attemptCorrected]
    split
    · exact hmove rfl rfl (subsides_refl _)
    · next e hm =>
      exact hmove rfl rfl ((matchingProbe_eq_some.mp hm).1 ▸ .kept rfl rfl rfl rfl (.inl rfl))
  | rejected =>
    simp only [outcomeSection, attemptRejected]
    split
    · exact hmove rfl rfl (subsides_refl _)
    · next e hm =>
      obtain ⟨he, -, -, hlead, -⟩ := matchingProbe_eq_some.mp hm
      exact hmove rfl rfl (he ▸ .closed (by simp [hlead]))
  | failed error canRetry delay terminalDelay =>
    simp only [outcomeSection, attemptFailed]
    split
    · split
      · next he => exact .opens p _ _ error hpc he rfl
      · next e m he hm =>
        obtain ⟨he', -, -, hlead, -⟩ := matchingProbe_eq_some.mp hm
        obtain rfl := Option.some.inj (he.symm.trans he')
        exact .retries p _ e _ error hpc he hlead rfl
      · next e he hm =>
        split
        · exact .refused p _ e hpc he rfl
        · next hterm => exact .joins p _ e hpc he hterm hm rfl
    · split
      · next he => exact .flares p _ _ error terminalDelay hpc he rfl rfl
      · next e m he hm =>
        obtain ⟨he', -, -, hlead, -⟩ := matchingProbe_eq_some.mp hm
        obtain rfl := Option.some.inj (he.symm.trans he')
        exact .exhausts p _ e error terminalDelay hpc he hlead rfl
      · exact hmove rfl rfl (subsides_refl _)

theorem effect_giveUpProbe (hcoal : ∀ n, c ≠ .coalesced n)
    (hpast : c.past = true → (s.pc f).past = true)
    (hperm : ∀ p, c.permit? = some p → (s.pc f).permit? = some p ∨ p.probe = true) :
    GateEffect owner s ((s.giveUpProbe (owner f) p).goto f c) f :=
  effect_goto (by simp [giveUpProbe_kept.1]) giveUpProbe_kept.2 subsides_giveUpProbe hcoal hpast
    hperm

theorem effect_slotSection (hpc : s.pc f = .slotting p) :
    GateEffect owner s (s.slotSection cfg owner f p) f := by
  have hpast : (s.pc f).past = true := by rw [hpc]; rfl
  have hperm : (s.pc f).permit? = some p := by rw [hpc]; rfl
  unfold AdmissionState.slotSection
  split_ifs
  · exact effect_dropPermit rfl rfl rfl hpast hperm
  · exact effect_dropPermit rfl rfl rfl hpast hperm
  · refine effect_goto (fun y => ?_) rfl (subsides_refl _) (by simp) (fun _ => hpast)
      (fun q hq => .inl ?_)
    · by_cases hy : y = owner f
      · simp [hy]
      · simp [hy]
    · rw [hperm, ← hq]
      rfl

theorem effect_advance (ht : s.advance cfg owner f = some t) : GateEffect owner s t f := by
  unfold AdmissionState.advance at ht
  split at ht
  case h_1 hs =>
    cases ht
    exact effect_gateRound hs
  case h_2 generation wakeAt hs =>
    split_ifs at ht
    cases ht
    unfold AdmissionState.claimProbe
    split
    · exact effect_move (by simp) (by simp [AdmissionPc.past]) (by simp [AdmissionPc.permit?])
    · next e he =>
      split_ifs
      · refine effect_goto (fun _ => rfl) rfl ?_ (by simp) (fun _ => by rw [hs]; rfl)
          (by simp [AdmissionPc.permit?])
        rw [he]
        exact .kept rfl rfl rfl rfl (.inl rfl)
      · exact effect_move (by simp) (by simp [AdmissionPc.past]) (by simp [AdmissionPc.permit?])
  case h_3 generation hs =>
    cases ht
    unfold AdmissionState.discardWaiter
    split
    · exact effect_move (by simp) (by simp [AdmissionPc.past]) (by simp [AdmissionPc.permit?])
    · next e he =>
      split_ifs
      · exact .leaves e generation hs he rfl
      · exact effect_move (by simp) (by simp [AdmissionPc.past]) (by simp [AdmissionPc.permit?])
  case h_4 generation hs =>
    cases ht
    unfold AdmissionState.abandonWaitingLeader
    split
    · exact effect_move (by simp) (by simp [AdmissionPc.past]) (by simp [AdmissionPc.permit?])
    · next e he =>
      split_ifs
      · exact effect_move (by simp) (by simp [AdmissionPc.past]) (by simp [AdmissionPc.permit?])
      · refine effect_goto (fun _ => rfl) rfl ?_ (by simp) (by simp [AdmissionPc.past])
          (by simp [AdmissionPc.permit?])
        rw [he]
        exact .kept rfl rfl rfl rfl (.inr rfl)
  case h_5 p hs =>
    split_ifs at ht
    cases ht
    exact effect_slotSection hs
  case h_6 p again hs =>
    cases ht
    cases again <;> exact effect_giveUpProbe (by simp) (by simp [AdmissionPc.past])
      (by simp [AdmissionPc.permit?])
  case h_7 p o hs =>
    cases ht
    exact effect_outcome hs
  case h_8 p hs =>
    cases ht
    exact effect_giveUpProbe (by simp) (by simp [AdmissionPc.past]) (by simp [AdmissionPc.permit?])
  case h_9 hs =>
    cases ht
    exact effect_goto (fun _ => rfl) rfl (subsides_refl _) (by simp) (by simp [AdmissionPc.past])
      (by simp [AdmissionPc.permit?])
  case h_10 p hs =>
    cases ht
    exact effect_giveUpProbe (by simp) (by simp [AdmissionPc.past]) (by simp [AdmissionPc.permit?])
  case h_11 => cases ht

theorem effect_cancel (ht : s.cancel f = some t) : GateEffect owner s t f := by
  have hkeep : ∀ {u : AdmissionState σ φ ε} {c}, u.sessions = s.sessions →
      u.nextGeneration = s.nextGeneration → u.episode = s.episode →
      (∀ n, c ≠ .coalesced n) → (c.past = true → (s.pc f).past = true) →
      (∀ p, c.permit? = some p → (s.pc f).permit? = some p ∨ p.probe = true) →
      GateEffect owner s (u.goto f c) f := fun hu hgen hep =>
    effect_goto (by simp [hu]) hgen (hep ▸ subsides_refl _)
  unfold AdmissionState.cancel at ht
  split at ht
  case h_6 hs | h_7 hs =>
    cases ht
    exact effect_dropPermit rfl rfl rfl (by rw [hs]; rfl) (by rw [hs]; rfl)
  case h_8 again hs =>
    cases ht
    cases again <;> exact hkeep rfl rfl rfl (by simp) (by simp [hs, AdmissionPc.past])
      (by simp [hs, AdmissionPc.permit?])
  case h_12 => cases ht
  all_goals
    next hs =>
    cases ht
    exact hkeep rfl rfl rfl (by simp) (by simp [hs, AdmissionPc.past])
      (by simp [hs, AdmissionPc.permit?])

theorem effect_limiterSection {elapsed : ℚ} (hpc : s.pc f = .limiting p) :
    GateEffect owner s (s.limiterSection cfg owner f p elapsed) f := by
  have hpast : (s.pc f).past = true := by rw [hpc]; rfl
  have hperm : (s.pc f).permit? = some p := by rw [hpc]; rfl
  unfold AdmissionState.limiterSection
  dsimp only
  split_ifs
  · refine effect_goto (fun _ => rfl) rfl (subsides_refl _) (by simp) (fun _ => hpast)
      (fun q hq => .inl ?_)
    rw [hperm, ← hq]
    rfl
  · exact effect_dropPermit rfl rfl rfl hpast hperm
  · refine .aside (fun _ => rfl) rfl (subsides_refl _) (fun n => ?_) id (fun q hq => .inl hq)
    simp [hpc]

/-- What a step of a frame does. -/
theorem act_effect {a : Action ε} (ht : s.act cfg owner f a = some t) :
    GateEffect owner s t f := by
  cases a with
  | advance => exact effect_advance ht
  | cancel => exact effect_cancel ht
  | begin =>
    simp only [AdmissionState.act] at ht
    split at ht
    · cases ht
      split_ifs <;> exact effect_move (by simp) (by simp [AdmissionPc.past])
        (by simp [AdmissionPc.permit?])
    · cases ht
  | pace elapsed =>
    simp only [AdmissionState.act] at ht
    split at ht
    · next p hs =>
      split_ifs at ht
      cases ht
      exact effect_limiterSection hs
    · cases ht
  | wake =>
    simp only [AdmissionState.act] at ht
    split at ht
    · cases ht
      exact effect_move (by simp) (by simp [AdmissionPc.past]) (by simp [AdmissionPc.permit?])
    · cases ht
      exact effect_move (by simp) (by simp [AdmissionPc.past]) (by simp [AdmissionPc.permit?])
    · cases ht
  | report r =>
    simp only [AdmissionState.act] at ht
    split at ht
    · next p hs =>
      cases ht
      unfold reportOutcome
      split
      · exact effect_move (by simp) (by simp [hs, AdmissionPc.past])
          (by simp [hs, AdmissionPc.permit?])
      · split_ifs
        · exact effect_move (by simp) (by simp [hs, AdmissionPc.past])
            (by simp [hs, AdmissionPc.permit?])
        · exact effect_move (by simp) (by simp [AdmissionPc.past]) (by simp [AdmissionPc.permit?])
    · cases ht
  | close =>
    simp only [AdmissionState.act] at ht
    split at ht
    · cases ht
      exact effect_goto (fun _ => rfl) rfl (subsides_refl _) (by simp) (by simp [AdmissionPc.past])
        (by simp [AdmissionPc.permit?])
    · next p hs =>
      cases ht
      exact effect_move (by simp) (by simp [AdmissionPc.past]) (by simp [hs, AdmissionPc.permit?])
    · cases ht

end Effects

end AdmissionState

end Switchboard.Providers
