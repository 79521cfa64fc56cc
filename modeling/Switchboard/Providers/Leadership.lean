import Switchboard.Providers.AdmissionGate

/-!
# Who leads a recovery episode

A session gains the lead only by a section of its own frames, and loses it by one
of them or with the episode. `KeepsLead` says that a step may end the lead of a
session and changes nothing else about it.
-/

namespace Switchboard.Providers

namespace AdmissionState

variable {σ φ ε : Type} [DecidableEq σ] {cfg : AdmissionConfig} {owner : φ → σ}
  {s t u : AdmissionState σ φ ε} {f g : φ} {x y : σ} {p : GatePermit} {c : AdmissionPc ε}
  {e e' : RecoveryEpisode σ ε}

/-- The session leads an open episode that is not terminal. -/
def Leads (s : AdmissionState σ φ ε) (x : σ) : Prop :=
  ∃ e, s.episode = some e ∧ e.terminalUntil = none ∧ e.leader = some x

/-- The session was failed by an episode, or is one of its waiters. -/
def Enrolled (s : AdmissionState σ φ ε) (x : σ) : Prop :=
  (s.sessions x).terminalError ≠ none ∨ ∃ e, s.episode = some e ∧ x ∈ e.waiters

/-- The lead of `x` is what it was, or lost. -/
structure KeepsLead (x : σ) (s t : AdmissionState σ φ ε) : Prop where
  lead : ∀ e', t.episode = some e' → e'.terminalUntil = none → e'.leader = some x →
    ∃ e, s.episode = some e ∧ e.terminalUntil = none ∧ e.leader = some x ∧
      e'.generation = e.generation ∧ e'.probeActive = e.probeActive
  started : (t.sessions x).attemptsStarted = (s.sessions x).attemptsStarted
  enrolled : t.Enrolled x → s.Enrolled x

omit [DecidableEq σ] in
theorem KeepsLead.leads (h : KeepsLead x s t) (ht : t.Leads x) : s.Leads x := by
  obtain ⟨e', he', hterm, hlead⟩ := ht
  obtain ⟨e, he, hterm, hlead, -⟩ := h.lead e' he' hterm hlead
  exact ⟨e, he, hterm, hlead⟩

omit [DecidableEq σ] in
theorem keepsLead_of_eq (he : t.episode = s.episode) (hs : t.sessions x = s.sessions x) :
    KeepsLead x s t where
  lead := fun e' he' hterm hlead => ⟨e', he ▸ he', hterm, hlead, rfl, rfl⟩
  started := by rw [hs]
  enrolled := by simp only [Enrolled, he, hs, imp_self]

omit [DecidableEq σ] in
theorem keepsLead_refl : KeepsLead x s s := keepsLead_of_eq rfl rfl

omit [DecidableEq σ] in
/-- A step after which `x` does not lead. -/
theorem keepsLead_of_not (h : ¬ t.Leads x)
    (hs : (t.sessions x).attemptsStarted = (s.sessions x).attemptsStarted)
    (hen : t.Enrolled x → s.Enrolled x) : KeepsLead x s t where
  lead := fun e' he' hterm hlead => absurd ⟨e', he', hterm, hlead⟩ h
  started := hs
  enrolled := hen

omit [DecidableEq σ] in
theorem enrolled_setEpisode :
    (s.setEpisode e').Enrolled x ↔ (s.sessions x).terminalError ≠ none ∨ x ∈ e'.waiters := by
  simp [Enrolled, setEpisode]

omit [DecidableEq σ] in
theorem enrolled_setEpisode_of (he : s.episode = some e) (hw : x ∈ e'.waiters → x ∈ e.waiters)
    (h : (s.setEpisode e').Enrolled x) : s.Enrolled x :=
  (enrolled_setEpisode.mp h).imp_right fun hx => ⟨e, he, hw hx⟩

omit [DecidableEq σ] in
theorem keepsLead_setEpisode (he : s.episode = some e) (h : e.SameGate e')
    (hw : x ∈ e'.waiters → x ∈ e.waiters) : KeepsLead x s (s.setEpisode e') where
  lead := by
    intro e₀ he₀ hterm hlead
    cases he₀
    exact ⟨e, he, h.terminalUntil ▸ hterm, h.leader ▸ hlead, h.generation, h.probeActive⟩
  started := rfl
  enrolled := enrolled_setEpisode_of he hw

omit [DecidableEq σ] in
theorem not_leads_setEpisode (h : e'.leader ≠ some x) : ¬ (s.setEpisode e').Leads x := by
  rintro ⟨e, he, -, hlead⟩
  cases he
  exact h hlead

omit [DecidableEq σ] in
theorem not_leads_of_none (h : t.episode = none) : ¬ t.Leads x := by
  rintro ⟨e, he, -⟩
  rw [h] at he
  cases he

/-! ## Sections of other sessions -/

theorem keepsLead_giveUpProbe : KeepsLead x s (s.giveUpProbe y p) := by
  unfold giveUpProbe
  split
  · exact keepsLead_refl
  · next e hm =>
    exact keepsLead_of_not (not_leads_setEpisode (by simp)) rfl
      (enrolled_setEpisode_of (matchingProbe_eq_some.mp hm).1 id)

theorem keepsLead_exhaust {error : ε} {delay : ℚ} (he : s.episode = some e) :
    KeepsLead x s (s.exhaustEpisode e error delay) := by
  refine keepsLead_of_not (not_leads_setEpisode (by simp)) ?_ ?_
  · simp only [exhaustEpisode, setEpisode, failWaiters]
    split <;> rfl
  · intro h
    by_cases hx : x ∈ e.waiters
    · exact .inr ⟨e, he, hx⟩
    · rw [exhaustEpisode, enrolled_setEpisode] at h
      exact .inl (by simpa [failWaiters, hx] using h)

omit [DecidableEq σ] in
theorem enrolled_startRecoveryEpisode {leader : Option σ} {readyAt : ℚ} {error : ε}
    (h : (s.startRecoveryEpisode leader readyAt error).Enrolled x) : s.Enrolled x := by
  simp only [Enrolled, startRecoveryEpisode, Option.some.injEq, exists_eq_left',
    Finset.notMem_empty, or_false] at h
  exact .inl h

theorem keepsLead_attemptFailed {error : ε} {canRetry : Bool} {delay terminalDelay : ℚ}
    (hy : y ≠ x) : KeepsLead x s (s.attemptFailed y p error canRetry delay terminalDelay) := by
  have hlead : some y ≠ some x := fun h => hy (Option.some.inj h)
  unfold attemptFailed
  split
  · split
    · exact keepsLead_of_not (fun ⟨e, he, _, hl⟩ => hlead (by cases he; exact hl)) rfl
        enrolled_startRecoveryEpisode
    · next e m he hm =>
      obtain ⟨he', -, -, hown, -⟩ := matchingProbe_eq_some.mp hm
      rw [he] at he'
      cases he'
      exact keepsLead_of_not (not_leads_setEpisode (by simpa [hown] using hlead)) rfl
        (enrolled_setEpisode_of he id)
    · next e he hm =>
      split
      · refine keepsLead_of_eq rfl ?_
        simp [failWaiters, hy.symm]
      · exact keepsLead_setEpisode he ⟨rfl, rfl, rfl, rfl, rfl⟩ (by simp [hy.symm])
  · split
    · have h : ∀ e, (s.startRecoveryEpisode none s.now error).episode = some e →
          KeepsLead x (s.startRecoveryEpisode none s.now error)
            ((s.startRecoveryEpisode none s.now error).exhaustEpisode e error terminalDelay) :=
        fun e he => keepsLead_exhaust he
      exact keepsLead_of_not (not_leads_setEpisode (by simp)) (h _ rfl).started
        (fun hen => enrolled_startRecoveryEpisode ((h _ rfl).enrolled hen))
    · next e m he hm => exact keepsLead_exhaust he
    · exact keepsLead_refl

theorem keepsLead_outcomeSection {o : AttemptOutcome ε} (hy : y ≠ x) :
    KeepsLead x s (s.outcomeSection y p o) := by
  cases o with
  | failed => exact keepsLead_attemptFailed hy
  | corrected =>
    simp only [outcomeSection, attemptCorrected]
    split
    · exact keepsLead_refl
    · next e hm =>
      obtain ⟨he, -, -, hown, -⟩ := matchingProbe_eq_some.mp hm
      refine keepsLead_of_not (not_leads_setEpisode ?_) rfl (enrolled_setEpisode_of he id)
      simpa [hown] using hy
  | succeeded =>
    simp only [outcomeSection, attemptSucceeded]
    split
    · exact keepsLead_refl
    · exact keepsLead_of_not (not_leads_of_none rfl) rfl (by simp +contextual [Enrolled])
  | rejected =>
    simp only [outcomeSection, attemptRejected]
    split
    · exact keepsLead_refl
    · exact keepsLead_of_not (not_leads_of_none rfl) rfl (by simp +contextual [Enrolled])

theorem keepsLead_abandonWaitingLeader {generation : ℕ} :
    KeepsLead x s (s.abandonWaitingLeader y generation) := by
  unfold abandonWaitingLeader
  split
  · exact keepsLead_refl
  · next e he =>
    split_ifs
    · exact keepsLead_refl
    · exact keepsLead_of_not (not_leads_setEpisode (by simp)) rfl (enrolled_setEpisode_of he id)

theorem keepsLead_discardWaiter {generation : ℕ} :
    KeepsLead x s (s.discardWaiter y generation) := by
  unfold discardWaiter
  split
  · exact keepsLead_refl
  · next e he =>
    split_ifs
    · exact keepsLead_setEpisode he ⟨rfl, rfl, rfl, rfl, rfl⟩ Finset.mem_of_mem_erase
    · exact keepsLead_refl

variable [DecidableEq φ]

omit [DecidableEq σ] in
theorem KeepsLead.goto (h : KeepsLead x s t) : KeepsLead x s (t.goto f c) :=
  ⟨h.lead, h.started, h.enrolled⟩

theorem keepsLead_joinEpisode (he : s.episode = some e) (hy : owner f ≠ x) :
    KeepsLead x s (s.joinEpisode owner f e) := by
  have hlead : some (owner f) ≠ some x := fun h => hy (Option.some.inj h)
  unfold AdmissionState.joinEpisode
  by_cases hnone : e.leader = none
  · simp only [if_pos hnone, if_true]
    split_ifs
    all_goals
      refine KeepsLead.goto (keepsLead_of_not (not_leads_setEpisode ?_) rfl
        (enrolled_setEpisode_of he Finset.mem_of_mem_erase))
      simpa using hy
  · simp only [if_neg hnone]
    by_cases hown : e.leader = some (owner f)
    · have hnot : ∀ e' : RecoveryEpisode σ ε, e'.leader = e.leader → e'.waiters = e.waiters →
          ∀ c, KeepsLead x s ((s.setEpisode e').goto f c) := by
        intro e' he' hw c
        refine KeepsLead.goto (keepsLead_of_not (not_leads_setEpisode ?_) rfl
          (enrolled_setEpisode_of he (by rw [hw]; exact id)))
        rwa [he', hown]
      simp only [if_pos hown]
      split_ifs
      all_goals
        refine hnot _ ?_ ?_ _
        · rfl
        · rfl
    · simp only [if_neg hown]
      refine (keepsLead_setEpisode he ?_ ?_).goto
      · exact ⟨rfl, rfl, rfl, rfl, rfl⟩
      · simp [Ne.symm hy]

theorem keepsLead_gateSection (hy : owner f ≠ x) : KeepsLead x s (s.gateSection owner f) := by
  unfold AdmissionState.gateSection
  split
  · exact keepsLead_refl.goto
  · next e he =>
    split
    · exact keepsLead_joinEpisode he hy
    · split_ifs
      · exact keepsLead_refl.goto
      · have hjoin := keepsLead_joinEpisode (x := x)
          (s := s.startRecoveryEpisode (some (owner f)) s.now e.lastError) rfl hy
        refine keepsLead_of_not ?_ hjoin.started
          (fun hen => enrolled_startRecoveryEpisode (hjoin.enrolled hen))
        intro hl
        obtain ⟨e', he', -, hlead⟩ := hjoin.leads hl
        cases he'
        exact hy (Option.some.inj hlead)

theorem keepsLead_gateRound (hy : owner f ≠ x) : KeepsLead x s (s.gateRound owner f) := by
  unfold AdmissionState.gateRound
  split
  · exact keepsLead_refl.goto
  · exact keepsLead_gateSection hy

theorem keepsLead_claimProbe {generation : ℕ} (hy : owner f ≠ x) :
    KeepsLead x s (s.claimProbe owner f generation) := by
  unfold AdmissionState.claimProbe
  split
  · exact keepsLead_refl.goto
  · next e he =>
    split_ifs with hclaim
    · refine KeepsLead.goto (keepsLead_of_not (not_leads_setEpisode ?_) rfl
        (enrolled_setEpisode_of he id))
      simpa [hclaim.2.2.1] using hy
    · exact keepsLead_refl.goto

omit [DecidableEq σ] in
theorem keepsLead_dropPermit {again : Bool} : KeepsLead x s (s.dropPermit f p again) := by
  unfold AdmissionState.dropPermit
  split
  · exact keepsLead_refl.goto
  · exact keepsLead_refl.goto

theorem keepsLead_slotSection (hy : owner f ≠ x) :
    KeepsLead x s (s.slotSection cfg owner f p) := by
  unfold AdmissionState.slotSection
  split_ifs
  · exact keepsLead_dropPermit
  · exact keepsLead_dropPermit
  · refine keepsLead_of_eq rfl ?_
    exact Function.update_of_ne (Ne.symm hy) _ _

theorem keepsLead_limiterSection {elapsed : ℚ} :
    KeepsLead x s (s.limiterSection cfg owner f p elapsed) := by
  unfold AdmissionState.limiterSection
  dsimp only
  split_ifs
  · exact keepsLead_of_eq rfl rfl
  · unfold AdmissionState.dropPermit
    split
    · exact keepsLead_of_eq rfl rfl
    · exact keepsLead_of_eq rfl rfl
  · exact keepsLead_of_eq rfl rfl

omit [DecidableEq σ] in
theorem keepsLead_cancel (ht : s.cancel f = some t) : KeepsLead x s t := by
  unfold AdmissionState.cancel at ht
  split at ht
  case h_6 =>
    cases ht
    exact keepsLead_dropPermit
  case h_7 =>
    cases ht
    exact keepsLead_dropPermit
  case h_12 => cases ht
  all_goals
    cases ht
    exact keepsLead_of_eq rfl rfl

theorem keepsLead_advance (hy : owner f ≠ x) (ht : s.advance cfg owner f = some t) :
    KeepsLead x s t := by
  unfold AdmissionState.advance at ht
  split at ht
  · cases ht
    exact keepsLead_gateRound hy
  · split_ifs at ht
    cases ht
    exact keepsLead_claimProbe hy
  · cases ht
    exact keepsLead_discardWaiter.goto
  · cases ht
    exact keepsLead_abandonWaitingLeader.goto
  · split_ifs at ht
    cases ht
    exact keepsLead_slotSection hy
  · cases ht
    exact keepsLead_giveUpProbe.goto
  · cases ht
    exact (keepsLead_outcomeSection hy).goto
  · cases ht
    exact keepsLead_giveUpProbe.goto
  · cases ht
    exact keepsLead_of_eq rfl rfl
  · cases ht
    exact keepsLead_giveUpProbe.goto
  · cases ht

/-- A frame of another session never touches the lead of `x`. -/
theorem keepsLead_act {a : Action ε} (hy : owner f ≠ x) (ht : s.act cfg owner f a = some t) :
    KeepsLead x s t := by
  cases a with
  | advance => exact keepsLead_advance hy ht
  | cancel => exact keepsLead_cancel ht
  | pace elapsed =>
    simp only [AdmissionState.act] at ht
    split at ht
    · split_ifs at ht
      cases ht
      exact keepsLead_limiterSection
    · cases ht
  | begin =>
    simp only [AdmissionState.act] at ht
    split at ht
    · cases ht
      exact keepsLead_refl.goto
    · cases ht
  | wake =>
    simp only [AdmissionState.act] at ht
    split at ht
    · cases ht
      exact keepsLead_refl.goto
    · cases ht
      exact keepsLead_refl.goto
    · cases ht
  | report r =>
    simp only [AdmissionState.act] at ht
    split at ht
    · cases ht
      unfold reportOutcome
      split
      · exact keepsLead_refl.goto
      · split_ifs
        · exact keepsLead_refl.goto
        · exact keepsLead_refl.goto
    · cases ht
  | close =>
    simp only [AdmissionState.act] at ht
    split at ht
    · cases ht
      exact keepsLead_of_eq rfl rfl
    · cases ht
      exact keepsLead_refl.goto
    · cases ht

/-! ## The own frame of a leader inside `open_attempt` -/

/-- The episode of a generation waits for the sleep of its leader. -/
def Sleeps (s : AdmissionState σ φ ε) (generation : ℕ) : Prop :=
  ∃ e, s.episode = some e ∧ e.generation = generation ∧ e.probeActive = false

/-- Where a frame inside `open_attempt` may be while its session leads. -/
def Owed (s : AdmissionState σ φ ε) : AdmissionPc ε → Prop
  | .gate | .parked => True
  | .leading generation _ => s.Sleeps generation
  | .limiting p | .slotting p | .abandoningPermit p _ | .attempt p false => p.probe = true
  | _ => False

/-- The frame of session `x` is inside `open_attempt`, or has just left it. -/
structure InGate (s : AdmissionState σ φ ε) (x : σ) (f : φ) : Prop where
  clear : s.Leads x → ¬ s.Enrolled x
  held : (s.pc f).permit? ≠ none → ¬ s.Enrolled x
  owed : s.Leads x → s.Owed (s.pc f)
  pc : (s.pc f).opening = true ∨ s.pc f = .ended ∨ ∃ p, s.pc f = .attempt p false

omit [DecidableEq σ] in
theorem inGate_goto (hclear : t.Leads x → ¬ t.Enrolled x)
    (hheld : c.permit? ≠ none → ¬ t.Enrolled x) (howed : t.Leads x → t.Owed c)
    (hc : c.opening = true ∨ c = .ended ∨ ∃ p, c = .attempt p false) :
    InGate (t.goto f c) x f := by
  have hpc : (t.goto f c).pc f = c := Function.update_self _ _ _
  refine ⟨hclear, fun hp => hheld (by rwa [hpc] at hp), fun hl => ?_, by rwa [hpc]⟩
  rw [hpc]
  exact howed hl

/-- A session that is not failed and joins an open episode, none of whose waiters leads. -/
theorem inGate_joinEpisode (hx : owner f = x) (hterm : (s.sessions x).terminalError = none)
    (hlead : e.leader = some x → x ∉ e.waiters) : InGate (s.joinEpisode owner f e) x f := by
  unfold AdmissionState.joinEpisode
  have hgoes : ∀ e' : RecoveryEpisode σ ε, x ∉ e'.waiters →
      InGate (if e'.probeActive then (s.setEpisode e').goto f .parked
        else if e'.readyAt ≤ s.now then
          (s.setEpisode { e' with probeActive := true }).goto f
            (.limiting ⟨some e'.generation, true⟩)
        else (s.setEpisode e').goto f (.leading e'.generation e'.readyAt)) x f := by
    intro e' hw
    have hclear : ∀ e'' : RecoveryEpisode σ ε, e''.waiters = e'.waiters →
        ¬ (s.setEpisode e'').Enrolled x := by
      intro e'' hw'
      rw [enrolled_setEpisode, hw', hterm]
      simpa using hw
    split_ifs with hact
    · exact inGate_goto (fun _ => hclear _ rfl) (fun _ => hclear _ rfl) (fun _ => trivial)
        (.inl rfl)
    · exact inGate_goto (fun _ => hclear _ rfl) (fun _ => hclear _ rfl) (fun _ => rfl) (.inl rfl)
    · exact inGate_goto (fun _ => hclear _ rfl) (fun _ => hclear _ rfl)
        (fun _ => ⟨_, rfl, rfl, by simpa using hact⟩) (.inl rfl)
  by_cases hnone : e.leader = none
  · simp only [if_pos hnone, if_true]
    refine hgoes { e with leader := some (owner f), waiters := e.waiters.erase (owner f) } ?_
    simp [hx]
  · simp only [if_neg hnone]
    by_cases hown : e.leader = some (owner f)
    · simp only [if_pos hown]
      exact hgoes e (hlead (hown.trans (congrArg some hx)))
    · simp only [if_neg hown]
      have hnot : ∀ e' : RecoveryEpisode σ ε, e'.leader = e.leader →
          ¬ (s.setEpisode e').Leads x := by
        intro e' he'
        refine not_leads_setEpisode ?_
        rwa [he', ← hx]
      refine inGate_goto (fun hl => absurd hl ?_) (fun hp => absurd rfl hp)
        (fun hl => absurd hl ?_) (.inl rfl)
      · exact hnot _ rfl
      · exact hnot _ rfl

theorem inGate_gateRound (hx : owner f = x) (hclear : s.Leads x → ¬ s.Enrolled x) :
    InGate (s.gateRound owner f) x f := by
  have hended : (¬ s.Leads x) → InGate (s.goto f .ended) x f := fun hl =>
    inGate_goto hclear (fun hp => absurd rfl hp) (fun h => absurd h hl) (.inr (.inl rfl))
  unfold AdmissionState.gateRound
  split
  · next error herror =>
    refine hended fun hl => hclear hl (.inl ?_)
    rw [hx] at herror
    simp [herror]
  · next herror =>
    rw [hx] at herror
    unfold AdmissionState.gateSection
    split
    · next hnone =>
      have hno : ¬ s.Enrolled x := by simp [Enrolled, herror, hnone]
      exact inGate_goto hclear (fun _ => hno) (fun hl => absurd hl (not_leads_of_none hnone))
        (.inl rfl)
    · next e he =>
      split
      · next hopen =>
        refine inGate_joinEpisode hx herror fun hlead hw => ?_
        exact hclear ⟨e, he, hopen, hlead⟩ (.inr ⟨e, he, hw⟩)
      · next terminalUntil hterminal =>
        split_ifs
        · refine hended ?_
          rintro ⟨e', he', hopen, -⟩
          rw [he] at he'
          cases he'
          rw [hterminal] at hopen
          cases hopen
        · exact inGate_joinEpisode (s := s.startRecoveryEpisode _ _ _) hx herror
            (fun _ => Finset.notMem_empty x)

theorem inGate_claimProbe {generation : ℕ} (hx : owner f = x)
    (hclear : s.Leads x → ¬ s.Enrolled x) : InGate (s.claimProbe owner f generation) x f := by
  have hgate : InGate (s.goto f .gate) x f :=
    inGate_goto hclear (fun hp => absurd rfl hp) (fun _ => trivial) (.inl rfl)
  unfold AdmissionState.claimProbe
  split
  · exact hgate
  · next e he =>
    split_ifs with hclaim
    · have hno : ¬ (s.setEpisode { e with probeActive := true }).Enrolled x := by
        intro h
        refine hclear ⟨e, he, hclaim.2.1, by rw [hclaim.2.2.1, hx]⟩ ?_
        exact (enrolled_setEpisode.mp h).imp_right fun hw => ⟨e, he, hw⟩
      exact inGate_goto (fun _ => hno) (fun _ => hno) (fun _ => rfl) (.inl rfl)
    · exact hgate

omit [DecidableEq σ] in
theorem inGate_dropPermit {again : Bool} (hno : ¬ s.Enrolled x)
    (hprobe : s.Leads x → p.probe = true) : InGate (s.dropPermit f p again) x f := by
  unfold AdmissionState.dropPermit
  split
  · next hp => exact inGate_goto (fun _ => hno) (fun _ => hno) (fun _ => hp) (.inl rfl)
  · next hp =>
    refine inGate_goto (fun _ => hno) (fun _ => hno) (fun hl => absurd (hprobe hl) hp) ?_
    cases again
    · exact .inr (.inl rfl)
    · exact .inl rfl

theorem inGate_slotSection (hno : ¬ s.Enrolled x) (hprobe : s.Leads x → p.probe = true)
    (hx : owner f = x) : InGate (s.slotSection cfg owner f p) x f := by
  unfold AdmissionState.slotSection
  split_ifs
  · exact inGate_dropPermit hno hprobe
  · exact inGate_dropPermit hno hprobe
  · have hno' : ∀ slots sessions, (sessions x).terminalError = (s.sessions x).terminalError →
        ¬ ({ s with slots := slots, sessions := sessions } : AdmissionState σ φ ε).Enrolled x := by
      intro slots sessions hs
      simpa only [Enrolled, hs] using hno
    refine inGate_goto (fun _ => hno' _ _ ?_) (fun _ => hno' _ _ ?_) hprobe
      (.inr (.inr ⟨p, rfl⟩)) <;> simp [hx]

theorem inGate_limiterSection {elapsed : ℚ} (hclear : s.Leads x → ¬ s.Enrolled x)
    (hno : ¬ s.Enrolled x) (hprobe : s.Leads x → p.probe = true) (hpc : s.pc f = .limiting p) :
    InGate (s.limiterSection cfg owner f p elapsed) x f := by
  unfold AdmissionState.limiterSection
  dsimp only
  split_ifs
  · exact inGate_goto hclear (fun _ => hno) hprobe (.inl rfl)
  · exact inGate_dropPermit hno hprobe
  · refine ⟨hclear, fun _ => hno, fun hl => ?_, .inl ?_⟩
    · simp only [hpc]
      exact hprobe hl
    · simp only [hpc]
      rfl

omit [DecidableEq φ] in
/-- Giving up a probe permit ends the lead of its session. -/
theorem Gated.not_leads_giveUp (h : Gated owner s) (hf : (s.pc f).permit? = some p)
    (hprobe : s.Leads (owner f) → p.probe = true) :
    ¬ (s.giveUpProbe (owner f) p).Leads (owner f) := by
  intro hl
  have hs := keepsLead_giveUpProbe.leads hl
  obtain ⟨e, he, hgen, -, hlead, hact⟩ :=
    (permitIsCurrent_probe (hprobe hs)).mp (h.current f p hf (hprobe hs))
  have hm := matchingProbe_eq_some.mpr ⟨he, hprobe hs, hgen, hlead, hact⟩
  simp only [giveUpProbe, hm] at hl
  exact not_leads_setEpisode (by simp) hl

/-- A step of the frame itself keeps it where a leader may be. -/
theorem InGate.step {a : Action ε} (hi : InGate s x f) (h : Gated owner s) (hx : owner f = x)
    (ht : s.act cfg owner f a = some t) (ha : a = .advance ∨ a = .wake ∨ ∃ d, a = .pace d) :
    InGate t x f := by
  subst hx
  have hlost : ∀ {u : AdmissionState σ φ ε} {c : AdmissionPc ε}, ¬ u.Leads (owner f) →
      c = .gate ∨ c = .ended → InGate (u.goto f c) (owner f) f := by
    intro u c hu hc
    have hpc : c.permit? = none ∧ (c.opening = true ∨ c = .ended ∨ ∃ p, c = .attempt p false) := by
      rcases hc with rfl | rfl
      · exact ⟨rfl, .inl rfl⟩
      · exact ⟨rfl, .inr (.inl rfl)⟩
    exact inGate_goto (fun hl => absurd hl hu) (fun hp => absurd hpc.1 hp)
      (fun hl => absurd hl hu) hpc.2
  have howed := hi.owed
  rcases ha with rfl | rfl | ⟨d, rfl⟩
  · simp only [AdmissionState.act, AdmissionState.advance] at ht
    split at ht <;> rename_i hpc
    · cases ht
      exact inGate_gateRound rfl hi.clear
    · split_ifs at ht
      cases ht
      exact inGate_claimProbe rfl hi.clear
    · cases ht
      refine hlost (fun hl => ?_) (.inr rfl)
      have := howed (keepsLead_discardWaiter.leads hl)
      rwa [hpc] at this
    · cases ht
      refine hlost (fun hl => ?_) (.inr rfl)
      have := howed (keepsLead_abandonWaitingLeader.leads hl)
      rwa [hpc] at this
    · split_ifs at ht
      cases ht
      rw [hpc] at howed
      exact inGate_slotSection (hi.held (by simp [hpc, AdmissionPc.permit?])) howed rfl
    · next again =>
      cases ht
      rw [hpc] at howed
      refine hlost (h.not_leads_giveUp (by rw [hpc]; rfl) howed) ?_
      cases again
      · exact .inr rfl
      · exact .inl rfl
    -- a reported or closed attempt is no longer inside `open_attempt`
    · exact absurd hi.pc (by simp [hpc, AdmissionPc.opening])
    · exact absurd hi.pc (by simp [hpc, AdmissionPc.opening])
    · exact absurd hi.pc (by simp [hpc, AdmissionPc.opening])
    · exact absurd hi.pc (by simp [hpc, AdmissionPc.opening])
    · cases ht
  · have hgate : InGate (s.goto f .gate) (owner f) f :=
      inGate_goto hi.clear (fun hp => absurd rfl hp) (fun _ => trivial) (.inl rfl)
    simp only [AdmissionState.act] at ht
    split at ht
    · cases ht
      exact hgate
    · cases ht
      exact hgate
    · cases ht
  · simp only [AdmissionState.act] at ht
    split at ht
    · next p hpc =>
      split_ifs at ht
      cases ht
      rw [hpc] at howed
      exact inGate_limiterSection hi.clear (hi.held (by simp [hpc, AdmissionPc.permit?])) howed hpc
    · cases ht

/-! ## The own frame of a leader that is being cancelled -/

/-- Where a cancelled frame may be while its session leads. -/
def OwedUnwinding (s : AdmissionState σ φ ε) : AdmissionPc ε → Prop
  | .leavingLead generation => s.Sleeps generation
  | .abandoningPermit p false => p.probe = true
  | _ => False

/-- A cancellation passes through `open_attempt` of session `x`. -/
structure Unwinding (s : AdmissionState σ φ ε) (x : σ) (f : φ) : Prop where
  clear : s.Leads x → ¬ s.Enrolled x
  owed : s.Leads x → s.OwedUnwinding (s.pc f)
  pc : (∃ g, s.pc f = .leavingWait g) ∨ (∃ g, s.pc f = .leavingLead g) ∨
    (∃ p, s.pc f = .abandoningPermit p false) ∨ s.pc f = .ended ∨ ∃ p, s.pc f = .leaked p

omit [DecidableEq σ] in
theorem unwinding_goto (hclear : t.Leads x → ¬ t.Enrolled x)
    (howed : t.Leads x → t.OwedUnwinding c)
    (hc : (∃ g, c = .leavingWait g) ∨ (∃ g, c = .leavingLead g) ∨
      (∃ p, c = .abandoningPermit p false) ∨ c = .ended ∨ ∃ p, c = .leaked p) :
    Unwinding (t.goto f c) x f := by
  have hpc : (t.goto f c).pc f = c := Function.update_self _ _ _
  refine ⟨hclear, fun hl => ?_, by rwa [hpc]⟩
  rw [hpc]
  exact howed hl

theorem Unwinding.step {a : Action ε} (hi : Unwinding s x f) (h : Gated owner s)
    (hx : owner f = x) (ht : s.act cfg owner f a = some t)
    (ha : a = .advance ∨ a = .wake ∨ ∃ d, a = .pace d) : Unwinding t x f := by
  subst hx
  have howed := hi.owed
  have hended : ∀ {u : AdmissionState σ φ ε}, ¬ u.Leads (owner f) →
      Unwinding (u.goto f .ended) (owner f) f := fun hu =>
    unwinding_goto (fun hl => absurd hl hu) (fun hl => absurd hl hu) (.inr (.inr (.inr (.inl rfl))))
  have hadvance : a = .advance := by
    rcases ha with rfl | rfl | ⟨d, rfl⟩
    · rfl
    · rcases hi.pc with ⟨g, hpc⟩ | ⟨g, hpc⟩ | ⟨p, hpc⟩ | hpc | ⟨p, hpc⟩ <;>
        simp [AdmissionState.act, hpc] at ht
    · rcases hi.pc with ⟨g, hpc⟩ | ⟨g, hpc⟩ | ⟨p, hpc⟩ | hpc | ⟨p, hpc⟩ <;>
        simp [AdmissionState.act, hpc] at ht
  subst hadvance
  simp only [AdmissionState.act, AdmissionState.advance] at ht
  rcases hi.pc with ⟨g, hpc⟩ | ⟨g, hpc⟩ | ⟨p, hpc⟩ | hpc | ⟨p, hpc⟩
  · simp only [hpc, Option.some.injEq] at ht
    subst ht
    refine hended fun hl => ?_
    have := howed (keepsLead_discardWaiter.leads hl)
    rwa [hpc] at this
  · simp only [hpc, Option.some.injEq] at ht
    subst ht
    refine hended fun hl => ?_
    have hs := keepsLead_abandonWaitingLeader.leads hl
    have hsleeps := howed hs
    rw [hpc] at hsleeps
    obtain ⟨e, he, hgen, hact⟩ := hsleeps
    obtain ⟨e', he', -, hlead⟩ := hs
    rw [he] at he'
    cases he'
    simp only [abandonWaitingLeader, he] at hl
    rw [if_neg (by simp [hgen, hlead, hact])] at hl
    exact not_leads_setEpisode (by simp) hl
  · simp only [hpc, Option.some.injEq] at ht
    subst ht
    rw [hpc] at howed
    exact hended (h.not_leads_giveUp (by rw [hpc]; rfl) howed)
  · simp [hpc] at ht
  · simp [hpc] at ht

omit [DecidableEq σ] in
/-- A cancellation delivered inside `open_attempt`, unless at one of the awaits at
which it would take the lead along. -/
theorem InGate.cancel (hi : InGate s x f) (ht : s.cancel f = some t)
    (hkeep : s.Leads x → s.pc f ≠ .gate ∧ s.pc f ≠ .parked ∧
      ∀ p, s.pc f ≠ .abandoningPermit p false) :
    Unwinding t x f := by
  have howed := hi.owed
  unfold AdmissionState.cancel at ht
  split at ht <;> rename_i hpc
  · cases ht
    exact unwinding_goto hi.clear (fun hl => absurd hpc (hkeep hl).1) (by simp)
  · cases ht
    exact unwinding_goto hi.clear (fun hl => absurd hpc (hkeep hl).2.1) (by simp)
  · cases ht
    rw [hpc] at howed
    exact unwinding_goto hi.clear (fun hl => (howed hl).elim) (by simp)
  · cases ht
    rw [hpc] at howed
    exact unwinding_goto hi.clear (fun hl => (howed hl).elim) (by simp)
  · cases ht
    rw [hpc] at howed
    exact unwinding_goto hi.clear howed (by simp)
  · cases ht
    rw [hpc] at howed
    unfold AdmissionState.dropPermit
    split
    · exact unwinding_goto hi.clear howed (by simp)
    · next hp => exact unwinding_goto hi.clear (fun hl => absurd (howed hl) hp) (by simp)
  · cases ht
    rw [hpc] at howed
    unfold AdmissionState.dropPermit
    split
    · exact unwinding_goto hi.clear howed (by simp)
    · next hp => exact unwinding_goto hi.clear (fun hl => absurd (howed hl) hp) (by simp)
  · next p again =>
    cases ht
    rw [hpc] at howed
    cases again
    · exact unwinding_goto hi.clear (fun hl => absurd hpc ((hkeep hl).2.2 p)) (by simp)
    · exact unwinding_goto hi.clear howed (by simp)
  · exact absurd hi.pc (by simp [hpc, AdmissionPc.opening])
  · exact absurd hi.pc (by simp [hpc, AdmissionPc.opening])
  · exact absurd hi.pc (by simp [hpc, AdmissionPc.opening])
  · cases ht

omit [DecidableEq σ] in
/-- A further cancellation ends the frame; the lead must be gone by then. -/
theorem Unwinding.cancel (hi : Unwinding s x f) (ht : s.cancel f = some t)
    (hkeep : ¬ s.Leads x) : Unwinding t x f := by
  unfold AdmissionState.cancel at ht
  rcases hi.pc with ⟨g, hpc⟩ | ⟨g, hpc⟩ | ⟨p, hpc⟩ | hpc | ⟨p, hpc⟩
  · simp [hpc] at ht
  · simp only [hpc, Option.some.injEq] at ht
    subst ht
    exact unwinding_goto hi.clear (fun hl => absurd hl hkeep) (by simp)
  · simp only [hpc, Option.some.injEq] at ht
    subst ht
    exact unwinding_goto hi.clear (fun hl => absurd hl hkeep) (by simp)
  · simp [hpc] at ht
  · simp [hpc] at ht

/-! ## Steps of other sessions seen by a leader inside `open_attempt` -/

omit [DecidableEq σ] [DecidableEq φ] in
theorem KeepsLead.canAttempt (h : KeepsLead x s t) : t.canAttempt cfg x = s.canAttempt cfg x := by
  simp only [AdmissionState.canAttempt, h.started]

omit [DecidableEq σ] [DecidableEq φ] in
theorem KeepsLead.sleeps {generation : ℕ} (h : KeepsLead x s t) (ht : t.Leads x)
    (hs : s.Sleeps generation) : t.Sleeps generation := by
  obtain ⟨e', he', hopen, hlead⟩ := ht
  obtain ⟨e, he, -, -, hgen, hact⟩ := h.lead e' he' hopen hlead
  obtain ⟨e₀, he₀, hgen₀, hact₀⟩ := hs
  rw [he] at he₀
  cases he₀
  exact ⟨e', he', hgen.trans hgen₀, hact.trans hact₀⟩

omit [DecidableEq σ] [DecidableEq φ] in
theorem Owed.keep (hs : ∀ generation, s.Sleeps generation → t.Sleeps generation)
    (h : s.Owed c) : t.Owed c := by
  unfold Owed at h ⊢
  split at h <;> first | exact h | exact hs _ h

omit [DecidableEq σ] [DecidableEq φ] in
theorem OwedUnwinding.keep (hs : ∀ generation, s.Sleeps generation → t.Sleeps generation)
    (h : s.OwedUnwinding c) : t.OwedUnwinding c := by
  unfold OwedUnwinding at h ⊢
  split at h <;> first | exact h | exact hs _ h

omit [DecidableEq σ] [DecidableEq φ] in
theorem InGate.keep (hi : s.InGate x f) (h : KeepsLead x s t) (hpc : t.pc f = s.pc f) :
    t.InGate x f where
  clear := fun hl hen => hi.clear (h.leads hl) (h.enrolled hen)
  held := fun hp hen => hi.held (by rwa [hpc] at hp) (h.enrolled hen)
  owed := by
    intro hl
    rw [hpc]
    exact Owed.keep (fun _ => h.sleeps hl) (hi.owed (h.leads hl))
  pc := by rw [hpc]; exact hi.pc

omit [DecidableEq σ] [DecidableEq φ] in
theorem Unwinding.keep (hi : s.Unwinding x f) (h : KeepsLead x s t) (hpc : t.pc f = s.pc f) :
    t.Unwinding x f where
  clear := fun hl hen => hi.clear (h.leads hl) (h.enrolled hen)
  owed := by
    intro hl
    rw [hpc]
    exact OwedUnwinding.keep (fun _ => h.sleeps hl) (hi.owed (h.leads hl))
  pc := by rw [hpc]; exact hi.pc

/-! ## The own frame of a leader after `open_attempt` -/

omit [DecidableEq φ] in
theorem failWaiters_started {waiters : Finset σ} {error : ε} :
    ((s.failWaiters waiters error).sessions x).attemptsStarted =
      (s.sessions x).attemptsStarted := by
  simp only [failWaiters]
  split <;> rfl

omit [DecidableEq φ] in
theorem outcomeSection_started {o : AttemptOutcome ε} :
    ((s.outcomeSection y p o).sessions x).attemptsStarted = (s.sessions x).attemptsStarted := by
  cases o with
  | failed =>
    simp only [outcomeSection, attemptFailed]
    repeat' split
    all_goals first | rfl | exact failWaiters_started
  | _ =>
    simp only [outcomeSection, attemptSucceeded, attemptCorrected, attemptRejected]
    split <;> rfl

/-- The outcomes that leave their session in the lead. -/
def AttemptOutcome.KeepsOn : AttemptOutcome ε → Prop
  | .corrected => True
  | .failed _ canRetry _ _ => canRetry = true
  | _ => False

omit [DecidableEq φ] in
/-- A session that leads after its report goes on, and is in nobody's waiting list. -/
theorem Gated.outcome_leads {o : AttemptOutcome ε} (h : Gated owner s)
    (hf : (s.pc f).permit? = some p) (hno : ¬ s.Enrolled (owner f))
    (hprobe : s.Leads (owner f) → p.probe = true)
    (hl : (s.outcomeSection (owner f) p o).Leads (owner f)) :
    AttemptOutcome.KeepsOn o ∧ ¬ (s.outcomeSection (owner f) p o).Enrolled (owner f) := by
  have hterm : (s.sessions (owner f)).terminalError = none := by
    by_contra hne
    exact hno (.inl hne)
  have hwait : ∀ e, s.episode = some e → owner f ∉ e.waiters := fun e he hw =>
    hno (.inr ⟨e, he, hw⟩)
  -- a leader reports on the probe of its episode
  have hmatch : s.Leads (owner f) → s.matchingProbe (owner f) p ≠ none := by
    intro hs hm
    obtain ⟨e, he, hgen, -, hlead, hact⟩ :=
      (permitIsCurrent_probe (hprobe hs)).mp (h.current f p hf (hprobe hs))
    rw [matchingProbe_eq_some.mpr ⟨he, hprobe hs, hgen, hlead, hact⟩] at hm
    cases hm
  cases o with
  | succeeded =>
    simp only [outcomeSection, attemptSucceeded] at hl
    split at hl
    · next hm => exact absurd hm (hmatch hl)
    · exact absurd hl (not_leads_of_none rfl)
  | rejected =>
    simp only [outcomeSection, attemptRejected] at hl
    split at hl
    · next hm => exact absurd hm (hmatch hl)
    · exact absurd hl (not_leads_of_none rfl)
  | corrected =>
    refine ⟨trivial, ?_⟩
    simp only [outcomeSection, attemptCorrected]
    split
    · exact hno
    · next e hm =>
      rw [enrolled_setEpisode]
      have he := (matchingProbe_eq_some.mp hm).1
      simp [hterm, hwait e he]
  | failed error canRetry delay terminalDelay =>
    simp only [outcomeSection, attemptFailed] at hl ⊢
    split at hl
    · next hcan =>
      refine ⟨hcan, ?_⟩
      rw [if_pos hcan]
      split
      · exact fun hen => hno (enrolled_startRecoveryEpisode hen)
      · next e m he hm =>
        rw [enrolled_setEpisode]
        simp [hterm, hwait e he]
      · next e he hm =>
        simp only [he, hm] at hl
        split at hl
        · next hterminal =>
          obtain ⟨e', he', hopen, -⟩ := hl
          change s.episode = some e' at he'
          rw [he] at he'
          cases he'
          rw [hterminal] at hopen
          cases hopen
        · next hopen =>
          obtain ⟨e', he', -, hlead⟩ := hl
          cases he'
          exact absurd hm (hmatch ⟨e, he, hopen, hlead⟩)
    · split at hl
      · exact absurd hl (not_leads_setEpisode (by simp))
      · exact absurd hl (not_leads_setEpisode (by simp))
      · next e he hm => exact absurd hm (hmatch hl)

/-! ## The points of the other frames -/

/-- A step of frame `f` leaves the points of the other frames alone. -/
def Moves (s t : AdmissionState σ φ ε) (f : φ) : Prop := ∀ g, g ≠ f → t.pc g = s.pc g

omit [DecidableEq σ] in
theorem moves_goto (hpc : u.pc = s.pc) : Moves s (u.goto f c) f := by
  intro g hg
  simp only [goto, Function.update_of_ne hg, hpc]

omit [DecidableEq σ] in
theorem moves_dropPermit {again : Bool} (hpc : u.pc = s.pc) :
    Moves s (u.dropPermit f p again) f := by
  unfold AdmissionState.dropPermit
  split
  · exact moves_goto hpc
  · exact moves_goto hpc

theorem moves_joinEpisode (hpc : u.pc = s.pc) : Moves s (u.joinEpisode owner f e) f := by
  unfold AdmissionState.joinEpisode
  dsimp only
  split_ifs <;> exact moves_goto hpc

theorem moves_gateRound : Moves s (s.gateRound owner f) f := by
  unfold AdmissionState.gateRound AdmissionState.gateSection
  split
  · exact moves_goto rfl
  · split
    · exact moves_goto rfl
    · split
      · exact moves_joinEpisode rfl
      · split_ifs
        · exact moves_goto rfl
        · exact moves_joinEpisode rfl

theorem moves_claimProbe {generation : ℕ} : Moves s (s.claimProbe owner f generation) f := by
  unfold AdmissionState.claimProbe
  split
  · exact moves_goto rfl
  · split_ifs <;> exact moves_goto rfl

theorem moves_limiterSection {elapsed : ℚ} :
    Moves s (s.limiterSection cfg owner f p elapsed) f := by
  unfold AdmissionState.limiterSection
  dsimp only
  split_ifs
  · exact moves_goto rfl
  · exact moves_dropPermit rfl
  · exact fun _ _ => rfl

theorem moves_slotSection : Moves s (s.slotSection cfg owner f p) f := by
  unfold AdmissionState.slotSection
  split_ifs
  · exact moves_dropPermit rfl
  · exact moves_dropPermit rfl
  · exact moves_goto rfl

omit [DecidableEq φ] in
theorem discardWaiter_pc {generation : ℕ} : (s.discardWaiter y generation).pc = s.pc := by
  unfold discardWaiter
  split
  · rfl
  · split_ifs <;> rfl

omit [DecidableEq φ] in
theorem abandonWaitingLeader_pc {generation : ℕ} :
    (s.abandonWaitingLeader y generation).pc = s.pc := by
  unfold abandonWaitingLeader
  split
  · rfl
  · split_ifs <;> rfl

theorem moves_advance (ht : s.advance cfg owner f = some t) : Moves s t f := by
  unfold AdmissionState.advance at ht
  split at ht
  · cases ht
    exact moves_gateRound
  · split_ifs at ht
    cases ht
    exact moves_claimProbe
  · cases ht
    exact moves_goto discardWaiter_pc
  · cases ht
    exact moves_goto abandonWaitingLeader_pc
  · split_ifs at ht
    cases ht
    exact moves_slotSection
  · cases ht
    exact moves_goto giveUpProbe_pc
  · cases ht
    exact moves_goto outcomeSection_pc
  · cases ht
    exact moves_goto giveUpProbe_pc
  · cases ht
    exact moves_goto rfl
  · cases ht
    exact moves_goto giveUpProbe_pc
  · cases ht

omit [DecidableEq σ] in
theorem moves_cancel (ht : s.cancel f = some t) : Moves s t f := by
  unfold AdmissionState.cancel at ht
  split at ht
  case h_6 =>
    cases ht
    exact moves_dropPermit rfl
  case h_7 =>
    cases ht
    exact moves_dropPermit rfl
  case h_12 => cases ht
  all_goals
    cases ht
    exact moves_goto rfl

theorem moves_act {a : Action ε} (ht : s.act cfg owner f a = some t) : Moves s t f := by
  cases a with
  | advance => exact moves_advance ht
  | cancel => exact moves_cancel ht
  | begin =>
    simp only [AdmissionState.act] at ht
    split at ht
    · cases ht
      exact moves_goto rfl
    · cases ht
  | pace elapsed =>
    simp only [AdmissionState.act] at ht
    split at ht
    · split_ifs at ht
      cases ht
      exact moves_limiterSection
    · cases ht
  | wake =>
    simp only [AdmissionState.act] at ht
    split at ht
    · cases ht
      exact moves_goto rfl
    · cases ht
      exact moves_goto rfl
    · cases ht
  | report r =>
    simp only [AdmissionState.act] at ht
    split at ht
    · cases ht
      unfold reportOutcome
      split
      · exact moves_goto rfl
      · split_ifs <;> exact moves_goto rfl
    · cases ht
  | close =>
    simp only [AdmissionState.act] at ht
    split at ht
    · cases ht
      exact moves_goto rfl
    · cases ht
      exact moves_goto rfl
    · cases ht

end AdmissionState

end Switchboard.Providers
