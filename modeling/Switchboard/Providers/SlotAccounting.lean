import Switchboard.Providers.RateWindow

/-!
# The concurrency slots of a provider

The wait for the semaphore is split in two: a free slot is granted to a waiting frame,
and the frame resumes later, when its permit may be stale or its wait cancelled. Every
acquired slot is held by one frame until it is released once.
-/

namespace Switchboard.Providers

/-- The frame holds the slot of an attempt that is opened and not closed. -/
def AdmissionPc.holdsSlot {ε : Type} : AdmissionPc ε → Bool
  | .attempt _ _ | .reporting _ _ | .closing _ | .releasing => true
  | _ => false

/-- A controller whose semaphore grants slots ahead of the frames that wait for them. -/
structure SlotState (σ φ ε : Type) where
  adm : AdmissionState σ φ ε
  /-- The frames that wait at the semaphore and have been granted a slot. -/
  granted : Finset φ := ∅
  /-- How often a frame has acquired a slot, and released one. -/
  acquired : φ → ℕ := fun _ => 0
  released : φ → ℕ := fun _ => 0
  /-- The frames whose `open_attempt` has returned an attempt, oldest first. -/
  openings : List φ := []

namespace SlotState

open AdmissionState

variable {σ φ ε : Type} [DecidableEq σ] [DecidableEq φ]

/-- `Semaphore.acquire` takes a free slot for a frame. -/
def grant (s : SlotState σ φ ε) (f : φ) : Option (SlotState σ φ ε) :=
  match s.adm.pc f with
  | .slotting _ =>
    if f ∉ s.granted ∧ 0 < s.adm.slots then
      some
        { s with
          adm := { s.adm with slots := s.adm.slots - 1 }
          granted := insert f s.granted
          acquired := Function.update s.acquired f (s.acquired f + 1) }
    else none
  | _ => none

/-- `Semaphore.release` for the slot a waiting frame was granted. -/
def giveBack (s : SlotState σ φ ε) (f : φ) : SlotState σ φ ε :=
  { s with
    adm := s.adm.release
    granted := s.granted.erase f
    released := Function.update s.released f (s.released f + 1) }

variable (cfg : AdmissionConfig) (owner : φ → σ)

/-- What `open_attempt` does once its wait has ended with a slot. -/
def resume (s : SlotState σ φ ε) (f : φ) (p : GatePermit) : SlotState σ φ ε :=
  if s.adm.permitIsCurrent (owner f) p = false then
    let s := s.giveBack f
    { s with adm := s.adm.dropPermit f p true }
  else if s.adm.canAttempt cfg (owner f) = false then
    let s := s.giveBack f
    { s with adm := s.adm.dropPermit f p false }
  else
    { s with
      adm :=
        { s.adm with
          sessions := Function.update s.adm.sessions (owner f)
            { s.adm.sessions (owner f) with
              attemptsStarted := (s.adm.sessions (owner f)).attemptsStarted + 1 } }.goto f
          (.attempt p false)
      granted := s.granted.erase f
      openings := s.openings ++ [f] }

/-- A cancelled wait gives back a slot it was granted. -/
def cancelWait (s : SlotState σ φ ε) (f : φ) (p : GatePermit) : SlotState σ φ ε :=
  let s := if f ∈ s.granted then s.giveBack f else s
  { s with adm := s.adm.dropPermit f p false }

/-- The state after a step of the controller in which a frame may release its slot. -/
def carry (s : SlotState σ φ ε) (f : φ) (t : AdmissionState σ φ ε) : SlotState σ φ ε :=
  if s.adm.slots < t.slots then
    { s with adm := t, released := Function.update s.released f (s.released f + 1) }
  else { s with adm := t }

/-- A step of a frame; only the end of its wait for the semaphore differs from `act`. -/
def act (s : SlotState σ φ ε) (f : φ) (a : Action ε) : Option (SlotState σ φ ε) :=
  match s.adm.pc f, a with
  | .slotting p, .advance => if f ∈ s.granted then some (s.resume cfg owner f p) else none
  | .slotting p, .cancel => some (s.cancelWait f p)
  | _, a => (s.adm.act cfg owner f a).map (s.carry f)

end SlotState

/-- A step of a frame, a slot granted to a waiting frame, or the passing of time. -/
inductive SlotLabel (φ ε : Type) where
  | frame (f : φ) (a : AdmissionState.Action ε)
  | grant (f : φ)
  | tick (elapsed : ℚ)

open SlotState

/-- Runs of one controller in which a frame may be invalidated or cancelled between
the grant of a slot and the moment it resumes. -/
def slotSystem {σ φ : Type} (ε : Type) [DecidableEq σ] [DecidableEq φ]
    (cfg : AdmissionConfig) (owner : φ → σ) : System (SlotState σ φ ε) (SlotLabel φ ε) where
  init s := ∃ now, s = { adm := AdmissionState.fresh cfg now }
  step s l t := match l with
    | .frame f a => s.act cfg owner f a = some t
    | .grant f => s.grant f = some t
    | .tick elapsed =>
      0 ≤ elapsed ∧ t = { s with adm := { s.adm with now := s.adm.now + elapsed } }

namespace SlotState

open AdmissionState

variable {σ φ ε : Type} [DecidableEq σ] [DecidableEq φ] {cfg : AdmissionConfig}
  {owner : φ → σ} {s t : SlotState σ φ ε} {a u : AdmissionState σ φ ε} {f g : φ} {x : σ}
  {p : GatePermit} {c : AdmissionPc ε}

/-- A grant at once followed by the frame is the atomic section of the controller. -/
theorem advance_grant (hpc : s.adm.pc f = .slotting p) (hf : f ∉ s.granted)
    (hpos : 0 < s.adm.slots) :
    ((s.grant f).bind fun s => s.act cfg owner f .advance).map (·.adm) =
      s.adm.act cfg owner f .advance := by
  have hback : s.adm.slots - 1 + 1 = s.adm.slots := Nat.sub_add_cancel hpos
  simp only [grant, hpc, hf, hpos, not_false_eq_true, and_self, if_true, Option.bind_some, act,
    Finset.mem_insert_self, AdmissionState.act, AdmissionState.advance, Option.map_some,
    resume, slotSection, giveBack, release, dropPermit, goto, permitIsCurrent, canAttempt, hback]
  split_ifs <;> simp_all

/-! ## One step of the controller -/

/-- A step of a frame that does not end a wait for the semaphore: the frame takes no
slot, and gives one back exactly when it stops holding it. -/
structure Frames (a u : AdmissionState σ φ ε) (f : φ) : Prop where
  moves : Moves a u f
  started : ∀ x, (u.sessions x).attemptsStarted = (a.sessions x).attemptsStarted
  slots : (u.slots = a.slots ∧ (u.pc f).holdsSlot = (a.pc f).holdsSlot) ∨
    (u.slots = a.slots + 1 ∧ (a.pc f).holdsSlot = true ∧ (u.pc f).holdsSlot = false)

omit [DecidableEq σ] in
theorem frames_goto (hpc : u.pc = a.pc)
    (hstarted : ∀ x, (u.sessions x).attemptsStarted = (a.sessions x).attemptsStarted)
    (hslots : u.slots = a.slots) (hc : c.holdsSlot = (a.pc f).holdsSlot) :
    Frames a (u.goto f c) f where
  moves := moves_goto hpc
  started := hstarted
  slots := .inl ⟨hslots, by simpa [goto] using hc⟩

omit [DecidableEq σ] in
theorem frames_release (hpc : u.pc = a.pc)
    (hstarted : ∀ x, (u.sessions x).attemptsStarted = (a.sessions x).attemptsStarted)
    (hslots : u.slots = a.slots) (hf : (a.pc f).holdsSlot = true) (hc : c.holdsSlot = false) :
    Frames a (u.release.goto f c) f where
  moves := moves_goto hpc
  started := hstarted
  slots := .inr ⟨by simp [goto, release, hslots], hf, by simpa [goto] using hc⟩

omit [DecidableEq σ] in
theorem frames_dropPermit {again : Bool} (hpc : u.pc = a.pc)
    (hstarted : ∀ x, (u.sessions x).attemptsStarted = (a.sessions x).attemptsStarted)
    (hslots : u.slots = a.slots) (hf : (a.pc f).holdsSlot = false) :
    Frames a (u.dropPermit f p again) f := by
  unfold AdmissionState.dropPermit
  split
  · exact frames_goto hpc hstarted hslots hf.symm
  · refine frames_goto hpc hstarted hslots ?_
    cases again <;> exact hf.symm

theorem frames_joinEpisode {e : RecoveryEpisode σ ε} (hpc : u.pc = a.pc)
    (hstarted : ∀ x, (u.sessions x).attemptsStarted = (a.sessions x).attemptsStarted)
    (hslots : u.slots = a.slots) (hf : (a.pc f).holdsSlot = false) :
    Frames a (u.joinEpisode owner f e) f := by
  unfold AdmissionState.joinEpisode
  dsimp only
  split_ifs <;> exact frames_goto hpc hstarted hslots hf.symm

theorem frames_gateRound (hf : (a.pc f).holdsSlot = false) :
    Frames a (a.gateRound owner f) f := by
  unfold AdmissionState.gateRound AdmissionState.gateSection
  split
  · exact frames_goto rfl (fun _ => rfl) rfl hf.symm
  · split
    · exact frames_goto rfl (fun _ => rfl) rfl hf.symm
    · split
      · exact frames_joinEpisode rfl (fun _ => rfl) rfl hf
      · split_ifs
        · exact frames_goto rfl (fun _ => rfl) rfl hf.symm
        · exact frames_joinEpisode rfl (fun _ => rfl) rfl hf

theorem frames_claimProbe {generation : ℕ} (hf : (a.pc f).holdsSlot = false) :
    Frames a (a.claimProbe owner f generation) f := by
  unfold AdmissionState.claimProbe
  split
  · exact frames_goto rfl (fun _ => rfl) rfl hf.symm
  · split_ifs <;> exact frames_goto rfl (fun _ => rfl) rfl hf.symm

theorem frames_limiterSection {elapsed : ℚ} (hpc : a.pc f = .limiting p) :
    Frames a (a.limiterSection cfg owner f p elapsed) f := by
  have hf : (a.pc f).holdsSlot = false := by rw [hpc]; rfl
  unfold AdmissionState.limiterSection
  dsimp only
  split_ifs
  · exact frames_goto rfl (fun _ => rfl) rfl hf.symm
  · exact frames_dropPermit rfl (fun _ => rfl) rfl hf
  · exact ⟨fun _ _ => rfl, fun _ => rfl, .inl ⟨rfl, rfl⟩⟩

omit [DecidableEq φ] in
theorem giveUpProbe_slots : (a.giveUpProbe x p).slots = a.slots ∧
    (a.giveUpProbe x p).sessions = a.sessions := by
  unfold giveUpProbe
  split <;> exact ⟨rfl, rfl⟩

omit [DecidableEq φ] in
theorem outcomeSection_slots {o : AttemptOutcome ε} :
    (a.outcomeSection x p o).slots = a.slots := by
  cases o with
  | failed =>
    simp only [outcomeSection, attemptFailed]
    repeat' split
    all_goals rfl
  | _ =>
    simp only [outcomeSection, attemptSucceeded, attemptCorrected, attemptRejected]
    split <;> rfl

omit [DecidableEq φ] in
theorem discardWaiter_slots {generation : ℕ} : (a.discardWaiter x generation).slots = a.slots ∧
    (a.discardWaiter x generation).sessions = a.sessions := by
  unfold discardWaiter
  split
  · exact ⟨rfl, rfl⟩
  · split_ifs <;> exact ⟨rfl, rfl⟩

omit [DecidableEq φ] in
theorem abandonWaitingLeader_slots {generation : ℕ} :
    (a.abandonWaitingLeader x generation).slots = a.slots ∧
      (a.abandonWaitingLeader x generation).sessions = a.sessions := by
  unfold abandonWaitingLeader
  split
  · exact ⟨rfl, rfl⟩
  · split_ifs <;> exact ⟨rfl, rfl⟩

theorem frames_advance (hslotting : (a.pc f).isSlotting = false)
    (hu : a.advance cfg owner f = some u) : Frames a u f := by
  have hsame : ∀ {b : AdmissionState σ φ ε}, b.sessions = a.sessions →
      ∀ x, (b.sessions x).attemptsStarted = (a.sessions x).attemptsStarted := by
    rintro b hb x
    rw [hb]
  unfold AdmissionState.advance at hu
  split at hu
  case h_1 hs =>
    cases hu
    exact frames_gateRound (by rw [hs]; rfl)
  case h_2 hs =>
    split_ifs at hu
    cases hu
    exact frames_claimProbe (by rw [hs]; rfl)
  case h_3 hs =>
    cases hu
    exact frames_goto discardWaiter_pc (hsame discardWaiter_slots.2) discardWaiter_slots.1
      (by rw [hs]; rfl)
  case h_4 hs =>
    cases hu
    exact frames_goto abandonWaitingLeader_pc (hsame abandonWaitingLeader_slots.2)
      abandonWaitingLeader_slots.1 (by rw [hs]; rfl)
  case h_5 hs => simp [hs, AdmissionPc.isSlotting] at hslotting
  case h_6 again hs =>
    cases hu
    refine frames_goto giveUpProbe_pc (hsame giveUpProbe_slots.2) giveUpProbe_slots.1 ?_
    cases again <;> rw [hs] <;> rfl
  case h_7 hs =>
    cases hu
    exact frames_goto outcomeSection_pc (fun _ => outcomeSection_started) outcomeSection_slots
      (by rw [hs]; rfl)
  case h_8 hs =>
    cases hu
    exact frames_goto giveUpProbe_pc (hsame giveUpProbe_slots.2) giveUpProbe_slots.1
      (by rw [hs]; rfl)
  case h_9 hs =>
    cases hu
    exact frames_release rfl (fun _ => rfl) rfl (by rw [hs]; rfl) rfl
  case h_10 hs =>
    cases hu
    exact frames_goto giveUpProbe_pc (hsame giveUpProbe_slots.2) giveUpProbe_slots.1
      (by rw [hs]; rfl)
  case h_11 => cases hu

omit [DecidableEq σ] in
theorem frames_cancel (hu : a.cancel f = some u) : Frames a u f := by
  unfold AdmissionState.cancel at hu
  split at hu
  case h_8 again hs =>
    cases hu
    refine frames_goto rfl (fun _ => rfl) rfl ?_
    cases again <;> rw [hs] <;> rfl
  case h_6 hs | h_7 hs =>
    cases hu
    exact frames_dropPermit rfl (fun _ => rfl) rfl (by rw [hs]; rfl)
  case h_10 hs | h_11 hs =>
    cases hu
    exact frames_release rfl (fun _ => rfl) rfl (by rw [hs]; rfl) rfl
  case h_12 => cases hu
  all_goals
    next hs =>
    cases hu
    exact frames_goto rfl (fun _ => rfl) rfl (by rw [hs]; rfl)

omit [DecidableEq σ] in
theorem frames_report {r : Report ε} (hpc : a.pc f = .attempt p false) :
    Frames a (a.reportOutcome cfg owner f p r) f := by
  unfold reportOutcome
  split
  · exact frames_goto rfl (fun _ => rfl) rfl (by rw [hpc]; rfl)
  · split <;> exact frames_goto rfl (fun _ => rfl) rfl (by rw [hpc]; rfl)

/-- Every step of a frame but the end of a wait for the semaphore. -/
theorem frames_act {l : Action ε}
    (hl : (a.pc f).isSlotting = true → l ≠ .advance) (hu : a.act cfg owner f l = some u) :
    Frames a u f := by
  cases l with
  | advance =>
    refine frames_advance ?_ hu
    by_contra hs
    exact hl (Bool.eq_true_of_not_eq_false hs) rfl
  | cancel => exact frames_cancel hu
  | begin =>
    simp only [AdmissionState.act] at hu
    split at hu
    case h_1 hs =>
      cases hu
      refine frames_goto rfl (fun _ => rfl) rfl ?_
      split_ifs <;> rw [hs] <;> rfl
    case h_2 => cases hu
  | pace elapsed =>
    simp only [AdmissionState.act] at hu
    split at hu
    case h_1 hs =>
      split_ifs at hu
      cases hu
      exact frames_limiterSection hs
    case h_2 => cases hu
  | wake =>
    simp only [AdmissionState.act] at hu
    split at hu
    case h_1 hs | h_2 hs =>
      cases hu
      exact frames_goto rfl (fun _ => rfl) rfl (by rw [hs]; rfl)
    case h_3 => cases hu
  | report r =>
    simp only [AdmissionState.act] at hu
    split at hu
    case h_1 hs =>
      cases hu
      exact frames_report hs
    case h_2 => cases hu
  | close =>
    simp only [AdmissionState.act] at hu
    split at hu
    case h_1 hs =>
      cases hu
      exact frames_release rfl (fun _ => rfl) rfl (by rw [hs]; rfl) rfl
    case h_2 hs =>
      cases hu
      exact frames_goto rfl (fun _ => rfl) rfl (by rw [hs]; rfl)
    case h_3 => cases hu

/-! ## The accounts -/

/-- The frame has a slot: granted to its wait, or of the attempt it has open. -/
def Occupies (s : SlotState σ φ ε) (f : φ) : Prop :=
  f ∈ s.granted ∨ (s.adm.pc f).holdsSlot = true

/-- How many attempts a session has opened. -/
def opened (owner : φ → σ) (s : SlotState σ φ ε) (x : σ) : ℕ :=
  s.openings.countP fun f => owner f = x

/-- The free slots and the slots of the frames add up, a frame has released what it
acquired but for the slot it has, and the openings of a session are its budget. -/
structure Counted (cfg : AdmissionConfig) (owner : φ → σ) (s : SlotState σ φ ε) : Prop where
  waits : ∀ f ∈ s.granted, (s.adm.pc f).isSlotting = true
  total : ∃ holders : Finset φ, (∀ f, f ∈ holders ↔ s.Occupies f) ∧
    s.adm.slots + holders.card = cfg.maxConcurrency
  held : ∀ f, s.Occupies f → s.acquired f = s.released f + 1
  settled : ∀ f, ¬ s.Occupies f → s.acquired f = s.released f
  budget : ∀ x, s.opened owner x = (s.adm.sessions x).attemptsStarted
  bound : ∀ x, (s.adm.sessions x).attemptsStarted ≤ cfg.maxAttempts

omit [DecidableEq σ] in
theorem holdsSlot_of_slotting (h : c.isSlotting = true) : c.holdsSlot = false := by
  cases c with
  | slotting => rfl
  | _ => cases h

/-- A frame that has no slot takes a free one. -/
theorem Counted.take (h : s.Counted cfg owner) (hs : (s.adm.pc f).isSlotting = true)
    (hf : f ∉ s.granted) (hpos : 0 < s.adm.slots) :
    Counted cfg owner
      { s with
        adm := { s.adm with slots := s.adm.slots - 1 }
        granted := insert f s.granted
        acquired := Function.update s.acquired f (s.acquired f + 1) } where
  waits := by
    intro g hg
    rcases Finset.mem_insert.mp hg with rfl | hg
    · exact hs
    · exact h.waits g hg
  total := by
    obtain ⟨holders, hmem, hsum⟩ := h.total
    have hnot : f ∉ holders := by
      rw [hmem]
      simp [Occupies, hf, holdsSlot_of_slotting hs]
    refine ⟨insert f holders, fun g => ?_, ?_⟩
    · simp only [Finset.mem_insert, hmem, Occupies, or_assoc]
    · rw [Finset.card_insert_of_notMem hnot]
      dsimp only
      omega
  held := by
    intro g hg
    by_cases hgf : g = f
    · subst hgf
      simp [h.settled g (by simp [Occupies, hf, holdsSlot_of_slotting hs])]
    · simpa [hgf] using h.held g (by simpa [Occupies, hgf] using hg)
  settled := by
    intro g hg
    by_cases hgf : g = f
    · exact absurd (.inl (hgf ▸ Finset.mem_insert_self g s.granted)) hg
    · simpa [hgf] using h.settled g (by simpa [Occupies, hgf] using hg)
  budget := h.budget
  bound := h.bound

/-- A frame gives back the slot it has. -/
theorem Counted.vacate (h : s.Counted cfg owner) (hf : s.Occupies f) (hm : Moves s.adm u f)
    (hstarted : ∀ x, (u.sessions x).attemptsStarted = (s.adm.sessions x).attemptsStarted)
    (hslots : u.slots = s.adm.slots + 1) (hu : (u.pc f).holdsSlot = false) :
    Counted cfg owner
      { s with
        adm := u
        granted := s.granted.erase f
        released := Function.update s.released f (s.released f + 1) } where
  waits := by
    intro g hg
    obtain ⟨hne, hg⟩ := Finset.mem_erase.mp hg
    exact (hm g hne).symm ▸ h.waits g hg
  total := by
    obtain ⟨holders, hmem, hsum⟩ := h.total
    refine ⟨holders.erase f, fun g => ?_, ?_⟩
    · by_cases hgf : g = f
      · subst hgf
        simp [Occupies, hu]
      · simp [Occupies, hmem, hgf, hm g hgf]
    · have hpos := Finset.card_pos.mpr ⟨f, (hmem f).mpr hf⟩
      rw [Finset.card_erase_of_mem ((hmem f).mpr hf)]
      dsimp only
      omega
  held := by
    intro g hg
    by_cases hgf : g = f
    · subst hgf
      simp [Occupies, hu] at hg
    · simpa [hgf] using h.held g (by simpa [Occupies, hgf, hm g hgf] using hg)
  settled := by
    intro g hg
    by_cases hgf : g = f
    · subst hgf
      simpa using h.held g hf
    · simpa [hgf] using h.settled g (by simpa [Occupies, hgf, hm g hgf] using hg)
  budget := fun x => (h.budget x).trans (hstarted x).symm
  bound := fun x => (hstarted x).symm ▸ h.bound x

/-- A step that neither takes a slot nor gives one back. -/
theorem Counted.stay (h : s.Counted cfg owner) (hf : f ∉ s.granted) (hm : Moves s.adm u f)
    (hstarted : ∀ x, (u.sessions x).attemptsStarted = (s.adm.sessions x).attemptsStarted)
    (hslots : u.slots = s.adm.slots) (hu : (u.pc f).holdsSlot = (s.adm.pc f).holdsSlot) :
    Counted cfg owner { s with adm := u } := by
  have hocc : ∀ g, Occupies { s with adm := u } g ↔ s.Occupies g := by
    intro g
    by_cases hgf : g = f
    · subst hgf
      simp [Occupies, hu]
    · simp [Occupies, hm g hgf]
  refine ⟨fun g hg => ?_, ?_, fun g hg => ?_, fun g hg => ?_, fun x => ?_, fun x => ?_⟩
  · have hgf : g ≠ f := fun hgf => hf (hgf ▸ hg)
    exact (hm g hgf).symm ▸ h.waits g hg
  · obtain ⟨holders, hmem, hsum⟩ := h.total
    exact ⟨holders, fun g => (hmem g).trans (hocc g).symm, hslots.symm ▸ hsum⟩
  · exact h.held g ((hocc g).mp hg)
  · exact h.settled g (fun hs => hg ((hocc g).mpr hs))
  · exact (h.budget x).trans (hstarted x).symm
  · exact (hstarted x).symm ▸ h.bound x

/-- A frame that was granted a slot goes on with an attempt. -/
theorem Counted.opens (h : s.Counted cfg owner) (hf : f ∈ s.granted)
    (hcan : s.adm.canAttempt cfg (owner f) = true) :
    Counted cfg owner
      { s with
        adm :=
          { s.adm with
            sessions := Function.update s.adm.sessions (owner f)
              { s.adm.sessions (owner f) with
                attemptsStarted := (s.adm.sessions (owner f)).attemptsStarted + 1 } }.goto f
            (.attempt p false)
        granted := s.granted.erase f
        openings := s.openings ++ [f] } := by
  have hocc : ∀ g, (g ∈ s.granted.erase f ∨
      (Function.update s.adm.pc f (.attempt p false) g).holdsSlot = true) ↔ s.Occupies g := by
    intro g
    by_cases hgf : g = f
    · subst hgf
      simp [Occupies, hf, AdmissionPc.holdsSlot]
    · simp [Occupies, hgf]
  refine ⟨fun g hg => ?_, ?_, fun g hg => ?_, fun g hg => ?_, fun x => ?_, fun x => ?_⟩
  · obtain ⟨hne, hg⟩ := Finset.mem_erase.mp hg
    simpa [goto, hne] using h.waits g hg
  · obtain ⟨holders, hmem, hsum⟩ := h.total
    exact ⟨holders, fun g => (hmem g).trans (hocc g).symm, hsum⟩
  · exact h.held g ((hocc g).mp hg)
  · exact h.settled g (fun hs => hg ((hocc g).mpr hs))
  · have hx := h.budget x
    simp only [opened] at hx
    simp only [opened, List.countP_append, List.countP_singleton, hx, goto]
    by_cases hxf : x = owner f
    · simp [hxf]
    · simp [hxf, Ne.symm hxf]
  · simp only [canAttempt, decide_eq_true_eq] at hcan
    by_cases hxf : x = owner f
    · simpa [goto, hxf] using hcan
    · simpa [goto, hxf] using h.bound x

theorem Counted.giveBack {again : Bool} (h : s.Counted cfg owner) (hf : f ∈ s.granted) :
    Counted cfg owner
      { s.giveBack f with adm := (s.giveBack f).adm.dropPermit f p again } := by
  have hpc : ((s.adm.release.dropPermit f p again).pc f).holdsSlot = false := by
    unfold AdmissionState.dropPermit
    split
    · simp [goto, AdmissionPc.holdsSlot]
    · cases again <;> simp [goto, AdmissionPc.holdsSlot]
  refine h.vacate (.inl hf) (moves_dropPermit rfl) ?_ ?_ hpc
  · intro x
    unfold AdmissionState.dropPermit
    split <;> rfl
  · unfold AdmissionState.dropPermit
    split <;> rfl

theorem Counted.resume (h : s.Counted cfg owner) (hf : f ∈ s.granted) :
    Counted cfg owner (s.resume cfg owner f p) := by
  unfold SlotState.resume
  split_ifs with hstale hcan
  · exact h.giveBack hf
  · exact h.giveBack hf
  · exact h.opens hf (Bool.eq_true_of_not_eq_false hcan)

theorem Counted.carry (h : s.Counted cfg owner) (hf : f ∉ s.granted)
    (hu : Frames s.adm u f) : Counted cfg owner (s.carry f u) := by
  unfold SlotState.carry
  rcases hu.slots with ⟨hslots, hholds⟩ | ⟨hslots, hheld, hleft⟩
  · rw [if_neg (by omega)]
    exact h.stay hf hu.moves hu.started hslots hholds
  · rw [if_pos (by omega)]
    have hvacated := h.vacate (.inr hheld) hu.moves hu.started hslots hleft
    rwa [Finset.erase_eq_of_notMem hf] at hvacated

theorem Counted.cancelWait (h : s.Counted cfg owner) (hpc : s.adm.pc f = .slotting p) :
    Counted cfg owner (s.cancelWait f p) := by
  unfold SlotState.cancelWait
  split_ifs with hf
  · exact h.giveBack hf
  · have hdrop : Frames s.adm (s.adm.dropPermit f p false) f :=
      frames_dropPermit rfl (fun _ => rfl) rfl (by rw [hpc]; rfl)
    have hholds : ((s.adm.dropPermit f p false).pc f).holdsSlot = (s.adm.pc f).holdsSlot := by
      rcases hdrop.slots with ⟨-, hholds⟩ | ⟨-, hheld, -⟩
      · exact hholds
      · rw [hpc] at hheld
        cases hheld
    refine h.stay hf hdrop.moves hdrop.started ?_ hholds
    unfold AdmissionState.dropPermit
    split <;> rfl

theorem Counted.act {l : Action ε} (h : s.Counted cfg owner)
    (ht : s.act cfg owner f l = some t) : t.Counted cfg owner := by
  have hcarry : ∀ {l}, (s.adm.pc f).isSlotting = true → l ≠ .advance →
      s.adm.act cfg owner f l = none ∨ l = .cancel := by
    intro l hs hl
    cases hpc : s.adm.pc f with
    | slotting p => cases l <;> simp_all [AdmissionState.act]
    | _ => simp [hpc, AdmissionPc.isSlotting] at hs
  unfold SlotState.act at ht
  split at ht
  case h_1 p hs =>
    split_ifs at ht with hf
    cases ht
    exact h.resume hf
  case h_2 p hs =>
    cases ht
    exact h.cancelWait hs
  case h_3 hadvance hcancel =>
    obtain ⟨u, hu, rfl⟩ := Option.map_eq_some_iff.mp ht
    have hslotting : (s.adm.pc f).isSlotting = false := by
      by_contra hs
      have hs := Bool.eq_true_of_not_eq_false hs
      cases hpc : s.adm.pc f with
      | slotting p =>
        rcases hcarry hs (fun hl => hadvance p hpc hl) with hnone | hl
        · rw [hnone] at hu
          cases hu
        · exact hcancel p hpc hl
      | _ => simp [hpc, AdmissionPc.isSlotting] at hs
    have hf : f ∉ s.granted := fun hf => by simp [h.waits f hf] at hslotting
    exact h.carry hf (frames_act (by simp [hslotting]) hu)

theorem Counted.grant (h : s.Counted cfg owner) (ht : s.grant f = some t) :
    t.Counted cfg owner := by
  unfold SlotState.grant at ht
  split at ht
  · next p hpc =>
    split_ifs at ht with hfree
    cases ht
    exact h.take (by rw [hpc]; rfl) hfree.1 hfree.2
  · cases ht

omit [DecidableEq φ] in
theorem counted_fresh {now : ℚ} :
    Counted cfg owner { adm := (fresh cfg now : AdmissionState σ φ ε) } where
  waits := by simp
  total := ⟨∅, by simp [Occupies, fresh, AdmissionPc.holdsSlot], by simp [fresh]⟩
  held := by simp [Occupies, fresh, AdmissionPc.holdsSlot]
  settled := by simp
  budget := by simp [opened, fresh]
  bound := by simp [fresh]

theorem counted_of_reachable (hs : (slotSystem ε cfg owner).Reachable s) :
    s.Counted cfg owner := by
  refine System.Reachable.invariant (P := Counted cfg owner) ?_ ?_ hs
  · rintro _ ⟨now, rfl⟩
    exact counted_fresh
  · intro s l t _ h hstep
    cases l with
    | frame f a => exact h.act hstep
    | grant f => exact h.grant hstep
    | tick elapsed =>
      obtain ⟨-, rfl⟩ := hstep
      exact ⟨h.waits, h.total, h.held, h.settled, h.budget, h.bound⟩

/-! ## No slot is stranded -/

/-- The frame can go on by itself until it has no slot. -/
def Releases (cfg : AdmissionConfig) (owner : φ → σ) (s : SlotState σ φ ε) (f : φ) : Prop :=
  ∃ (script : List (Action ε)) (t : SlotState σ φ ε),
    (slotSystem ε cfg owner).Run s (script.map (SlotLabel.frame f)) t ∧
    ¬ t.Occupies f

omit [DecidableEq σ] in
@[simp] theorem carry_adm : (s.carry f u).adm = u := by
  unfold SlotState.carry
  split_ifs <;> rfl

omit [DecidableEq σ] in
@[simp] theorem carry_granted : (s.carry f u).granted = s.granted := by
  unfold SlotState.carry
  split_ifs <;> rfl

theorem releases_of_not (hf : ¬ s.Occupies f) : Releases cfg owner s f :=
  ⟨[], s, .nil s, hf⟩

theorem releases_act {l : Action ε} (hpc : (s.adm.pc f).isSlotting = false)
    (hu : s.adm.act cfg owner f l = some u) (h : Releases cfg owner (s.carry f u) f) :
    Releases cfg owner s f := by
  obtain ⟨script, t, hrun, hfree⟩ := h
  refine ⟨l :: script, t, .cons (t := s.carry f u) ?_ hrun, hfree⟩
  show s.act cfg owner f l = some (s.carry f u)
  unfold SlotState.act
  split
  case h_1 hs => simp [hs, AdmissionPc.isSlotting] at hpc
  case h_2 hs => simp [hs, AdmissionPc.isSlotting] at hpc
  case h_3 => rw [hu, Option.map_some]

/-- Where an attempt stands, its owner closes it and the slot is free again. -/
theorem releases_of_holds (hf : f ∉ s.granted) (hs : (s.adm.pc f).holdsSlot = true) :
    Releases cfg owner s f := by
  have hended : ∀ {s : SlotState σ φ ε} {c}, f ∉ s.granted → s.adm.pc f = c →
      c.holdsSlot = false → Releases cfg owner s f := fun hf hpc hc =>
    releases_of_not (by simp [Occupies, hf, hpc, hc])
  have hreleasing : ∀ {s : SlotState σ φ ε}, f ∉ s.granted → s.adm.pc f = .releasing →
      Releases cfg owner s f := by
    intro s hf hpc
    refine releases_act (l := .advance) (by rw [hpc]; rfl)
      (by rw [AdmissionState.act, AdmissionState.advance, hpc]) ?_
    exact hended (c := .ended) (by simpa using hf) (by simp [goto]) rfl
  have hclosing : ∀ {s : SlotState σ φ ε} {p}, f ∉ s.granted → s.adm.pc f = .closing p →
      Releases cfg owner s f := by
    intro s p hf hpc
    refine releases_act (l := .advance) (by rw [hpc]; rfl)
      (by rw [AdmissionState.act, AdmissionState.advance, hpc]) ?_
    exact hreleasing (by simpa using hf) (by simp [goto])
  have hattempt : ∀ {s : SlotState σ φ ε} {p r}, f ∉ s.granted → s.adm.pc f = .attempt p r →
      Releases cfg owner s f := by
    intro s p r hf hpc
    cases r with
    | true =>
      refine releases_act (l := .close) (by rw [hpc]; rfl) (by rw [AdmissionState.act, hpc]) ?_
      exact hended (c := .ended) (by simpa using hf) (by simp [goto]) rfl
    | false =>
      refine releases_act (l := .close) (by rw [hpc]; rfl) (by rw [AdmissionState.act, hpc]) ?_
      exact hclosing (p := p) (by simpa using hf) (by simp [goto])
  cases hpc : s.adm.pc f with
  | attempt p r => exact hattempt hf hpc
  | reporting p o =>
    refine releases_act (l := .advance) (by rw [hpc]; rfl)
      (by rw [AdmissionState.act, AdmissionState.advance, hpc]) ?_
    exact hattempt (p := p) (r := true) (by simpa using hf) (by simp [goto])
  | closing p => exact hclosing hf hpc
  | releasing => exact hreleasing hf hpc
  | _ => simp [hpc, AdmissionPc.holdsSlot] at hs

theorem Counted.releases (h : s.Counted cfg owner) : Releases cfg owner s f := by
  by_cases hf : f ∈ s.granted
  · have hslotting := h.waits f hf
    cases hpc : s.adm.pc f with
    | slotting p =>
      refine ⟨[.cancel], s.cancelWait f p, .cons ?_ (.nil _), ?_⟩
      · show s.act cfg owner f .cancel = _
        simp only [SlotState.act, hpc]
      · unfold SlotState.cancelWait
        simp only [if_pos hf, AdmissionState.dropPermit]
        split <;> simp [Occupies, SlotState.giveBack, goto, AdmissionPc.holdsSlot]
    | _ => simp [hpc, AdmissionPc.isSlotting] at hslotting
  · by_cases hs : (s.adm.pc f).holdsSlot = true
    · exact releases_of_holds hf hs
    · exact releases_of_not (by simp [Occupies, hf, hs])

end SlotState

/-- In every state that is reached, the slots of the frames and the free ones add up to
the limit, a frame has released every slot it acquired but the one it has, it can go on
to release that one, and no session has opened more attempts than its budget. -/
theorem slots_accounted {σ φ ε : Type} [DecidableEq σ] [DecidableEq φ] (cfg : AdmissionConfig)
    (owner : φ → σ) (s : SlotState σ φ ε) (hs : (slotSystem ε cfg owner).Reachable s) :
    (∃ holders : Finset φ, (∀ f, f ∈ holders ↔ s.Occupies f) ∧
      s.adm.slots + holders.card = cfg.maxConcurrency) ∧
    (∀ f, (s.Occupies f → s.acquired f = s.released f + 1) ∧
      (¬ s.Occupies f → s.acquired f = s.released f) ∧ Releases cfg owner s f) ∧
    ∀ x, s.opened owner x ≤ cfg.maxAttempts := by
  have h := counted_of_reachable hs
  refine ⟨h.total, fun f => ⟨h.held f, h.settled f, h.releases⟩, fun x => ?_⟩
  rw [h.budget x]
  exact h.bound x

section Example

open AdmissionState

def oneSlotAct (s : SlotState ℕ ℕ Unit) :
    SlotLabel ℕ Unit → Option (SlotState ℕ ℕ Unit)
  | .frame f a => s.act oneByOne id f a
  | .grant f => s.grant f
  | .tick elapsed =>
    if 0 ≤ elapsed then
      some { s with adm := { s.adm with now := s.adm.now + elapsed } }
    else none

/-- Three frames wait for one slot. The last is cancelled after the grant; the first
opens an attempt that fails, so that the permit of the second is stale when it resumes. -/
def staleAndCancelled : List (SlotLabel ℕ Unit) :=
  [.frame 0 .begin, .frame 0 .advance, .frame 0 (.pace 0), .tick 1,
    .frame 1 .begin, .frame 1 .advance, .frame 1 (.pace 0), .tick 1,
    .frame 2 .begin, .frame 2 .advance, .frame 2 (.pace 0),
    .grant 2, .frame 2 .cancel, .grant 0, .frame 0 .advance,
    .frame 0 (.report (.failed () none 0 0)), .frame 0 .advance, .frame 0 .close,
    .grant 1, .frame 1 .advance]

theorem oneSlotAct_step (s : SlotState ℕ ℕ Unit) (l : SlotLabel ℕ Unit)
    (t : SlotState ℕ ℕ Unit) (h : oneSlotAct s l = some t) :
    ∃ l, (slotSystem Unit oneByOne id).step s l t := by
  refine ⟨l, ?_⟩
  cases l with
  | frame f a => exact h
  | grant f => exact h
  | tick elapsed =>
    simp only [oneSlotAct] at h
    split_ifs at h with helapsed
    cases h
    exact ⟨helapsed, rfl⟩

theorem slots_accounted_sample :
    ∃ s : SlotState ℕ ℕ Unit,
      System.replay oneSlotAct { adm := fresh oneByOne 0 } staleAndCancelled = some s ∧
      [0, 1, 2].map s.acquired = [1, 1, 1] ∧ [0, 1, 2].map s.released = [1, 1, 1] ∧
      s.openings = [0] ∧ (∀ f, Releases oneByOne id s f) ∧
      s.opened id 0 ≤ oneByOne.maxAttempts := by
  have hrun : (System.replay oneSlotAct { adm := fresh oneByOne 0 } staleAndCancelled).map
      (fun s => ([0, 1, 2].map s.acquired, [0, 1, 2].map s.released, s.openings)) =
        some ([1, 1, 1], [1, 1, 1], [0]) := by decide +kernel
  obtain ⟨s, hs, hcounts⟩ := Option.map_eq_some_iff.mp hrun
  simp only [Prod.mk.injEq] at hcounts
  obtain ⟨hacquired, hreleased, hopenings⟩ := hcounts
  have hreach : (slotSystem Unit oneByOne id).Reachable s :=
    System.Reachable.replay oneSlotAct_step (.start ⟨0, rfl⟩) hs
  obtain ⟨-, hslots, hbudget⟩ := slots_accounted oneByOne id s hreach
  exact ⟨s, hs, hacquired, hreleased, hopenings, fun f => (hslots f).2.2, hbudget 0⟩

end Example

end Switchboard.Providers
