import Switchboard.Providers.GateEffect
import Switchboard.Providers.RateWindow

/-!
# The failure of an exhausted recovery episode

A session serves one logical execution, which makes one call at a time. When the leader
of an episode has no attempt left, the failure is attached to every session that waits
on the episode and stays with it. Until the episode expires its failure is what the gate
raises; the first caller after that holds the probe of a new generation.
-/

namespace Switchboard.Providers

namespace AdmissionState

variable {σ φ ε : Type} [DecidableEq σ] [DecidableEq φ]

/-! ## One execution for each session -/

/-- What holds between the calls of the executions: `latest` has the frame of the last
call of a session. -/
structure Orderly (owner : φ → σ) (latest : σ → Option φ) (s : AdmissionState σ φ ε) : Prop where
  own : ∀ x g, latest x = some g → owner g = x
  busy : ∀ g, (s.pc g).busy = true → latest (owner g) = some g
  terminal : ∀ e, s.episode = some e → e.terminalUntil ≠ none → e.waiters = ∅ ∧ e.leader = none
  generation : ∀ e, s.episode = some e → e.generation < s.nextGeneration
  coalesced : ∀ g n, s.pc g = .coalesced n → n < s.nextGeneration ∧
    ∀ e, s.episode = some e → e.generation = n → e.terminalUntil = none → owner g ∈ e.waiters
  leader : ∀ e x, s.episode = some e → e.leader = some x → x ∉ e.waiters ∧
    ∀ g p, latest x = some g → (s.pc g).permit? = some p → p.probe = true
  waits : ∀ e x g, s.episode = some e → x ∈ e.waiters → latest x = some g →
    (s.pc g).past = false

section Orderly

variable {cfg : AdmissionConfig} {owner : φ → σ} {latest : σ → Option φ}
  {s t : AdmissionState σ φ ε} {f g : φ} {x : σ} {e e' : RecoveryEpisode σ ε}

omit [DecidableEq σ] [DecidableEq φ] in
theorem Subsides.of_some {o : Option (RecoveryEpisode σ ε)} (h : Subsides o (some e')) :
    ∃ e, o = some e ∧ e'.generation = e.generation ∧ e'.terminalUntil = e.terminalUntil ∧
      e'.lastError = e.lastError ∧ e'.waiters = e.waiters ∧
      (e'.leader = e.leader ∨ e'.leader = none) := by
  cases h with
  | kept hgen hterm herror hwait hlead => exact ⟨_, rfl, hgen, hterm, herror, hwait, hlead⟩

theorem GateEffect.terminal (hE : GateEffect owner s t f) (h : Orderly owner latest s)
    (he' : t.episode = some e') (hterm' : e'.terminalUntil ≠ none) :
    e'.waiters = ∅ ∧ e'.leader = none := by
  cases hE with
  | aside hfail hgen hep =>
    obtain ⟨e, he, -, hterm, -, hwait, hlead⟩ := (he' ▸ hep).of_some
    obtain ⟨hw, hl⟩ := h.terminal e he (hterm ▸ hterm')
    exact ⟨hwait.trans hw, hlead.elim (fun hk => hk.trans hl) id⟩
  | raised error hpc hfail ht =>
    subst ht
    exact h.terminal e' he' hterm'
  | admitted hpc hfail he ht =>
    subst ht
    exact h.terminal e' he' hterm'
  | leads e₀ e₁ c hpc hfail he hterm hlead hsame hc ht =>
    subst ht
    cases he'
    exact absurd (hsame.2.1.trans hterm) hterm'
  | renewed e₀ d hpc hfail he hterm ht =>
    subst ht
    cases he'
    exact absurd rfl hterm'
  | coalesces e₀ hpc hfail he hterm hlead ht =>
    subst ht
    cases he'
    exact absurd hterm hterm'
  | leaves e₀ n hpc he ht =>
    subst ht
    cases he'
    obtain ⟨hw, hl⟩ := h.terminal e₀ he hterm'
    exact ⟨by simp [hw], hl⟩
  | opens p o readyAt error hpc he ht =>
    subst ht
    cases he'
    exact absurd rfl hterm'
  | retries p o e₀ readyAt error hpc he hlead ht =>
    subst ht
    cases he'
    have hl := (h.terminal e₀ he hterm').2
    rw [hl] at hlead
    cases hlead
  | refused p o e₀ hpc he ht =>
    subst ht
    exact h.terminal e' he' hterm'
  | joins p o e₀ hpc he hterm hm ht =>
    subst ht
    cases he'
    exact absurd hterm hterm'
  | flares p o e₀ error d hpc he hnew ht =>
    subst ht
    cases he'
    exact ⟨rfl, rfl⟩
  | exhausts p o e₀ error d hpc he hlead ht =>
    subst ht
    cases he'
    exact ⟨rfl, rfl⟩

/-- Generations only go up, and an episode keeps its own or has the next one. -/
theorem GateEffect.generation (hE : GateEffect owner s t f)
    (he' : t.episode = some e') :
    (∃ e, s.episode = some e ∧ e'.generation = e.generation ∧
      t.nextGeneration = s.nextGeneration) ∨
    e'.generation = s.nextGeneration ∧ t.nextGeneration = s.nextGeneration + 1 := by
  cases hE with
  | aside hfail hgen hep =>
    obtain ⟨e, he, hsame, -⟩ := (he' ▸ hep).of_some
    exact .inl ⟨e, he, hsame, hgen⟩
  | raised error hpc hfail ht | refused p o e₀ hpc he ht | admitted hpc hfail he ht =>
    subst ht
    exact .inl ⟨e', he', rfl, rfl⟩
  | leads e₀ e₁ c hpc hfail he hterm hlead hsame hc ht =>
    subst ht
    cases he'
    exact .inl ⟨e₀, he, hsame.1, rfl⟩
  | renewed e₀ d hpc hfail he hterm ht =>
    subst ht
    cases he'
    exact .inr ⟨rfl, rfl⟩
  | opens p o readyAt error hpc he ht =>
    subst ht
    cases he'
    exact .inr ⟨rfl, rfl⟩
  | flares p o e₀ error d hpc he hnew ht =>
    subst ht
    cases hnew
    cases he'
    exact .inr ⟨rfl, rfl⟩
  | coalesces e₀ hpc hfail he hterm hlead ht =>
    subst ht
    cases he'
    exact .inl ⟨e₀, he, rfl, rfl⟩
  | leaves e₀ n hpc he ht =>
    subst ht
    cases he'
    exact .inl ⟨e₀, he, rfl, rfl⟩
  | retries p o e₀ readyAt error hpc he hlead ht =>
    subst ht
    cases he'
    exact .inl ⟨e₀, he, rfl, rfl⟩
  | joins p o e₀ hpc he hterm hm ht =>
    subst ht
    cases he'
    exact .inl ⟨e₀, he, rfl, rfl⟩
  | exhausts p o e₀ error d hpc he hlead ht =>
    subst ht
    cases he'
    exact .inl ⟨e₀, he, rfl, rfl⟩

/-- A waiter was one before, or its own frame has joined and now waits. -/
theorem GateEffect.waiters (hE : GateEffect owner s t f) (h : Orderly owner latest s)
    (he' : t.episode = some e') (hx : x ∈ e'.waiters) :
    (∃ e, s.episode = some e ∧ x ∈ e.waiters ∧
      (x = owner f → (t.pc f).past = true → (s.pc f).past = true)) ∨
    x = owner f ∧ (s.pc f).busy = true ∧ s.gateFailure x = none ∧ (t.pc f).past = false ∨
    x = owner f ∧ (s.pc f).busy = true ∧ (s.pc f).past = true ∧ (t.pc f).past = false := by
  cases hE with
  | aside hfail hgen hep hcoal hpast =>
    obtain ⟨e, he, -, -, -, hwait, -⟩ := (he' ▸ hep).of_some
    exact .inl ⟨e, he, hwait ▸ hx, fun _ => hpast⟩
  | raised error hpc hfail ht =>
    subst ht
    exact .inl ⟨e', he', hx, by simp [goto, AdmissionPc.past]⟩
  | admitted hpc hfail he ht =>
    subst ht
    exact absurd (he.symm.trans he') (by simp)
  | leads e₀ e₁ c hpc hfail he hterm hlead hsame hc ht =>
    subst ht
    cases he'
    rcases hlead with ⟨-, hw⟩ | ⟨hl, hw⟩
    · rw [hw] at hx
      exact .inl ⟨e₀, he, Finset.mem_of_mem_erase hx,
        fun hxf => absurd hxf (Finset.ne_of_mem_erase hx)⟩
    · rw [hw] at hx
      refine .inl ⟨e₀, he, hx, fun hxf => ?_⟩
      exact absurd (hxf ▸ hx) (h.leader e₀ _ he hl).1
  | renewed e₀ d hpc hfail he hterm ht =>
    subst ht
    cases he'
    exact absurd hx (Finset.notMem_empty _)
  | coalesces e₀ hpc hfail he hterm hlead ht =>
    subst ht
    cases he'
    rcases Finset.mem_insert.mp hx with rfl | hx
    · exact .inr (.inl ⟨rfl, by rw [hpc]; rfl, hfail, by simp [goto, AdmissionPc.past]⟩)
    · exact .inl ⟨e₀, he, hx, by simp [goto, AdmissionPc.past]⟩
  | leaves e₀ n hpc he ht =>
    subst ht
    cases he'
    exact .inl ⟨e₀, he, Finset.mem_of_mem_erase hx, by simp [goto, AdmissionPc.past]⟩
  | opens p o readyAt error hpc he ht =>
    subst ht
    cases he'
    exact absurd hx (Finset.notMem_empty _)
  | retries p o e₀ readyAt error hpc he hlead ht =>
    subst ht
    cases he'
    exact .inl ⟨e₀, he, hx, by simp [goto, AdmissionPc.past]⟩
  | refused p o e₀ hpc he ht =>
    subst ht
    exact .inl ⟨e', he', hx, by simp [goto, AdmissionPc.past]⟩
  | joins p o e₀ hpc he hterm hm ht =>
    subst ht
    cases he'
    rcases Finset.mem_insert.mp hx with rfl | hx
    · exact .inr (.inr ⟨rfl, by rw [hpc]; rfl, by rw [hpc]; rfl, by simp [goto, AdmissionPc.past]⟩)
    · exact .inl ⟨e₀, he, hx, by simp [goto, AdmissionPc.past]⟩
  | flares p o e₀ error d hpc he hnew ht =>
    subst ht
    cases he'
    exact absurd hx (Finset.notMem_empty _)
  | exhausts p o e₀ error d hpc he hlead ht =>
    subst ht
    cases he'
    exact absurd hx (Finset.notMem_empty _)

omit [DecidableEq φ] in
/-- The frame that reports for the leader of the open episode holds its probe. -/
theorem Orderly.matches (h : Orderly owner latest s) (hg : Gated owner s) {p : GatePermit}
    {o : AttemptOutcome ε} (hpc : s.pc f = .reporting p o) (he : s.episode = some e)
    (hlead : e.leader = some (owner f)) : s.matchingProbe (owner f) p = some e := by
  have hlatest : latest (owner f) = some f := h.busy f (by rw [hpc]; rfl)
  have hperm : (s.pc f).permit? = some p := by rw [hpc]; rfl
  have hprobe := (h.leader e _ he hlead).2 f p hlatest hperm
  obtain ⟨e₁, he₁, hgen, -, hl, hactive⟩ :=
    (permitIsCurrent_probe hprobe).mp (hg.current f p hperm hprobe)
  obtain rfl := Option.some.inj (he.symm.trans he₁)
  exact matchingProbe_eq_some.mpr ⟨he, hprobe, hgen, hl, hactive⟩

/-- A leader led before, or its own frame has taken the lead. -/
theorem GateEffect.leader (hE : GateEffect owner s t f) (h : Orderly owner latest s)
    (hg : Gated owner s) (he' : t.episode = some e') (hlead' : e'.leader = some x) :
    x ∉ e'.waiters ∧
      ((∃ e, s.episode = some e ∧ e.leader = some x ∧
          ∀ p, (t.pc f).permit? = some p → (s.pc f).permit? = some p ∨ p.probe = true) ∨
        x = owner f ∧ (s.pc f).busy = true ∧
          ∀ p, (t.pc f).permit? = some p → p.probe = true) := by
  cases hE with
  | aside hfail hgen hep hcoal hpast hperm =>
    obtain ⟨e, he, -, -, -, hwait, hlead⟩ := (he' ▸ hep).of_some
    rcases hlead with hlead | hlead
    · rw [hlead] at hlead'
      exact ⟨hwait ▸ (h.leader e x he hlead').1, .inl ⟨e, he, hlead', hperm⟩⟩
    · rw [hlead] at hlead'
      cases hlead'
  | raised error hpc hfail ht =>
    subst ht
    exact ⟨(h.leader e' x he' hlead').1,
      .inl ⟨e', he', hlead', by simp [goto, AdmissionPc.permit?]⟩⟩
  | admitted hpc hfail he ht =>
    subst ht
    exact absurd (he.symm.trans he') (by simp)
  | leads e₀ e₁ c hpc hfail he hterm hlead hsame hc ht =>
    subst ht
    cases he'
    obtain rfl := Option.some.inj (hsame.2.2.2.symm.trans hlead')
    refine ⟨?_, .inr ⟨rfl, by rw [hpc]; rfl, fun p hp => hc.2 p ?_⟩⟩
    · rcases hlead with ⟨-, hw⟩ | ⟨hl, hw⟩
      · simp [hw]
      · rw [hw]
        exact (h.leader e₀ _ he hl).1
    · simpa [goto] using hp
  | renewed e₀ d hpc hfail he hterm ht =>
    subst ht
    cases he'
    obtain rfl := Option.some.inj hlead'
    exact ⟨Finset.notMem_empty _,
      .inr ⟨rfl, by rw [hpc]; rfl, by simp [goto, AdmissionPc.permit?]⟩⟩
  | coalesces e₀ hpc hfail he hterm hlead ht =>
    subst ht
    cases he'
    refine ⟨fun hx => ?_, .inl ⟨e₀, he, hlead', by simp [goto, AdmissionPc.permit?]⟩⟩
    rcases Finset.mem_insert.mp hx with rfl | hx
    · exact hlead hlead'
    · exact (h.leader e₀ x he hlead').1 hx
  | leaves e₀ n hpc he ht =>
    subst ht
    cases he'
    refine ⟨fun hx => ?_, .inl ⟨e₀, he, hlead', by simp [goto, AdmissionPc.permit?]⟩⟩
    exact (h.leader e₀ x he hlead').1 (Finset.mem_of_mem_erase hx)
  | opens p o readyAt error hpc he ht =>
    subst ht
    cases he'
    obtain rfl := Option.some.inj hlead'
    exact ⟨Finset.notMem_empty _,
      .inr ⟨rfl, by rw [hpc]; rfl, by simp [goto, AdmissionPc.permit?]⟩⟩
  | retries p o e₀ readyAt error hpc he hlead ht =>
    subst ht
    cases he'
    exact ⟨(h.leader e₀ x he hlead').1,
      .inl ⟨e₀, he, hlead', by simp [goto, AdmissionPc.permit?]⟩⟩
  | refused p o e₀ hpc he ht =>
    subst ht
    exact ⟨(h.leader e' x he' hlead').1,
      .inl ⟨e', he', hlead', by simp [goto, AdmissionPc.permit?]⟩⟩
  | joins p o e₀ hpc he hterm hm ht =>
    subst ht
    cases he'
    refine ⟨fun hx => ?_, .inl ⟨e₀, he, hlead', by simp [goto, AdmissionPc.permit?]⟩⟩
    rcases Finset.mem_insert.mp hx with rfl | hx
    · rw [h.matches hg hpc he hlead'] at hm
      cases hm
    · exact (h.leader e₀ x he hlead').1 hx
  | flares p o e₀ error d hpc he hnew ht =>
    subst ht
    cases he'
    cases hlead'
  | exhausts p o e₀ error d hpc he hlead ht =>
    subst ht
    cases he'
    cases hlead'

/-- A waiter of an episode that goes on stays one, or its own frame is no longer at the
gate. -/
theorem GateEffect.stays (hE : GateEffect owner s t f) (h : Orderly owner latest s)
    (he : s.episode = some e) (he' : t.episode = some e') (hgen : e'.generation = e.generation)
    (hterm' : e'.terminalUntil = none) (hx : x ∈ e.waiters) :
    x ∈ e'.waiters ∨ x = owner f ∧ (s.pc f).busy = true ∧ ∀ n, t.pc f ≠ .coalesced n := by
  have hnew : e.generation ≠ s.nextGeneration := (h.generation e he).ne
  cases hE with
  | aside hfail hsame hep =>
    obtain ⟨e₀, he₀, -, -, -, hwait, -⟩ := (he' ▸ hep).of_some
    obtain rfl := Option.some.inj (he.symm.trans he₀)
    exact .inl (hwait ▸ hx)
  | raised error hpc hfail ht | refused p o e₀ hpc he₀ ht | admitted hpc hfail he₀ ht =>
    subst ht
    obtain rfl := Option.some.inj (he.symm.trans he')
    exact .inl hx
  | leads e₀ e₁ c hpc hfail he₀ hterm hlead hsame hc ht =>
    subst ht
    cases he'
    obtain rfl := Option.some.inj (he.symm.trans he₀)
    rcases hlead with ⟨-, hw⟩ | ⟨-, hw⟩
    · by_cases hxf : x = owner f
      · exact .inr ⟨hxf, by rw [hpc]; rfl, by simpa [goto] using hc.1⟩
      · exact .inl (hw ▸ Finset.mem_erase.mpr ⟨hxf, hx⟩)
    · exact .inl (hw ▸ hx)
  | renewed e₀ d hpc hfail he₀ hterm ht =>
    subst ht
    cases he'
    exact absurd hgen.symm hnew
  | coalesces e₀ hpc hfail he₀ hterm hlead ht =>
    subst ht
    cases he'
    obtain rfl := Option.some.inj (he.symm.trans he₀)
    exact .inl (Finset.mem_insert_of_mem hx)
  | leaves e₀ n hpc he₀ ht =>
    subst ht
    cases he'
    obtain rfl := Option.some.inj (he.symm.trans he₀)
    by_cases hxf : x = owner f
    · exact .inr ⟨hxf, by rw [hpc]; rfl, by simp [goto]⟩
    · exact .inl (Finset.mem_erase.mpr ⟨hxf, hx⟩)
  | opens p o readyAt error hpc he₀ ht =>
    exact absurd (he.symm.trans he₀) (by simp)
  | retries p o e₀ readyAt error hpc he₀ hlead ht =>
    subst ht
    cases he'
    obtain rfl := Option.some.inj (he.symm.trans he₀)
    exact .inl hx
  | joins p o e₀ hpc he₀ hterm hm ht =>
    subst ht
    cases he'
    obtain rfl := Option.some.inj (he.symm.trans he₀)
    exact .inl (Finset.mem_insert_of_mem hx)
  | flares p o e₀ error d hpc he₀ hstart ht =>
    exact absurd (he.symm.trans he₀) (by simp)
  | exhausts p o e₀ error d hpc he₀ hlead ht =>
    subst ht
    cases he'
    cases hterm'

/-- A failure stays attached, but for the waiters of an episode that is exhausted and for
a session that reports. -/
theorem GateEffect.failure (hE : GateEffect owner s t f) :
    (t.sessions x).terminalError = (s.sessions x).terminalError ∨
      (s.pc f).past = true ∧ (s.pc f).busy = true ∧
        (x = owner f ∨ ∃ e, s.episode = some e ∧ x ∈ e.waiters) := by
  cases hE with
  | aside hfail => exact .inl (hfail x)
  | refused p o e₀ hpc he ht =>
    subst ht
    by_cases hx : x = owner f
    · exact .inr ⟨by rw [hpc]; rfl, by rw [hpc]; rfl, .inl hx⟩
    · exact .inl (by simp [goto, failWaiters, hx])
  | flares p o e₀ error d hpc he hnew ht =>
    subst ht
    cases hnew
    exact .inl (by simp [goto, exhaustEpisode, setEpisode, failWaiters, startRecoveryEpisode])
  | exhausts p o e₀ error d hpc he hlead ht =>
    subst ht
    by_cases hx : x ∈ e₀.waiters
    · exact .inr ⟨by rw [hpc]; rfl, by rw [hpc]; rfl, .inr ⟨e₀, he, hx⟩⟩
    · exact .inl (by simp [goto, exhaustEpisode, setEpisode, failWaiters, hx])
  | raised error hpc hfail ht | admitted hpc hfail he ht
  | leads e₀ e₁ c hpc hfail he hterm hlead hsame hc ht | renewed e₀ d hpc hfail he hterm ht
  | coalesces e₀ hpc hfail he hterm hlead ht
  | leaves e₀ n hpc he ht | opens p o readyAt error hpc he ht
  | retries p o e₀ readyAt error hpc he hlead ht | joins p o e₀ hpc he hterm hm ht =>
    subst ht
    exact .inl rfl

/-- Only a gate round that joins an episode leaves a frame waiting. -/
theorem GateEffect.coalesced (hE : GateEffect owner s t f) {n : ℕ}
    (hc : t.pc f = .coalesced n) : (s.pc f).busy = true ∧
      ∃ e, t.episode = some e ∧ e.generation = n ∧ owner f ∈ e.waiters := by
  cases hE with
  | aside hfail hgen hep hcoal => exact absurd hc (hcoal n)
  | leads e₀ e₁ c hpc hfail he hterm hlead hsame hcoal ht =>
    subst ht
    exact absurd (by simpa [goto] using hc) (hcoal.1 n)
  | coalesces e₀ hpc hfail he hterm hlead ht =>
    subst ht
    have hn : e₀.generation = n := by simpa [goto] using hc
    exact ⟨by rw [hpc]; rfl, _, rfl, hn, Finset.mem_insert_self _ _⟩
  | raised error hpc hfail ht | admitted hpc hfail he ht
  | renewed e₀ d hpc hfail he hterm ht
  | leaves e₀ m hpc he ht | opens p o readyAt error hpc he ht | refused p o e₀ hpc he ht
  | retries p o e₀ readyAt error hpc he hlead ht | joins p o e₀ hpc he hterm hm ht
  | flares p o e₀ error d hpc he hnew ht | exhausts p o e₀ error d hpc he hlead ht =>
    subst ht
    simp [goto] at hc

/-- The actions with which an execution makes a call. -/
def calls : Action ε → Bool
  | .begin | .report _ => true
  | _ => false

theorem busy_act {a : Action ε} (ht : s.act cfg owner f a = some t) (ha : calls a = false)
    (hf : (s.pc f).busy = false) : (t.pc f).busy = false := by
  cases hpc : s.pc f with
  | attempt p r =>
    cases a <;> cases r <;> simp_all [AdmissionState.act, AdmissionState.advance,
      AdmissionState.cancel, calls] <;> subst ht <;>
      simp [goto, AdmissionPc.busy, AdmissionPc.opening]
  | idle | closing | releasing | detached | leaked | ended =>
    cases a <;> simp_all [AdmissionState.act, AdmissionState.advance, AdmissionState.cancel,
      calls] <;> subst ht <;> simp [goto, AdmissionPc.busy, AdmissionPc.opening]
  | _ => simp [hpc, AdmissionPc.busy, AdmissionPc.opening] at hf

theorem GateEffect.next_le (hE : GateEffect owner s t f) :
    s.nextGeneration ≤ t.nextGeneration := by
  cases hE with
  | aside hfail hgen => exact hgen.ge
  | renewed e₀ d hpc hfail he hterm ht | opens p o readyAt error hpc he ht
  | flares p o e₀ error d hpc he hnew ht =>
    subst ht
    exact Nat.le_succ _
  | raised error hpc hfail ht | admitted hpc hfail he ht
  | leads e₀ e₁ c hpc hfail he hterm hlead hsame hc ht | coalesces e₀ hpc hfail he hterm hlead ht
  | leaves e₀ n hpc he ht | retries p o e₀ readyAt error hpc he hlead ht
  | refused p o e₀ hpc he ht | joins p o e₀ hpc he hterm hm ht
  | exhausts p o e₀ error d hpc he hlead ht =>
    subst ht
    exact le_rfl

/-- A terminal episode stays as it is, until a gate round after its expiry replaces it. -/
theorem GateEffect.lasts (hE : GateEffect owner s t f) (h : Orderly owner latest s) {d : ℚ}
    (he : s.episode = some e) (hterm : e.terminalUntil = some d) :
    (∃ e', t.episode = some e' ∧ e'.generation = e.generation ∧ e'.terminalUntil = some d ∧
      e'.lastError = e.lastError) ∨
    d ≤ s.now ∧ s.pc f = .gate ∧ ∃ e', t.episode = some e' ∧ e'.generation = s.nextGeneration := by
  have hclosed := h.terminal e he (by simp [hterm])
  have hsome : ∀ {e₀ : RecoveryEpisode σ ε}, s.episode = some e₀ → e = e₀ := fun he₀ =>
    Option.some.inj (he.symm.trans he₀)
  cases hE with
  | aside hfail hgen hep =>
    generalize t.episode = o at hep
    rw [he] at hep
    cases hep with
    | closed hlead => exact absurd hclosed.2 hlead
    | kept hgen hsame herror => exact .inl ⟨_, rfl, hgen, hsame.trans hterm, herror⟩
  | raised error hpc hfail ht | refused p o e₀ hpc he₀ ht | admitted hpc hfail he₀ ht =>
    subst ht
    exact .inl ⟨e, he, rfl, hterm, rfl⟩
  | leads e₀ e₁ c hpc hfail he₀ hopen =>
    obtain rfl := hsome he₀
    rw [hterm] at hopen
    cases hopen
  | renewed e₀ d₀ hpc hfail he₀ hterm₀ ht =>
    obtain rfl := hsome he₀
    subst ht
    refine .inr ⟨?_, hpc, _, rfl, rfl⟩
    by_contra hlt
    have hs : (s.sessions (owner f)).terminalError = none := by
      cases hs : (s.sessions (owner f)).terminalError with
      | none => rfl
      | some error => simp [gateFailure, hs] at hfail
    simp [gateFailure, hs, he, hterm, not_le.mp hlt] at hfail
  | coalesces e₀ hpc hfail he₀ hopen =>
    obtain rfl := hsome he₀
    rw [hterm] at hopen
    cases hopen
  | leaves e₀ n hpc he₀ ht =>
    obtain rfl := hsome he₀
    subst ht
    exact .inl ⟨_, rfl, rfl, hterm, rfl⟩
  | opens p o readyAt error hpc he₀ =>
    rw [he] at he₀
    cases he₀
  | retries p o e₀ readyAt error hpc he₀ hlead | exhausts p o e₀ error d₀ hpc he₀ hlead =>
    obtain rfl := hsome he₀
    rw [hclosed.2] at hlead
    cases hlead
  | joins p o e₀ hpc he₀ hopen =>
    obtain rfl := hsome he₀
    rw [hterm] at hopen
    cases hopen
  | flares p o e₀ error d₀ hpc he₀ =>
    rw [he] at he₀
    cases he₀

/-- Only the frame of the last call of a session makes a call. -/
theorem Orderly.act {a : Action ε} (h : Orderly owner latest s) (hg : Gated owner s)
    (ht : s.act cfg owner f a = some t)
    (hcall : calls a = true → latest (owner f) = some f) : Orderly owner latest t := by
  have hE := act_effect ht
  have hm := moves_act ht
  have hlatest : (s.pc f).busy = true → latest (owner f) = some f := h.busy f
  refine ⟨h.own, fun g hb => ?_, fun e' he' => hE.terminal h he', fun e' he' => ?_,
    fun g n hc => ?_, fun e' x he' hlead' => ?_, fun e' x g he' hx hl => ?_⟩
  · by_cases hgf : g = f
    · subst hgf
      by_cases hs : (s.pc g).busy = true
      · exact h.busy g hs
      · by_cases ha : calls a = true
        · exact hcall ha
        · simp [busy_act ht (Bool.eq_false_iff.mpr ha) (Bool.eq_false_iff.mpr hs)] at hb
    · exact h.busy g (hm g hgf ▸ hb)
  · rcases hE.generation he' with ⟨e, he, hgen, hnext⟩ | ⟨hgen, hnext⟩
    · rw [hgen, hnext]
      exact h.generation e he
    · omega
  · have hgeneration : ∀ e', t.episode = some e' → e'.generation < t.nextGeneration := by
      intro e' he'
      rcases hE.generation he' with ⟨e, he, hgen, hnext⟩ | ⟨hgen, hnext⟩
      · rw [hgen, hnext]
        exact h.generation e he
      · omega
    by_cases hgf : g = f
    · subst hgf
      obtain ⟨-, e, he, rfl, hmem⟩ := hE.coalesced hc
      refine ⟨hgeneration e he, fun e' he' _ _ => ?_⟩
      obtain rfl := Option.some.inj (he.symm.trans he')
      exact hmem
    · rw [hm g hgf] at hc
      obtain ⟨hn, hmem⟩ := h.coalesced g n hc
      refine ⟨hn.trans_le hE.next_le, fun e' he' hgen' hterm' => ?_⟩
      rcases hE.generation he' with ⟨e, he, hgen, -⟩ | ⟨hgen, -⟩
      · have hterm : e.terminalUntil = none := by
          cases hterm : e.terminalUntil with
          | none => rfl
          | some d =>
            rcases hE.lasts h he hterm with ⟨e₁, he₁, -, hterm₁, -⟩ | ⟨-, -, e₁, he₁, hgen₁⟩
            · obtain rfl := Option.some.inj (he'.symm.trans he₁)
              rw [hterm'] at hterm₁
              cases hterm₁
            · obtain rfl := Option.some.inj (he'.symm.trans he₁)
              omega
        rcases hE.stays h he he' hgen hterm' (hmem e he (by omega) hterm) with hx | ⟨hx, hb, -⟩
        · exact hx
        · have hg := h.busy g (by rw [hc]; rfl)
          rw [hx, hlatest hb] at hg
          exact absurd (Option.some.inj hg).symm hgf
      · omega
  · obtain ⟨hnot, hbefore⟩ := hE.leader h hg he' hlead'
    refine ⟨hnot, fun g p hl hp => ?_⟩
    rcases hbefore with ⟨e, he, hlead, hperm⟩ | ⟨hxf, hb, hperm⟩
    · have hprobe := (h.leader e x he hlead).2 g p hl
      by_cases hgf : g = f
      · subst hgf
        exact (hperm p hp).elim hprobe id
      · exact hprobe (hm g hgf ▸ hp)
    · rw [hxf, hlatest hb] at hl
      obtain rfl := Option.some.inj hl
      exact hperm p hp
  · have hown : ∀ {y}, y = owner f → (s.pc f).busy = true → (t.pc f).past = false →
        latest y = some g → (t.pc g).past = false := by
      intro y hy hb hpast hl
      rw [hy, hlatest hb] at hl
      obtain rfl := Option.some.inj hl
      exact hpast
    rcases hE.waiters h he' hx with ⟨e, he, hx, hpast⟩ | ⟨hxf, hb, -, hpast⟩ | ⟨hxf, hb, -, hpast⟩
    · have hwaits := h.waits e x g he hx hl
      by_cases hgf : g = f
      · subst hgf
        by_contra hp
        rw [hpast (h.own x g hl).symm (Bool.eq_true_of_not_eq_false hp)] at hwaits
        cases hwaits
      · rwa [hm g hgf]
    · exact hown hxf hb hpast hl
    · exact hown hxf hb hpast hl

omit [DecidableEq φ] in
/-- A new call of `open_attempt` begins once the last one is over. -/
theorem Orderly.call (h : Orderly owner latest s) (hf : s.pc f = .idle)
    (hover : ∀ g, latest (owner f) = some g → (s.pc g).busy = false) :
    Orderly owner (Function.update latest (owner f) (some f)) s := by
  have hlast : ∀ {x g}, Function.update latest (owner f) (some f) x = some g →
      x = owner f ∧ g = f ∨ x ≠ owner f ∧ latest x = some g := by
    intro x g hl
    by_cases hx : x = owner f
    · subst hx
      simp only [Function.update_self, Option.some.injEq] at hl
      exact .inl ⟨rfl, hl.symm⟩
    · rw [Function.update_of_ne hx] at hl
      exact .inr ⟨hx, hl⟩
  refine ⟨fun x g hl => ?_, fun g hb => ?_, h.terminal, h.generation, h.coalesced,
    fun e x he hlead => ⟨(h.leader e x he hlead).1, fun g p hl hp => ?_⟩,
    fun e x g he hx hl => ?_⟩
  · rcases hlast hl with ⟨rfl, rfl⟩ | ⟨-, hl⟩
    · rfl
    · exact h.own x g hl
  · have hg := h.busy g hb
    by_cases hx : owner g = owner f
    · rw [hover g (hx ▸ hg)] at hb
      cases hb
    · rwa [Function.update_of_ne hx]
  · rcases hlast hl with ⟨-, rfl⟩ | ⟨-, hl⟩
    · simp [hf, AdmissionPc.permit?] at hp
    · exact (h.leader e x he hlead).2 g p hl hp
  · rcases hlast hl with ⟨-, rfl⟩ | ⟨-, hl⟩
    · rw [hf]
      rfl
    · exact h.waits e x g he hx hl

/-! ## A session that was failed -/

/-- The failure is attached to the session, which waits on no episode and has not come
past the gate. -/
structure Doomed (latest : σ → Option φ) (s : AdmissionState σ φ ε) (x : σ) (error : ε) :
    Prop where
  failure : (s.sessions x).terminalError = some error
  apart : ∀ e, s.episode = some e → x ∉ e.waiters
  stopped : ∀ g, latest x = some g → (s.pc g).past = false

theorem GateEffect.past (hE : GateEffect owner s t f) (hp : (t.pc f).past = true) :
    (s.pc f).past = true ∨ s.gateFailure (owner f) = none := by
  cases hE with
  | aside hfail hgen hep hcoal hpast => exact .inl (hpast hp)
  | admitted hpc hfail | leads e₀ e₁ c hpc hfail | renewed e₀ d hpc hfail
  | coalesces e₀ hpc hfail => exact .inr hfail
  | leaves e₀ n hpc he ht =>
    subst ht
    simp [goto, AdmissionPc.past] at hp
  | raised error hpc hfail ht =>
    subst ht
    simp [goto, AdmissionPc.past] at hp
  | opens p o readyAt error hpc | retries p o e₀ readyAt error hpc | refused p o e₀ hpc
  | joins p o e₀ hpc | flares p o e₀ error d hpc | exhausts p o e₀ error d hpc =>
    exact .inl (by rw [hpc]; rfl)

omit [DecidableEq σ] [DecidableEq φ] in
theorem Doomed.gateFailure {error : ε} (hd : Doomed latest s x error) :
    s.gateFailure x = some error := by
  simp [AdmissionState.gateFailure, hd.failure]

/-- The step lemma: whatever happens to the controller, the failure stays. -/
theorem Doomed.act {a : Action ε} {error : ε} (hd : Doomed latest s x error)
    (h : Orderly owner latest s) (ht : s.act cfg owner f a = some t) :
    Doomed latest t x error := by
  have hE := act_effect ht
  have hm := moves_act ht
  have hstopped : x = owner f → (s.pc f).busy = true → (s.pc f).past = false := fun hx hb =>
    hd.stopped f (hx ▸ h.busy f hb)
  refine ⟨?_, fun e he hx => ?_, fun g hl => ?_⟩
  · rcases hE.failure (x := x) with hsame | ⟨hp, hb, hx | ⟨e, he, hx⟩⟩
    · exact hsame.trans hd.failure
    · rw [hstopped hx hb] at hp
      cases hp
    · exact absurd hx (hd.apart e he)
  · rcases hE.waiters h he hx with ⟨e₀, he₀, hx, -⟩ | ⟨-, -, hfail, -⟩ | ⟨hx, hb, hp, -⟩
    · exact hd.apart e₀ he₀ hx
    · rw [hd.gateFailure] at hfail
      cases hfail
    · rw [hstopped hx hb] at hp
      cases hp
  · by_cases hgf : g = f
    · subst hgf
      by_contra hp
      rcases hE.past (Bool.eq_true_of_not_eq_false hp) with hp | hfail
      · rw [hd.stopped g hl] at hp
        cases hp
      · rw [h.own x g hl, hd.gateFailure] at hfail
        cases hfail
    · rw [hm g hgf]
      exact hd.stopped g hl

omit [DecidableEq φ] in
theorem Doomed.call {error : ε} (hd : Doomed latest s x error)
    (hf : s.pc f = .idle) :
    Doomed (Function.update latest (owner f) (some f)) s x error where
  failure := hd.failure
  apart := hd.apart
  stopped := by
    intro g hl
    by_cases hx : x = owner f
    · subst hx
      simp only [Function.update_self, Option.some.injEq] at hl
      rw [← hl, hf]
      rfl
    · rw [Function.update_of_ne hx] at hl
      exact hd.stopped g hl

/-- When an episode becomes terminal, its waiters are failed with its error. -/
theorem GateEffect.dooms (hE : GateEffect owner s t f) (hm : Moves s t f)
    (h : Orderly owner latest s) (he : s.episode = some e) (hterm : e.terminalUntil = none)
    (he' : t.episode = some e') (hterm' : e'.terminalUntil ≠ none) :
    e'.generation = e.generation ∧ ∀ x ∈ e.waiters, Doomed latest t x e'.lastError := by
  have hsome : ∀ {e₀ : RecoveryEpisode σ ε}, s.episode = some e₀ → e = e₀ := fun he₀ =>
    Option.some.inj (he.symm.trans he₀)
  cases hE with
  | aside hfail hgen hep =>
    obtain ⟨e₀, he₀, -, hsame, -⟩ := (he' ▸ hep).of_some
    obtain rfl := hsome he₀
    exact absurd (hsame.trans hterm) hterm'
  | raised error hpc hfail ht | refused p o e₀ hpc he₀ ht | admitted hpc hfail he₀ ht =>
    subst ht
    obtain rfl := hsome he'
    exact absurd hterm hterm'
  | leads e₀ e₁ c hpc hfail he₀ hopen hlead hsame hc ht =>
    subst ht
    cases he'
    exact absurd (hsame.2.1.trans hopen) hterm'
  | renewed e₀ d hpc hfail he₀ hover ht =>
    obtain rfl := hsome he₀
    rw [hterm] at hover
    cases hover
  | coalesces e₀ hpc hfail he₀ hopen hlead ht =>
    subst ht
    cases he'
    exact absurd hopen hterm'
  | leaves e₀ n hpc he₀ ht =>
    subst ht
    cases he'
    obtain rfl := hsome he₀
    exact absurd hterm hterm'
  | opens p o readyAt error hpc he₀ =>
    rw [he] at he₀
    cases he₀
  | retries p o e₀ readyAt error hpc he₀ hlead ht =>
    subst ht
    cases he'
    obtain rfl := hsome he₀
    exact absurd hterm hterm'
  | joins p o e₀ hpc he₀ hopen hm ht =>
    subst ht
    cases he'
    exact absurd hopen hterm'
  | flares p o e₀ error d hpc he₀ =>
    rw [he] at he₀
    cases he₀
  | exhausts p o e₀ error d hpc he₀ hlead ht =>
    subst ht
    cases he'
    obtain rfl := hsome he₀
    refine ⟨rfl, fun x hx => ⟨?_, fun e₁ he₁ => ?_, fun g hl => ?_⟩⟩
    · simp [goto, exhaustEpisode, setEpisode, failWaiters, hx]
    · cases he₁
      exact Finset.notMem_empty x
    · by_cases hgf : g = f
      · subst hgf
        simp [goto, AdmissionPc.past]
      · rw [hm g hgf]
        exact h.waits e x g he hx hl

/-! ## The gate -/

theorem gateRound_raises {error : ε} (hfail : s.gateFailure (owner f) = some error) :
    s.gateRound owner f = s.goto f .ended := by
  unfold AdmissionState.gateRound
  split
  · rfl
  · next hs =>
    simp only [gateFailure, hs] at hfail
    obtain ⟨e, he, hfail⟩ := Option.bind_eq_some_iff.mp hfail
    obtain ⟨d, hterm, hfail⟩ := Option.bind_eq_some_iff.mp hfail
    split_ifs at hfail with hnow
    simp [gateSection, he, hterm, hnow]

theorem joinEpisode_goes : ((s.joinEpisode owner f e).pc f) ≠ .ended := by
  unfold AdmissionState.joinEpisode
  dsimp only
  split_ifs <;> simp [goto]

theorem gateRound_goes (hfail : s.gateFailure (owner f) = none) :
    (s.gateRound owner f).pc f ≠ .ended := by
  unfold AdmissionState.gateRound
  split
  · next error hs => simp [gateFailure, hs] at hfail
  · next hs =>
    unfold AdmissionState.gateSection
    split
    · simp [goto]
    · next e he =>
      split
      · exact joinEpisode_goes
      · next d hterm =>
        have hnow : ¬ s.now < d := by simpa [gateFailure, hs, he, hterm] using hfail
        rw [if_neg hnow]
        exact joinEpisode_goes

/-- The first round after the expiry of an episode. -/
theorem gateRound_renews (hg : Gated owner s) (he : s.episode = some e) {d : ℚ}
    (hterm : e.terminalUntil = some d) (hnow : d ≤ s.now)
    (hs : (s.sessions (owner f)).terminalError = none) :
    (∃ e', (s.gateRound owner f).episode = some e' ∧ e'.generation = s.nextGeneration ∧
      e'.leader = some (owner f) ∧ e'.probeActive = true ∧ e'.terminalUntil = none) ∧
    ∀ g, (s.gateRound owner f).HoldsProbe g ↔ g = f := by
  have hround : s.gateRound owner f =
      ((s.startRecoveryEpisode (some (owner f)) s.now e.lastError).setEpisode
        { generation := s.nextGeneration, leader := some (owner f), readyAt := s.now,
          lastError := e.lastError, probeActive := true }).goto f
            (.limiting ⟨some s.nextGeneration, true⟩) := by
    simp [gateRound, hs, gateSection, he, hterm, hnow.not_gt, startRecoveryEpisode, joinEpisode,
      setEpisode]
  have hheld : (s.gateRound owner f).HoldsProbe f := by
    rw [hround]
    exact ⟨⟨some s.nextGeneration, true⟩, by simp [goto, AdmissionPc.permit?], rfl⟩
  refine ⟨⟨_, by rw [hround]; rfl, rfl, rfl, rfl, rfl⟩, fun g => ⟨fun h => ?_, ?_⟩⟩
  · exact hg.gateRound.unique g f h hheld
  · rintro rfl
    exact hheld

end Orderly

end AdmissionState

/-! ## Runs -/

/-- A controller, and the frame of the last call that the execution of a session made. -/
structure CallerState (σ φ ε : Type) where
  adm : AdmissionState σ φ ε
  latest : σ → Option φ := fun _ => none

namespace CallerState

open AdmissionState

variable {σ φ ε : Type} [DecidableEq σ] [DecidableEq φ]

/-- An execution calls `open_attempt` when its last call is over, and reports the outcome
of the attempt it opened last. -/
def mayCall (owner : φ → σ) (s : CallerState σ φ ε) (f : φ) : Action ε → Bool
  | .begin => (s.latest (owner f)).all fun g => !(s.adm.pc g).busy
  | .report _ => s.latest (owner f) = some f
  | _ => true

def lastCall (owner : φ → σ) (s : CallerState σ φ ε) (f : φ) : Action ε → σ → Option φ
  | .begin => Function.update s.latest (owner f) (some f)
  | _ => s.latest

def act (cfg : AdmissionConfig) (owner : φ → σ) (s : CallerState σ φ ε) (f : φ)
    (a : Action ε) : Option (CallerState σ φ ε) :=
  if s.mayCall owner f a then
    (s.adm.act cfg owner f a).map fun adm => { adm := adm, latest := s.lastCall owner f a }
  else none

end CallerState

/-- Runs of one controller whose sessions serve one logical execution each. -/
def callerSystem {σ φ : Type} (ε : Type) [DecidableEq σ] [DecidableEq φ]
    (cfg : AdmissionConfig) (owner : φ → σ) :
    System (CallerState σ φ ε) (AdmissionState.Label φ ε) where
  init s := ∃ now, s = { adm := .fresh cfg now }
  step s l t := match l with
    | .frame f a => s.act cfg owner f a = some t
    | .tick elapsed =>
      0 ≤ elapsed ∧ t = { s with adm := { s.adm with now := s.adm.now + elapsed } }

namespace CallerState

open AdmissionState

section Runs

variable {σ φ ε : Type} [DecidableEq σ] [DecidableEq φ] {cfg : AdmissionConfig} {owner : φ → σ}
  {s t u : CallerState σ φ ε} {f g : φ} {x : σ} {a : Action ε} {e e' : RecoveryEpisode σ ε}

/-- The state of the controller after a step, and the order between the calls that holds
before it. -/
theorem act_orderly (h : Orderly owner s.latest s.adm) (ht : s.act cfg owner f a = some t) :
    s.adm.act cfg owner f a = some t.adm ∧ Orderly owner t.latest s.adm ∧
      (calls a = true → t.latest (owner f) = some f) ∧
      ∀ y error, Doomed s.latest s.adm y error → Doomed t.latest s.adm y error := by
  unfold CallerState.act at ht
  split_ifs at ht with hmay
  obtain ⟨adm, hact, rfl⟩ := Option.map_eq_some_iff.mp ht
  refine ⟨hact, ?_⟩
  cases a with
  | begin =>
    have hidle : s.adm.pc f = .idle := by
      simp only [AdmissionState.act] at hact
      split at hact
      · assumption
      · cases hact
    have hover : ∀ g, s.latest (owner f) = some g → (s.adm.pc g).busy = false := by
      intro g hg
      simpa [mayCall, hg] using hmay
    exact ⟨h.call hidle hover, fun _ => Function.update_self _ _ _, fun y error hd => hd.call hidle⟩
  | report r => exact ⟨h, fun _ => by simpa [mayCall, lastCall] using hmay, fun _ _ hd => hd⟩
  | advance | pace | wake | close | cancel => 
    exact ⟨h, by simp [calls], fun _ _ hd => hd⟩

theorem reachable_adm (hs : (callerSystem ε cfg owner).Reachable s) :
    (admissionSystem ε cfg owner).Reachable s.adm := by
  refine System.Reachable.invariant (P := fun s => (admissionSystem ε cfg owner).Reachable s.adm)
    ?_ ?_ hs
  · rintro _ ⟨now, rfl⟩
    exact .start ⟨now, rfl⟩
  · intro s l t _ h hst
    cases l with
    | frame f a =>
      simp only [callerSystem, CallerState.act] at hst
      split_ifs at hst
      obtain ⟨adm, hact, rfl⟩ := Option.map_eq_some_iff.mp hst
      exact h.next (l := .frame f a) hact
    | tick elapsed =>
      obtain ⟨helapsed, rfl⟩ := hst
      exact h.next (l := .tick elapsed) ⟨helapsed, rfl⟩

omit [DecidableEq σ] [DecidableEq φ] in
theorem orderly_tick {latest : σ → Option φ} {s : AdmissionState σ φ ε} {now : ℚ}
    (h : Orderly owner latest s) : Orderly owner latest { s with now := now } :=
  ⟨h.own, h.busy, h.terminal, h.generation, h.coalesced, h.leader, h.waits⟩

theorem orderly_of_reachable (hs : (callerSystem ε cfg owner).Reachable s) :
    Orderly owner s.latest s.adm := by
  refine System.Reachable.invariant (P := fun s => Orderly owner s.latest s.adm) ?_ ?_ hs
  · rintro _ ⟨now, rfl⟩
    refine ⟨?_, ?_, ?_, ?_, ?_, ?_, ?_⟩ <;> simp [fresh, AdmissionPc.busy, AdmissionPc.opening]
  · intro s l t hr h hst
    cases l with
    | frame f a =>
      obtain ⟨hact, h', hcall, -⟩ := act_orderly h hst
      exact h'.act (gated_of_reachable (reachable_adm hr)) hact hcall
    | tick elapsed =>
      obtain ⟨-, rfl⟩ := hst
      exact orderly_tick h

/-- The run lemma: a session that was failed stays so. -/
theorem doomed_run {error : ε} {ls : List (AdmissionState.Label φ ε)}
    (hs : (callerSystem ε cfg owner).Reachable s) (hd : Doomed s.latest s.adm x error)
    (hrun : (callerSystem ε cfg owner).Run s ls u) : Doomed u.latest u.adm x error := by
  induction hrun with
  | nil => exact hd
  | @cons s l t ls u hst _ ih =>
    refine ih (hs.next hst) ?_
    cases l with
    | frame f a =>
      obtain ⟨hact, h', -, hd'⟩ := act_orderly (orderly_of_reachable hs) hst
      exact (hd' x error hd).act h' hact
    | tick elapsed =>
      obtain ⟨-, rfl⟩ := hst
      exact ⟨hd.failure, hd.apart, hd.stopped⟩

theorem act_now (ht : s.act cfg owner f a = some t) : s.adm.now ≤ t.adm.now := by
  unfold CallerState.act at ht
  split_ifs at ht
  obtain ⟨adm, hact, rfl⟩ := Option.map_eq_some_iff.mp ht
  rcases act_paced hact with ⟨-, hnow, -⟩ | hpasses
  · exact hnow.ge
  · exact hpasses.now

theorem now_step {l : AdmissionState.Label φ ε} (hst : (callerSystem ε cfg owner).step s l t) :
    s.adm.now ≤ t.adm.now := by
  cases l with
  | frame f a => exact act_now hst
  | tick elapsed =>
    obtain ⟨helapsed, rfl⟩ := hst
    exact le_add_of_nonneg_right helapsed

theorem now_run {ls : List (AdmissionState.Label φ ε)}
    (hrun : (callerSystem ε cfg owner).Run s ls u) : s.adm.now ≤ u.adm.now := by
  induction hrun with
  | nil => exact le_rfl
  | cons hst _ ih => exact (now_step hst).trans ih

/-- The run lemma: a terminal episode stays until it expires. -/
theorem terminal_run {d : ℚ} {ls : List (AdmissionState.Label φ ε)}
    (hs : (callerSystem ε cfg owner).Reachable s) (he : s.adm.episode = some e)
    (hterm : e.terminalUntil = some d) (hrun : (callerSystem ε cfg owner).Run s ls u)
    (hu : u.adm.now < d) : ∃ e', u.adm.episode = some e' ∧
      e'.generation = e.generation ∧ e'.terminalUntil = some d ∧ e'.lastError = e.lastError := by
  induction hrun generalizing e with
  | nil => exact ⟨e, he, rfl, hterm, rfl⟩
  | @cons s l t ls u hst hrest ih =>
    have hnow : s.adm.now < d := ((now_step hst).trans (now_run hrest)).trans_lt hu
    have hnext : ∃ e', t.adm.episode = some e' ∧ e'.generation = e.generation ∧
        e'.terminalUntil = some d ∧ e'.lastError = e.lastError := by
      cases l with
      | frame f a =>
        obtain ⟨hact, h, -⟩ := act_orderly (orderly_of_reachable hs) hst
        rcases (act_effect hact).lasts h he hterm with hlasts | ⟨hover, -⟩
        · exact hlasts
        · exact absurd hover hnow.not_ge
      | tick elapsed =>
        obtain ⟨-, rfl⟩ := hst
        exact ⟨e, he, rfl, hterm, rfl⟩
    obtain ⟨e₁, he₁, hgen₁, hterm₁, herror₁⟩ := hnext
    obtain ⟨e', he', hgen', hterm', herror'⟩ := ih (hs.next hst) he₁ hterm₁ hu
    exact ⟨e', he', hgen'.trans hgen₁, hterm', herror'.trans herror₁⟩

theorem advance_gate (hst : s.act cfg owner f .advance = some t) (hpc : s.adm.pc f = .gate) :
    t.adm = s.adm.gateRound owner f := by
  simp only [CallerState.act, mayCall, if_true, AdmissionState.act, AdmissionState.advance, hpc,
    Option.map_some, Option.some.injEq] at hst
  rw [← hst]

end Runs

end CallerState

open AdmissionState CallerState

section Example

/-- The fourth frame is a second call of the first session. -/
def sampleOwner (f : ℕ) : ℕ := if f = 3 then 0 else f

def callerAct (s : CallerState ℕ ℕ ℕ) :
    AdmissionState.Label ℕ ℕ → Option (CallerState ℕ ℕ ℕ)
  | .frame f a => s.act sampleConfig sampleOwner f a
  | .tick elapsed =>
    if 0 ≤ elapsed then
      some { s with adm := { s.adm with now := s.adm.now + elapsed } }
    else none

theorem callerAct_step (s : CallerState ℕ ℕ ℕ) (l : AdmissionState.Label ℕ ℕ)
    (t : CallerState ℕ ℕ ℕ) (h : callerAct s l = some t) :
    (callerSystem ℕ sampleConfig sampleOwner).step s l t := by
  cases l with
  | frame f a => exact h
  | tick elapsed =>
    simp only [callerAct] at h
    split_ifs at h with helapsed
    cases h
    exact ⟨helapsed, rfl⟩

/-- The first session fails and leads, the second waits; the probe fails as well, and the
session that sent it has no attempt left. -/
def failedProbe : List (AdmissionState.Label ℕ ℕ) :=
  [.frame 0 .begin, .frame 0 .advance, .frame 0 (.pace 0), .frame 0 .advance,
    .frame 0 (.report (.failed 6 none 0 0)), .frame 0 .advance, .frame 0 .close,
    .frame 1 .begin, .frame 1 .advance,
    .frame 3 .begin, .frame 3 .advance, .tick 1, .frame 3 .advance, .frame 3 (.pace 0),
    .frame 3 .advance, .frame 3 (.report (.failed 7 none 0 0))]

/-- Before the second session wakes, the episode expires and the third session starts a
new generation. -/
def lateWake : List (AdmissionState.Label ℕ ℕ) :=
  [.tick 1, .frame 2 .begin, .frame 2 .advance, .frame 1 .wake]

end Example

end Switchboard.Providers
