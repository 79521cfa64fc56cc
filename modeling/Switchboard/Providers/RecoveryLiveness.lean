import Switchboard.Providers.Executions
import Switchboard.Providers.Leadership

/-!
# Nobody waits on a dead leader

An execution that ends by itself has passed the lead on, closed the episode or made
it terminal. An exception delivered at some of its awaits ends it without doing so;
`Safe` names the deliveries that hand the lead over. `ExecOk` ties the point of an
execution to what its frame owes while the session leads.
-/

namespace Switchboard.Providers

open AdmissionState

/-- The frame an execution is at. -/
def ExecutionPoint.frame? {φ : Type} : ExecutionPoint φ → Option φ
  | .opening f | .unwinding f | .serving f | .reporting f _ | .cleaning f _ | .closing f _ => some f
  | .preparing | .recovering | .ended => none

namespace ProviderState

variable {σ φ ε : Type}

/-- A leader gives the lead back when an exception is delivered at its await. -/
def handsOver (s : ProviderState σ φ ε) (x : σ) (cancelled : Bool) : Bool :=
  match (s.exec x).point with
  | .opening f => match s.adm.pc f with
    | .gate | .parked | .abandoningPermit _ false => false
    | _ => true
  | .serving _ | .reporting .. => true
  | .cleaning .. => !cancelled && (s.exec x).swallowsClose
  | .preparing | .unwinding _ | .closing .. | .recovering | .ended => false

/-- The steps after which no leader is dead: exceptions reach a leader only where it
hands the lead over, and one that leads retries only while an attempt is left. -/
def Safe (cfg : AdmissionConfig) [DecidableEq σ] (s : ProviderState σ φ ε) : Label σ φ ε → Prop
  | .exec x (.interrupt cancelled) => s.adm.Leads x → s.handsOver x cancelled = true
  | .exec x .correct => s.adm.Leads x → s.adm.canAttempt cfg x = true
  | .exec x (.failOutside streamRetryable) =>
    s.adm.Leads x → (s.exec x).committed = false ∧ streamRetryable = true
  | _ => True

end ProviderState

open ProviderState

section Verdict

variable {φ : Type} {e : Execution φ} {failure : AttemptFailure} {n : ℕ}

theorem decide_midstream {d : StreamFailure} {committed hasBuffered : Bool}
    (h : (d.decide committed hasBuffered).action = .midstreamRecovery) :
    d.generatedOutput = true := by
  unfold StreamFailure.decide at h
  dsimp only at h
  split_ifs at h with h₁ h₂
  simp only [Bool.and_eq_true] at h₂
  exact h₂.1.2

/-- Only a chat stream that has generated output is recovered. -/
theorem Execution.verdict_recover {reported : Option (Bool × Bool)}
    (h : e.verdict failure n reported = .recover) : failure.generatedOutput = true := by
  unfold Execution.verdict at h
  dsimp only at h
  split at h
  · next hkind =>
    simp only [hkind, if_true] at h
    split_ifs at h
    split at h
    · cases h
    · next hact => exact decide_midstream hact
    · cases h
  · split_ifs at h
  · split_ifs at h
  · split_ifs at h

/-- A failure for which `attempt.retry` asked to retry is retried. -/
theorem Execution.verdict_again {streamRetryable : Bool} (hreports : e.reportsFailure = true)
    (hn : 0 < n) :
    e.verdict ⟨true, streamRetryable, false, false⟩ n (some (true, true)) = .again := by
  have hn' : decide (0 < n) = true := by simpa using hn
  unfold Execution.verdict
  unfold Execution.reportsFailure at hreports
  dsimp only at hreports ⊢
  split
  · next hkind =>
    simp only [hkind] at hreports
    cases hopened : e.streamOpened with
    | false => simp
    | true =>
      cases houter : e.outer with
      | some m => simp [hn']
      | none =>
        simp only [hopened, houter, Bool.not_true, Bool.false_or, Option.isSome_none,
          Bool.and_eq_true, Bool.not_eq_true'] at hreports
        simp [StreamFailure.decide, hkind, hreports.2, hn']
  · next hkind =>
    simp only [hkind, Bool.and_eq_true, Bool.not_eq_true'] at hreports
    simp only [StreamFailure.decide, hkind, hreports.2]
    cases e.streamOpened <;> simp [hn']
  · next hkind =>
    simp only [hkind, Bool.and_eq_true, Bool.not_eq_true'] at hreports
    simp only [StreamFailure.decide, hkind, hreports.2]
    cases e.streamOpened <;> simp [hn']
  · simp

end Verdict

section Invariant

variable {σ φ ε : Type} [DecidableEq σ] [DecidableEq φ] {cfg : AdmissionConfig} {owner : φ → σ}
  {s t : AdmissionState σ φ ε} {x : σ} {f g : φ} {e e' : Execution φ} {p : GatePermit}

/-- The session has an attempt left, and its execution will ask for it. -/
def GoesOn (cfg : AdmissionConfig) (s : AdmissionState σ φ ε) (x : σ) (e : Execution φ)
    (next : Resumption) : Prop :=
  s.canAttempt cfg x = true ∧
    (next = .corrected ∨ ∃ r, next = .retried true r true ∧ e.reportsFailure = true)

/-- What holds of the session and its frame at a point of its execution. -/
inductive PointOk (cfg : AdmissionConfig) (owner : φ → σ) (s : AdmissionState σ φ ε) (x : σ)
    (e : Execution φ) : ExecutionPoint φ → Prop
  | preparing (hacc : e.accepted = false) (hcan : s.Leads x → s.canAttempt cfg x = true) :
    PointOk cfg owner s x e .preparing
  | opening {f : φ} (hf : owner f = x) (hacc : e.accepted = false) (hgate : s.InGate x f) :
    PointOk cfg owner s x e (.opening f)
  | unwinding {f : φ} (hf : owner f = x) (hgate : s.Unwinding x f) :
    PointOk cfg owner s x e (.unwinding f)
  | serving {f : φ} {p : GatePermit} (hf : owner f = x) (hpc : s.pc f = .attempt p e.accepted)
    (hclear : e.accepted = false → ¬ s.Enrolled x)
    (hlead : s.Leads x → e.accepted = false ∧ p.probe = true) :
    PointOk cfg owner s x e (.serving f)
  | reporting {f : φ} {p : GatePermit} {o : AttemptOutcome ε} {next : Resumption} (hf : owner f = x) (hpc : s.pc f = .reporting p o)
    (hclear : ¬ s.Enrolled x) (hlead : s.Leads x → p.probe = true)
    (hnext : AttemptOutcome.KeepsOn o → GoesOn cfg s x e next) :
    PointOk cfg owner s x e (.reporting f next)
  | reported {f : φ} {p : GatePermit} {next : Resumption} (hf : owner f = x) (hpc : s.pc f = .attempt p true)
    (hlead : s.Leads x → GoesOn cfg s x e next) :
    PointOk cfg owner s x e (.reporting f next)
  | cleaning {f : φ} {p : GatePermit} {resolved : Bool} {v : Verdict} (hf : owner f = x) (hpc : s.pc f = .attempt p resolved)
    (hlead : s.Leads x → if resolved then v = .again ∧ s.canAttempt cfg x = true
      else p.probe = true) :
    PointOk cfg owner s x e (.cleaning f v)
  | closing {f : φ} {p : GatePermit} {v : Verdict} (hf : owner f = x) (hpc : s.pc f = .closing p)
    (hlead : s.Leads x → p.probe = true) :
    PointOk cfg owner s x e (.closing f v)
  | closed {f : φ} {v : Verdict} (hf : owner f = x) (hpc : s.pc f = .releasing ∨ s.pc f = .ended)
    (hlead : s.Leads x → v = .again ∧ s.canAttempt cfg x = true) :
    PointOk cfg owner s x e (.closing f v)
  | recovering (hlead : ¬ s.Leads x) : PointOk cfg owner s x e .recovering
  | ended (hlead : ¬ s.Leads x) : PointOk cfg owner s x e .ended

/-- A frame that its execution has left, or never entered. -/
def Quiet (c : AdmissionPc ε) : Prop :=
  c = .idle ∨ c = .ended ∨ (∃ p r, c = .attempt p r) ∨ (∃ p, c = .leaked p) ∨
    ∃ p, c = .detached p ∧ p.probe = false

/-- The invariant of one session. -/
structure ExecOk (cfg : AdmissionConfig) (owner : φ → σ) (s : AdmissionState σ φ ε) (x : σ)
    (e : Execution φ) : Prop where
  clear : s.Leads x → ¬ s.Enrolled x
  point : PointOk cfg owner s x e e.point
  outer : ∀ m, e.outer = some m →
    owner m = x ∧ (∃ p r, s.pc m = .attempt p r) ∧ e.point.frame? ≠ some m
  quiet : ∀ g, owner g = x → e.point.frame? ≠ some g → Quiet (s.pc g)

/-! ## Steps of other sessions -/

omit [DecidableEq φ] [DecidableEq σ] in
theorem GoesOn.keep {next : Resumption} (hi : GoesOn cfg s x e next) (h : KeepsLead x s t) :
    GoesOn cfg t x e next := ⟨h.canAttempt.trans hi.1, hi.2⟩

omit [DecidableEq φ] [DecidableEq σ] in
theorem PointOk.keep {c : ExecutionPoint φ} (hp : PointOk cfg owner s x e c)
    (h : KeepsLead x s t) (hpc : ∀ f, c.frame? = some f → t.pc f = s.pc f) :
    PointOk cfg owner t x e c := by
  have hclear : ¬ s.Enrolled x → ¬ t.Enrolled x := fun hno hen => hno (h.enrolled hen)
  cases hp with
  | preparing hacc hcan => exact .preparing hacc fun hl => h.canAttempt.trans (hcan (h.leads hl))
  | opening hf hacc hgate => exact .opening hf hacc (hgate.keep h (hpc _ rfl))
  | unwinding hf hgate => exact .unwinding hf (hgate.keep h (hpc _ rfl))
  | serving hf hpoint hno hlead =>
    exact .serving hf ((hpc _ rfl).trans hpoint) (fun hacc => hclear (hno hacc))
      fun hl => hlead (h.leads hl)
  | reporting hf hpoint hno hlead hnext =>
    exact .reporting hf ((hpc _ rfl).trans hpoint) (hclear hno) (fun hl => hlead (h.leads hl))
      fun ho => (hnext ho).keep h
  | reported hf hpoint hlead =>
    exact .reported hf ((hpc _ rfl).trans hpoint) fun hl => (hlead (h.leads hl)).keep h
  | cleaning hf hpoint hlead =>
    refine .cleaning hf ((hpc _ rfl).trans hpoint) fun hl => ?_
    rw [h.canAttempt]
    exact hlead (h.leads hl)
  | closing hf hpoint hlead =>
    exact .closing hf ((hpc _ rfl).trans hpoint) fun hl => hlead (h.leads hl)
  | closed hf hpoint hlead =>
    refine .closed hf ?_ fun hl => ?_
    · rw [hpc _ rfl]
      exact hpoint
    · rw [h.canAttempt]
      exact hlead (h.leads hl)
  | recovering hlead => exact .recovering fun hl => hlead (h.leads hl)
  | ended hlead => exact .ended fun hl => hlead (h.leads hl)

omit [DecidableEq φ] [DecidableEq σ] in
theorem PointOk.owner_eq {c : ExecutionPoint φ} (hp : PointOk cfg owner s x e c)
    (hf : c.frame? = some f) : owner f = x := by
  cases hp <;> cases hf <;> assumption

omit [DecidableEq φ] [DecidableEq σ] in
/-- A step that touches neither the lead of a session nor its frames. -/
theorem ExecOk.keep (h : ExecOk cfg owner s x e) (hk : KeepsLead x s t)
    (hpc : ∀ g, owner g = x → t.pc g = s.pc g) : ExecOk cfg owner t x e where
  clear := fun hl hen => h.clear (hk.leads hl) (hk.enrolled hen)
  point := h.point.keep hk fun f hf => hpc f (h.point.owner_eq hf)
  outer := by
    intro m hm
    obtain ⟨hx, ha, hne⟩ := h.outer m hm
    exact ⟨hx, by rwa [hpc m hx], hne⟩
  quiet := by
    intro g hg hne
    rw [hpc g hg]
    exact h.quiet g hg hne

/-! ## Steps of the own frames -/

omit [DecidableEq φ] [DecidableEq σ] in
/-- The frame at which an execution is, or will be, has moved. -/
theorem ExecOk.moved (h : ExecOk cfg owner s x e) (hm : Moves s t f)
    (hat : ∀ g, e.point.frame? = some g → g = f) (hat' : e'.point.frame? = some f)
    (hout : e.outer ≠ some f) (houter : e'.outer = e.outer)
    (hclear : t.Leads x → ¬ t.Enrolled x) (hpoint : PointOk cfg owner t x e' e'.point) :
    ExecOk cfg owner t x e' where
  clear := hclear
  point := hpoint
  outer := by
    intro m hom
    rw [houter] at hom
    have hne : m ≠ f := by
      rintro rfl
      exact hout hom
    obtain ⟨hx, ha, -⟩ := h.outer m hom
    refine ⟨hx, by rwa [hm m hne], ?_⟩
    rw [hat']
    simpa using Ne.symm hne
  quiet := by
    intro g hg hne
    have hgf : g ≠ f := by
      rintro rfl
      exact hne hat'
    rw [hm g hgf]
    exact h.quiet g hg fun hat₀ => hgf (hat g hat₀)

omit [DecidableEq φ] [DecidableEq σ] in
theorem ExecOk.outer_ne (h : ExecOk cfg owner s x e) (hf : e.point.frame? = some f) :
    e.outer ≠ some f := fun hm => (h.outer f hm).2.2 hf

omit [DecidableEq φ] [DecidableEq σ] in
/-- The frame of an execution has moved, and the execution is still at it. -/
theorem ExecOk.at_frame (h : ExecOk cfg owner s x e) (hm : Moves s t f)
    (hf : e.point.frame? = some f) (hf' : e'.point.frame? = some f) (houter : e'.outer = e.outer)
    (hclear : t.Leads x → ¬ t.Enrolled x) (hpoint : PointOk cfg owner t x e' e'.point) :
    ExecOk cfg owner t x e' := by
  refine h.moved hm (fun g hg => ?_) hf' (h.outer_ne hf) houter hclear hpoint
  rw [hf] at hg
  exact (Option.some.inj hg).symm

omit [DecidableEq φ] [DecidableEq σ] in
/-- All frames of a session that does not lead are quiet once its execution has left. -/
theorem execOk_leaveTo (hl : ¬ s.Leads x)
    (houter : ∀ m, e.outer = some m → owner m = x ∧ ∃ p r, s.pc m = .attempt p r)
    (hquiet : ∀ g, owner g = x → Quiet (s.pc g)) : ExecOk cfg owner s x e.leaveTo := by
  unfold Execution.leaveTo
  split
  · next hnone =>
    refine ⟨fun h => absurd h hl, .ended hl, fun m hm => ?_, fun g hg _ => hquiet g hg⟩
    exact absurd hm (by simp [hnone])
  · next m hm =>
    obtain ⟨hx, p, r, hpc⟩ := houter m hm
    exact ⟨fun h => absurd h hl, .cleaning hx hpc fun h => absurd h hl, by simp,
      fun g hg _ => hquiet g hg⟩

omit [DecidableEq φ] [DecidableEq σ] in
/-- The execution leaves its frame, whose step made it quiet. -/
theorem ExecOk.leave (h : ExecOk cfg owner s x e) (hm : Moves s t f)
    (hat : ∀ g, e.point.frame? = some g → g = f) (hout : e.outer ≠ some f) (hl : ¬ t.Leads x)
    (hquiet : Quiet (t.pc f)) (e' : Execution φ) (he' : e'.outer = e.outer) :
    ExecOk cfg owner t x e'.leaveTo := by
  refine execOk_leaveTo hl (fun m hom => ?_) (fun g hg => ?_)
  · rw [he'] at hom
    obtain ⟨hx, ha, -⟩ := h.outer m hom
    refine ⟨hx, ?_⟩
    rwa [hm m (by rintro rfl; exact hout hom)]
  · by_cases hgf : g = f
    · rwa [hgf]
    · rw [hm g hgf]
      exact h.quiet g hg fun hat₀ => hgf (hat g hat₀)

omit [DecidableEq φ] in
/-- A detached frame holds no probe of the open episode. -/
theorem quiet_detached (hg : Gated owner s) (hpc : s.pc f = .closing p)
    (hl : ¬ s.Leads (owner f)) : Quiet (AdmissionPc.detached p : AdmissionPc ε) := by
  refine .inr (.inr (.inr (.inr ⟨p, rfl, ?_⟩)))
  by_contra hprobe
  obtain ⟨e, he, -, hopen, hlead, -⟩ := (permitIsCurrent_probe (by simpa using hprobe)).mp
    (hg.current f p (by rw [hpc]; rfl) (by simpa using hprobe))
  exact hl ⟨e, he, hopen, hlead⟩

omit [DecidableEq σ] [DecidableEq φ] in
theorem internal_cases {a : AdmissionState.Action ε} (ha : internal a = true) :
    a = .advance ∨ a = .wake ∨ ∃ d, a = .pace d := by
  cases a with
  | advance => exact .inl rfl
  | wake => exact .inr (.inl rfl)
  | pace d => exact .inr (.inr ⟨d, rfl⟩)
  | _ => cases ha

/-- An internal step of a frame that its execution has left. -/
theorem ExecOk.internal_quiet {a : AdmissionState.Action ε} (h : ExecOk cfg owner s x e)
    (hx : owner f = x) (hf : e.point.frame? ≠ some f) (ha : internal a = true)
    (ht : s.act cfg owner f a = some t) : ExecOk cfg owner t x e := by
  have hdetached : ∃ p, s.pc f = .detached p ∧ p.probe = false ∧ a = .advance := by
    have hno : ∀ c : AdmissionPc ε, s.pc f = c →
        (c = .idle ∨ c = .ended ∨ (∃ p r, c = .attempt p r) ∨ ∃ p, c = .leaked p) → False := by
      intro c hc hcases
      rcases internal_cases ha with rfl | rfl | ⟨d, rfl⟩
      all_goals
        rcases hcases with rfl | rfl | ⟨p, r, rfl⟩ | ⟨p, rfl⟩ <;>
          simp [AdmissionState.act, AdmissionState.advance, hc] at ht
    rcases h.quiet f hx hf with hc | hc | ⟨p, r, hc⟩ | ⟨p, hc⟩ | ⟨p, hc, hp⟩
    · exact (hno _ hc (.inl rfl)).elim
    · exact (hno _ hc (.inr (.inl rfl))).elim
    · exact (hno _ hc (.inr (.inr (.inl ⟨p, r, rfl⟩)))).elim
    · exact (hno _ hc (.inr (.inr (.inr ⟨p, rfl⟩)))).elim
    · refine ⟨p, hc, hp, ?_⟩
      rcases internal_cases ha with rfl | rfl | ⟨d, rfl⟩
      · rfl
      · simp [AdmissionState.act, hc] at ht
      · simp [AdmissionState.act, hc] at ht
  obtain ⟨p, hc, hp, rfl⟩ := hdetached
  have hnone : s.matchingProbe (owner f) p = none := by
    rw [Option.eq_none_iff_forall_ne_some]
    intro e' he'
    rw [(matchingProbe_eq_some.mp he').2.1] at hp
    cases hp
  have hout : e.outer ≠ some f := by
    intro hm
    obtain ⟨-, ⟨q, r, ha⟩, -⟩ := h.outer f hm
    rw [hc] at ha
    cases ha
  have hpc : ∀ g, g ≠ f → t.pc g = s.pc g := moves_act ht
  simp only [AdmissionState.act, AdmissionState.advance, hc, attemptAbandoned,
    giveUpProbe_of_none hnone, Option.some.injEq] at ht
  have hk : KeepsLead x s t := ht ▸ keepsLead_refl.goto
  have hended : t.pc f = .ended := by
    rw [← ht]
    exact Function.update_self _ _ _
  refine ⟨fun hl hen => h.clear (hk.leads hl) (hk.enrolled hen), h.point.keep hk ?_, ?_, ?_⟩
  · intro g hg
    refine hpc g ?_
    rintro rfl
    exact hf hg
  · intro m hm
    obtain ⟨hmx, ha, hne⟩ := h.outer m hm
    refine ⟨hmx, ?_, hne⟩
    rwa [hpc m (by rintro rfl; exact hout hm)]
  · intro g hg hne
    by_cases hgf : g = f
    · rw [hgf, hended]
      exact .inr (.inl rfl)
    · rw [hpc g hgf]
      exact h.quiet g hg hne

/-- An internal step of the frame at which the execution is. -/
theorem ExecOk.internal_frame {a : AdmissionState.Action ε} (h : ExecOk cfg owner s x e)
    (hg : Gated owner s) (hf : e.point.frame? = some f) (ha : internal a = true)
    (ht : s.act cfg owner f a = some t) : ExecOk cfg owner t x e := by
  have hx : owner f = x := h.point.owner_eq hf
  have hm : Moves s t f := moves_act ht
  have hact := internal_cases ha
  have hpoint := h.point
  revert hf
  generalize hc : e.point = c at hpoint
  intro hf
  have hsame : ∀ (_ : t.Leads x → ¬ t.Enrolled x), PointOk cfg owner t x e c →
      ExecOk cfg owner t x e := fun hclear hp =>
    h.at_frame hm (hc ▸ hf) (hc ▸ hf) rfl hclear (hc ▸ hp)
  cases hpoint with
  | preparing => cases hf
  | recovering => cases hf
  | ended => cases hf
  | opening hfx hacc hgate =>
    cases hf
    have hstep := hgate.step hg hx ht hact
    exact hsame hstep.clear (.opening hfx hacc hstep)
  | unwinding hfx hgate =>
    cases hf
    have hstep := hgate.step hg hx ht hact
    exact hsame hstep.clear (.unwinding hfx hstep)
  | serving hfx hpc =>
    cases hf
    rcases hact with rfl | rfl | ⟨d, rfl⟩ <;>
      simp [AdmissionState.act, AdmissionState.advance, hpc] at ht
  | reported hfx hpc =>
    cases hf
    rcases hact with rfl | rfl | ⟨d, rfl⟩ <;>
      simp [AdmissionState.act, AdmissionState.advance, hpc] at ht
  | cleaning hfx hpc =>
    cases hf
    rcases hact with rfl | rfl | ⟨d, rfl⟩ <;>
      simp [AdmissionState.act, AdmissionState.advance, hpc] at ht
  | @reporting f' p o next hfx hpc hclear hlead hnext =>
    cases hf
    subst hx
    rcases hact with rfl | rfl | ⟨d, rfl⟩
    · simp only [AdmissionState.act, AdmissionState.advance, hpc, Option.some.injEq] at ht
      have hout := hg.outcome_leads (o := o) (p := p) (by rw [hpc]; rfl) hclear hlead
      have hcan : t.canAttempt cfg (owner f) = s.canAttempt cfg (owner f) := by
        rw [← ht]
        simp only [AdmissionState.canAttempt, goto, outcomeSection_started]
      subst ht
      refine hsame (fun hl => (hout hl).2) (.reported hfx (Function.update_self _ _ _) ?_)
      intro hl
      have hgo := hnext (hout hl).1
      exact ⟨hcan.trans hgo.1, hgo.2⟩
    · simp [AdmissionState.act, hpc] at ht
    · simp [AdmissionState.act, hpc] at ht
  | @closing f' p v hfx hpc hlead =>
    cases hf
    subst hx
    rcases hact with rfl | rfl | ⟨d, rfl⟩
    · simp only [AdmissionState.act, AdmissionState.advance, hpc, Option.some.injEq] at ht
      have hno := hg.not_leads_giveUp (p := p) (by rw [hpc]; rfl) hlead
      subst ht
      exact hsame (fun hl => absurd hl hno)
        (.closed hfx (.inl (Function.update_self _ _ _)) fun hl => absurd hl hno)
    · simp [AdmissionState.act, hpc] at ht
    · simp [AdmissionState.act, hpc] at ht
  | closed hfx hpc hlead =>
    cases hf
    rcases hpc with hpc | hpc
    · rcases hact with rfl | rfl | ⟨d, rfl⟩
      · simp only [AdmissionState.act, AdmissionState.advance, hpc, Option.some.injEq] at ht
        subst ht
        exact hsame h.clear (.closed hfx (.inr (Function.update_self _ _ _)) hlead)
      · simp [AdmissionState.act, hpc] at ht
      · simp [AdmissionState.act, hpc] at ht
    · rcases hact with rfl | rfl | ⟨d, rfl⟩ <;>
        simp [AdmissionState.act, AdmissionState.advance, hpc] at ht

/-! ## Calls into admission -/

omit [DecidableEq φ] in
/-- A frame whose unresolved permit is a probe is that of a leader. -/
theorem leads_of_probe (hg : Gated owner s) (hf : (s.pc f).permit? = some p)
    (hp : p.probe = true) : s.Leads (owner f) := by
  obtain ⟨e, he, -, hopen, hlead, -⟩ := (permitIsCurrent_probe hp).mp (hg.current f p hf hp)
  exact ⟨e, he, hopen, hlead⟩

/-- An attempt that is being served reports an outcome. -/
theorem ExecOk.report {r : Report ε} {next : Resumption} (h : ExecOk cfg owner s x e)
    (hg : Gated owner s) (hpt : e.point = .serving f)
    (hnext : AttemptOutcome.KeepsOn (s.outcomeOf cfg x r) → s.Leads x ∨ isFailed r = true →
      GoesOn cfg s x e next)
    (ht : s.act cfg owner f (.report r) = some t) :
    ExecOk cfg owner t x { e with point := .reporting f next } := by
  have hf : e.point.frame? = some f := by
    rw [hpt]
    rfl
  have hm : Moves s t f := moves_act ht
  have hpoint := h.point
  rw [hpt] at hpoint
  cases hpoint with
  | @serving f' p hx hpc hclear hlead =>
    have hacc : e.accepted = false := by
      by_contra hacc
      simp [AdmissionState.act, hpc, hacc] at ht
    have hno := hclear hacc
    have hreporting : (s.Leads x ∨ isFailed r = true) →
        ExecOk cfg owner (s.goto f (.reporting p (s.outcomeOf cfg x r))) x
          { e with point := .reporting f next } := fun hor =>
      h.at_frame (moves_goto rfl) hf rfl rfl (fun _ => hno)
        (.reporting hx (Function.update_self _ _ _) hno (fun hl => (hlead hl).2)
          fun ho => hnext ho hor)
    have hreported : p.probe = false →
        ExecOk cfg owner (s.goto f (.attempt p true)) x { e with point := .reporting f next } :=
      fun hp => h.at_frame (moves_goto rfl) hf rfl rfl (fun _ => hno)
        (.reported hx (Function.update_self _ _ _) fun hl => by
          have := (hlead hl).2
          rw [hp] at this
          cases this)
    have hprobe : p.probe = true → s.Leads x := fun hp =>
      hx ▸ leads_of_probe hg (by rw [hpc, hacc]; rfl) hp
    simp only [AdmissionState.act, hpc, hacc, Option.some.injEq] at ht
    subst ht
    unfold AdmissionState.reportOutcome
    rw [hx]
    split
    · exact hreporting (.inr rfl)
    · split_ifs with hp
      · exact hreporting (.inl (hprobe hp))
      · exact hreported (by simpa using hp)

/-- `attempt.aclose` is called. -/
theorem ExecOk.close {v : Verdict} (h : ExecOk cfg owner s x e) (hpt : e.point = .cleaning f v)
    (ht : s.act cfg owner f .close = some t) :
    ExecOk cfg owner t x { e with point := .closing f v } := by
  have hf : e.point.frame? = some f := by
    rw [hpt]
    rfl
  have hm : Moves s t f := moves_act ht
  have hpoint := h.point
  rw [hpt] at hpoint
  cases hpoint with
  | @cleaning f' p resolved v' hx hpc hlead =>
    cases resolved with
    | true =>
      simp only [AdmissionState.act, hpc, Option.some.injEq] at ht
      subst ht
      exact h.at_frame hm hf rfl rfl h.clear
        (.closed hx (.inr (Function.update_self _ _ _)) hlead)
    | false =>
      simp only [AdmissionState.act, hpc, Option.some.injEq] at ht
      subst ht
      exact h.at_frame hm hf rfl rfl h.clear
        (.closing hx (Function.update_self _ _ _) fun hl => by simpa using hlead hl)

omit [DecidableEq σ] [DecidableEq φ] in
theorem proceed_of_ne {v : Verdict} (hv : v ≠ .recover) :
    e.proceed f v = { e with point := .cleaning f v } := by
  cases v <;> first | rfl | exact absurd rfl hv

omit [DecidableEq φ] [DecidableEq σ] in
/-- An execution goes on to clean up after the attempt, or collects recovery output. -/
theorem ExecOk.proceed {v : Verdict} {resolved : Bool} (h : ExecOk cfg owner s x e)
    (hf : e.point.frame? = some f) (hpc : s.pc f = .attempt p resolved)
    (hlead : s.Leads x → if resolved then v = .again ∧ s.canAttempt cfg x = true
      else p.probe = true)
    (hrecover : v = .recover → ¬ s.Leads x) : ExecOk cfg owner s x (e.proceed f v) := by
  have hx := h.point.owner_eq hf
  by_cases hv : v = .recover
  · subst hv
    refine ⟨h.clear, .recovering (hrecover rfl), ?_, ?_⟩
    · intro m hm
      cases hm
      exact ⟨hx, ⟨p, resolved, hpc⟩, by simp [Execution.proceed, ExecutionPoint.frame?]⟩
    · intro g hg hne
      by_cases hgf : g = f
      · rw [hgf, hpc]
        exact .inr (.inr (.inl ⟨p, resolved, rfl⟩))
      · refine h.quiet g hg ?_
        rw [hf]
        simpa using Ne.symm hgf
  · rw [proceed_of_ne hv]
    exact h.at_frame (fun _ _ => rfl) hf rfl rfl h.clear (.cleaning hx hpc hlead)

omit [DecidableEq σ] [DecidableEq φ] in
/-- The outcome of an attempt has been reported. -/
theorem ExecOk.reported {next : Resumption} (h : ExecOk cfg owner s x e)
    (hpt : e.point = .reporting f next) (hpc : s.pc f = .attempt p true) :
    s.Leads x → GoesOn cfg s x e next := by
  have hpoint := h.point
  rw [hpt] at hpoint
  cases hpoint with
  | reporting _ hpc' =>
    rw [hpc] at hpc'
    cases hpc'
  | reported _ _ hlead => exact hlead

/-! ## Steps of an execution -/

/-- A step of the execution of `x` after which its session is in order. -/
def Goes (cfg : AdmissionConfig) (owner : φ → σ) (s : ProviderState σ φ ε) (x : σ)
    (t : ProviderState σ φ ε) : Prop :=
  ∃ adm e, t = ({ s with adm := adm } : ProviderState σ φ ε).setExec x e ∧
    ExecOk cfg owner adm x e ∧
    (adm = s.adm ∨ ∃ f a, owner f = x ∧ s.adm.act cfg owner f a = some adm)

variable {S T : ProviderState σ φ ε}

theorem goes_stay (he : ExecOk cfg owner S.adm x e) : Goes cfg owner S x (S.setExec x e) :=
  ⟨S.adm, e, rfl, he, .inl rfl⟩

theorem goes_call {a : AdmissionState.Action ε} (hx : owner f = x)
    (ht : S.callAdmission cfg owner x f a e = some T)
    (he : ∀ adm, S.adm.act cfg owner f a = some adm → ExecOk cfg owner adm x e) :
    Goes cfg owner S x T := by
  obtain ⟨adm, hact, rfl⟩ := Option.map_eq_some_iff.mp ht
  exact ⟨adm, e, rfl, he adm hact, .inr ⟨f, a, hx, hact⟩⟩

omit [DecidableEq σ] [DecidableEq φ] in
theorem leaveTo_of_none (h : e.outer = none) : e.leaveTo = { e with point := .ended } := by
  unfold Execution.leaveTo
  split
  · rfl
  · next m hm =>
    rw [h] at hm
    cases hm

omit [DecidableEq σ] in
/-- The execution leaves its frame without a call into admission. -/
theorem ExecOk.abandon (h : ExecOk cfg owner s x e) (hl : ¬ s.Leads x)
    (hquiet : ∀ f, e.point.frame? = some f → Quiet (s.pc f)) :
    ExecOk cfg owner s x e.leaveTo := by
  refine execOk_leaveTo hl (fun m hm => ⟨(h.outer m hm).1, (h.outer m hm).2.1⟩) fun g hg => ?_
  by_cases hat : e.point.frame? = some g
  · exact hquiet g hat
  · exact h.quiet g hg hat

/-- An exception reaches an execution; a leader hands the lead over. -/
theorem interrupt_goes {c : Bool} (hg : Gated owner S.adm)
    (h : ExecOk cfg owner S.adm x (S.exec x))
    (hsafe : S.adm.Leads x → S.handsOver x c = true)
    (ht : S.interrupt cfg owner x c = some T) : Goes cfg owner S x T := by
  have hpoint := h.point
  unfold ProviderState.interrupt at ht
  unfold ProviderState.handsOver at hsafe
  dsimp only at ht
  cases hc : (S.exec x).point with
  | preparing =>
    simp only [hc] at ht hsafe
    split_ifs at ht with hcan
    cases ht
    have hl : ¬ S.adm.Leads x := fun hl => by simpa using hsafe hl
    have hleave := h.abandon hl (by simp [hc, ExecutionPoint.frame?])
    rw [leaveTo_of_none hcan.2.1] at hleave
    exact goes_stay hleave
  | opening f =>
    simp only [hc] at ht hsafe
    rw [hc] at hpoint
    cases hpoint with
    | opening hx hacc hgate =>
      split_ifs at ht
      refine goes_call hx ht fun adm hact => ?_
      have hun := hgate.cancel hact fun hl => by
        have := hsafe hl
        refine ⟨fun hpc => ?_, fun hpc => ?_, fun p hpc => ?_⟩ <;> simp [hpc] at this
      exact h.at_frame (moves_act hact) (by rw [hc]; rfl) rfl rfl hun.clear (.unwinding hx hun)
  | unwinding f =>
    simp only [hc] at ht hsafe
    rw [hc] at hpoint
    cases hpoint with
    | unwinding hx hgate =>
      split_ifs at ht
      refine goes_call hx ht fun adm hact => ?_
      have hun := hgate.cancel hact fun hl => by simpa using hsafe hl
      exact h.at_frame (moves_act hact) (by rw [hc]; rfl) rfl rfl hun.clear (.unwinding hx hun)
  | serving f =>
    simp only [hc] at ht
    rw [hc] at hpoint
    cases hpoint with
    | serving hx hpc hclear hlead =>
      split_ifs at ht
      cases ht
      refine goes_stay (h.at_frame (fun _ _ => rfl) (by rw [hc]; rfl) rfl rfl h.clear
        (.cleaning hx hpc fun hl => ?_))
      rw [(hlead hl).1]
      exact (hlead hl).2
  | reporting f next =>
    simp only [hc] at ht
    rw [hc] at hpoint
    split_ifs at ht
    cases hpoint with
    | reporting hx hpc hclear hlead =>
      refine goes_call hx ht fun adm hact => ?_
      have hm := moves_act hact
      simp only [AdmissionState.act, AdmissionState.cancel, hpc, Option.some.injEq] at hact
      subst hact
      refine h.at_frame hm (by rw [hc]; rfl) rfl rfl h.clear
        (.cleaning hx (Function.update_self _ _ _) fun hl => ?_)
      exact hlead hl
    | reported hx hpc =>
      refine goes_call hx ht fun adm hact => ?_
      simp [AdmissionState.act, AdmissionState.cancel, hpc] at hact
  | cleaning f v =>
    simp only [hc] at ht hsafe
    rw [hc] at hpoint
    split_ifs at ht with haw hswallow
    · exact goes_call (h.point.owner_eq (by rw [hc]; rfl)) ht fun adm hact => h.close hc hact
    · cases ht
      have hl : ¬ S.adm.Leads x := fun hl => hswallow (by simpa using hsafe hl)
      cases hpoint with
      | cleaning hx hpc =>
        refine goes_stay (h.abandon hl fun g hat => ?_)
        rw [hc] at hat
        cases hat
        rw [hpc]
        exact .inr (.inr (.inl ⟨_, _, rfl⟩))
  | closing f v =>
    simp only [hc] at ht hsafe
    rw [hc] at hpoint
    split_ifs at ht
    have hl : ¬ S.adm.Leads x := fun hl => by simpa using hsafe hl
    have hx : owner f = x := h.point.owner_eq (by rw [hc]; rfl)
    refine goes_call hx ht fun adm hact => ?_
    have hm := moves_act hact
    have hleave : (¬ adm.Leads x) → Quiet (adm.pc f) → ExecOk cfg owner adm x
        (S.exec x).leaveTo := fun hl' hquiet =>
      h.leave hm (by simp [hc, ExecutionPoint.frame?]) (h.outer_ne (by rw [hc]; rfl)) hl' hquiet
        _ rfl
    simp only [AdmissionState.act, AdmissionState.cancel] at hact
    cases hpoint with
    | closing _ hpc =>
      simp only [hpc, Option.some.injEq] at hact
      subst hact
      refine hleave hl ?_
      rw [show (S.adm.release.goto f _).pc f = _ from Function.update_self _ _ _]
      exact quiet_detached hg hpc (hx ▸ hl)
    | closed _ hpc =>
      rcases hpc with hpc | hpc
      · simp only [hpc, Option.some.injEq] at hact
        subst hact
        refine hleave hl ?_
        rw [show (S.adm.release.goto f _).pc f = _ from Function.update_self _ _ _]
        exact .inr (.inl rfl)
      · simp [hpc] at hact
  | recovering => simp [hc] at ht
  | ended => simp [hc] at ht

omit [DecidableEq σ] in
/-- A closed attempt of a session that leads is followed by another round. -/
theorem ExecOk.nextRound {v : Verdict} (h : ExecOk cfg owner s x e)
    (hpt : e.point = .closing f v) (hpc : s.pc f = .ended) :
    ExecOk cfg owner s x (e.nextRound v) := by
  have hpoint := h.point
  rw [hpt] at hpoint
  have hlead : s.Leads x → v = .again ∧ s.canAttempt cfg x = true := by
    cases hpoint with
    | closing _ hpc' =>
      rw [hpc] at hpc'
      cases hpc'
    | closed _ _ hlead => exact hlead
  have hquiet : ∀ g, owner g = x → Quiet (s.pc g) := by
    intro g hg
    by_cases hgf : g = f
    · rw [hgf, hpc]
      exact .inr (.inl rfl)
    · exact h.quiet g hg (by simpa [hpt, ExecutionPoint.frame?] using Ne.symm hgf)
  have hout : ∀ m, e.outer = some m → owner m = x ∧ ∃ p r, s.pc m = .attempt p r :=
    fun m hm => ⟨(h.outer m hm).1, (h.outer m hm).2.1⟩
  cases v with
  | again =>
    exact ⟨h.clear, .preparing rfl fun hl => (hlead hl).2,
      fun m hm => ⟨(hout m hm).1, (hout m hm).2, by simp [Execution.nextRound,
        ExecutionPoint.frame?]⟩, fun g hg _ => hquiet g hg⟩
  | finish =>
    have hl : ¬ s.Leads x := fun hl => by cases (hlead hl).1
    unfold Execution.nextRound
    dsimp only
    split
    · exact ⟨h.clear, .recovering hl,
        fun m hm => ⟨(hout m hm).1, (hout m hm).2, by simp [ExecutionPoint.frame?]⟩,
        fun g hg _ => hquiet g hg⟩
    · exact ⟨h.clear, .ended hl,
        fun m hm => ⟨(hout m hm).1, (hout m hm).2, by simp [ExecutionPoint.frame?]⟩,
        fun g hg _ => hquiet g hg⟩
  | recover =>
    exact execOk_leaveTo (fun hl => by cases (hlead hl).1) hout hquiet
  | leave =>
    exact execOk_leaveTo (fun hl => by cases (hlead hl).1) hout hquiet

/-- The await of an execution is over. -/
theorem resume_goes (h : ExecOk cfg owner S.adm x (S.exec x))
    (ht : S.resume cfg owner x = some T) : Goes cfg owner S x T := by
  have hpoint := h.point
  unfold ProviderState.resume at ht
  dsimp only at ht
  cases hc : (S.exec x).point with
  | unwinding f =>
    simp only [hc] at ht
    rw [hc] at hpoint
    have hat : ∀ g, (S.exec x).point.frame? = some g → g = f := by
      simp [hc, ExecutionPoint.frame?]
    cases hpoint with
    | unwinding hx hgate =>
      have howed := hgate.owed
      split at ht
      · next hpc =>
        cases ht
        rw [hpc] at howed
        refine goes_stay (h.abandon (fun hl => howed hl) fun g hg => ?_)
        rw [hat g hg, hpc]
        exact .inr (.inl rfl)
      · next p hpc =>
        cases ht
        rw [hpc] at howed
        refine goes_stay (h.abandon (fun hl => howed hl) fun g hg => ?_)
        rw [hat g hg, hpc]
        exact .inr (.inr (.inr (.inl ⟨p, rfl⟩)))
      · cases ht
  | reporting f next =>
    simp only [hc] at ht
    split at ht
    · next p hpc =>
      have hf : (S.exec x).point.frame? = some f := by
        rw [hc]
        rfl
      have hgo := h.reported hc hpc
      have hx := h.point.owner_eq hf
      split at ht
      · cases ht
        have hl : ¬ S.adm.Leads x := fun hl => by
          rcases (hgo hl).2 with hn | ⟨r, hn, -⟩ <;> cases hn
        exact goes_stay (h.at_frame (fun _ _ => rfl) hf rfl rfl h.clear
          (.serving hx hpc (fun hacc => by cases hacc) fun hl' => absurd hl' hl))
      · cases ht
        exact goes_stay (h.proceed hf hpc (fun hl => ⟨rfl, (hgo hl).1⟩) (by simp))
      · next retryable streamRetryable shouldRetry =>
        cases ht
        refine goes_stay (h.proceed hf hpc (fun hl => ?_) fun hrec => ?_)
        · obtain ⟨hcan, hn | ⟨r, hn, hreports⟩⟩ := hgo hl
          · cases hn
          · cases hn
            refine ⟨Execution.verdict_again hreports ?_, hcan⟩
            simpa [ProviderState.attemptsRemaining, AdmissionState.canAttempt] using hcan
        · cases Execution.verdict_recover hrec
    · cases ht
  | cleaning f v =>
    simp only [hc] at ht
    exact goes_call (h.point.owner_eq (by rw [hc]; rfl)) ht fun adm hact => h.close hc hact
  | closing f v =>
    simp only [hc] at ht
    split at ht
    · next hpc =>
      cases ht
      exact goes_stay (h.nextRound hc hpc)
    · cases ht
  | preparing => simp [hc] at ht
  | opening f => simp [hc] at ht
  | serving f => simp [hc] at ht
  | recovering => simp [hc] at ht
  | ended => simp [hc] at ht

omit [DecidableEq σ] [DecidableEq φ] in
/-- What holds at the top of the loop. -/
theorem ExecOk.preparing (h : ExecOk cfg owner s x e) (hpt : e.point = .preparing) :
    e.accepted = false ∧ (s.Leads x → s.canAttempt cfg x = true) := by
  have hpoint := h.point
  rw [hpt] at hpoint
  cases hpoint with
  | preparing hacc hcan => exact ⟨hacc, hcan⟩

/-- `open_attempt` is called. -/
theorem openAttempt_goes (h : ExecOk cfg owner S.adm x (S.exec x))
    (ht : S.execAct cfg owner x (.openAttempt f) = some T) : Goes cfg owner S x T := by
  simp only [ProviderState.execAct] at ht
  split at ht
  · next hc =>
    split_ifs at ht with hgo
    obtain ⟨hacc, hcan⟩ := h.preparing hc
    refine goes_call hgo.1 ht fun adm hact => ?_
    have hm := moves_act hact
    simp only [AdmissionState.act] at hact
    split at hact
    · next hpc =>
      cases hact
      have hout : (S.exec x).outer ≠ some f := by
        intro hom
        obtain ⟨-, ⟨p, r, ha⟩, -⟩ := h.outer f hom
        rw [hpc] at ha
        cases ha
      refine h.moved hm (by simp [hc, ExecutionPoint.frame?]) rfl hout rfl h.clear
        (.opening hgo.1 hacc ?_)
      rw [hgo.1]
      split_ifs with hleft
      · exact inGate_goto h.clear (fun hp => absurd rfl hp) (fun _ => trivial) (.inl rfl)
      · exact inGate_goto h.clear (fun hp => absurd rfl hp) (fun hl => absurd (hcan hl) hleft)
          (.inr (.inl rfl))
    · cases hact
  · cases ht

/-- `open_attempt` returned an attempt, or raised. -/
theorem opened_goes {a : ExecAction φ ε} (ha : a = .opened ∨ a = .refused)
    (h : ExecOk cfg owner S.adm x (S.exec x)) (ht : S.execAct cfg owner x a = some T) :
    Goes cfg owner S x T := by
  have hgate : ∀ f, (S.exec x).point = .opening f →
      owner f = x ∧ (S.exec x).accepted = false ∧ S.adm.InGate x f := by
    intro f hc
    have hpoint := h.point
    rw [hc] at hpoint
    cases hpoint with
    | opening hx hacc hgate => exact ⟨hx, hacc, hgate⟩
  rcases ha with rfl | rfl
  · simp only [ProviderState.execAct] at ht
    split at ht
    · next f hc =>
      split at ht
      · next p hpc =>
        cases ht
        obtain ⟨hx, hacc, hin⟩ := hgate f hc
        have howed := hin.owed
        rw [hpc] at howed
        refine goes_stay (h.at_frame (fun _ _ => rfl) (by rw [hc]; rfl) rfl rfl h.clear
          (.serving hx ?_ (fun _ => hin.held (by simp [hpc, AdmissionPc.permit?]))
            fun hl => ⟨hacc, howed hl⟩))
        rw [hpc, hacc]
      · cases ht
    · cases ht
  · simp only [ProviderState.execAct] at ht
    split at ht
    · next f hc =>
      split at ht
      · next hpc =>
        cases ht
        obtain ⟨hx, hacc, hin⟩ := hgate f hc
        have howed := hin.owed
        rw [hpc] at howed
        refine goes_stay (h.abandon (fun hl => howed hl) fun g hat => ?_)
        rw [hc] at hat
        cases hat
        rw [hpc]
        exact .inr (.inl rfl)
      · cases ht
    · cases ht

omit [DecidableEq σ] [DecidableEq φ] in
/-- What holds while an attempt is being served. -/
theorem ExecOk.serving (h : ExecOk cfg owner s x e) (hpt : e.point = .serving f) :
    owner f = x ∧ ∃ p, s.pc f = .attempt p e.accepted ∧
      (e.accepted = false → ¬ s.Enrolled x) ∧ (s.Leads x → e.accepted = false ∧ p.probe = true) := by
  have hpoint := h.point
  rw [hpt] at hpoint
  cases hpoint with
  | serving hx hpc hclear hlead => exact ⟨hx, _, hpc, hclear, hlead⟩

/-- The attempt raised an exception. -/
theorem fail_goes {failure : AttemptFailure} {report : Report ε} (hg : Gated owner S.adm)
    (h : ExecOk cfg owner S.adm x (S.exec x))
    (ht : S.execAct cfg owner x (.fail failure report) = some T) : Goes cfg owner S x T := by
  simp only [ProviderState.execAct] at ht
  split at ht
  · next f hc =>
    obtain ⟨hx, p, hpc, hclear, hlead⟩ := h.serving hc
    have hf : (S.exec x).point.frame? = some f := by
      rw [hc]
      rfl
    split_ifs at ht with hguard hreports
    · refine goes_call hx ht fun adm hact => h.report hg hc (fun ho _ => ?_) hact
      unfold classified at ho
      split_ifs at ho with hretryable
      · -- a classified failure is retried exactly while an attempt is left
        have hcan : S.adm.canAttempt cfg x = true := by
          cases report with
          | failed error retryAfter sample terminalSample => exact ho
          | _ => cases hguard.2.2
        refine ⟨hcan, .inr ⟨failure.streamRetryable, ?_, hreports⟩⟩
        simp [hretryable, hcan]
      · cases ho
    · cases ht
      refine goes_stay (h.proceed hf hpc (fun hl => ?_) fun hrec hl => ?_)
      · rw [(hlead hl).1]
        exact (hlead hl).2
      · have hacc := hguard.1 (Execution.verdict_recover hrec)
        rw [(hlead hl).1] at hacc
        cases hacc
  · cases ht

/-- A step of an execution, taken as `Safe` demands, leaves its session in order. -/
theorem execAct_goes {a : ExecAction φ ε} (hg : Gated owner S.adm)
    (h : ExecOk cfg owner S.adm x (S.exec x)) (hsafe : Safe cfg S (.exec x a))
    (ht : S.execAct cfg owner x a = some T) : Goes cfg owner S x T := by
  have hnone : ∀ e' : Execution φ, (S.exec x).point.frame? = none → e'.point.frame? = none →
      e'.outer = (S.exec x).outer → PointOk cfg owner S.adm x e' e'.point →
      ExecOk cfg owner S.adm x e' := by
    intro e' hat hat' hout hpoint
    refine ⟨h.clear, hpoint, fun m hm => ?_, fun g hg' _ => h.quiet g hg' (by simp [hat])⟩
    obtain ⟨hx, ha, -⟩ := h.outer m (hout ▸ hm)
    exact ⟨hx, ha, by simp [hat']⟩
  cases a with
  | openAttempt f => exact openAttempt_goes h ht
  | opened => exact opened_goes (.inl rfl) h ht
  | refused => exact opened_goes (.inr rfl) h ht
  | fail failure report => exact fail_goes hg h ht
  | interrupt c => exact interrupt_goes hg h hsafe ht
  | resume => exact resume_goes h ht
  | exhaust =>
    simp only [ProviderState.execAct] at ht
    split at ht
    · next hc =>
      split_ifs at ht with hguard
      cases ht
      refine goes_stay (h.abandon (fun hl => ?_) (by simp [hc, ExecutionPoint.frame?]))
      rw [(h.preparing hc).2 hl] at hguard
      cases hguard.2
    · cases ht
  | served =>
    simp only [ProviderState.execAct] at ht
    split at ht
    · next f hc =>
      cases ht
      obtain ⟨hx, p, hpc, hclear, hlead⟩ := h.serving hc
      refine goes_stay (h.at_frame (fun _ _ => rfl) (by rw [hc]; rfl) (by simp [hc,
        ExecutionPoint.frame?]) rfl h.clear ?_)
      simp only [hc]
      exact .serving hx hpc hclear hlead
    · cases ht
  | commit =>
    simp only [ProviderState.execAct] at ht
    split at ht
    · next hc =>
      cases ht
      obtain ⟨hacc, hcan⟩ := h.preparing hc
      refine goes_stay (hnone _ (by rw [hc]; rfl) (by simp [hc, ExecutionPoint.frame?]) rfl ?_)
      simp only [hc]
      exact .preparing hacc hcan
    · next f hc =>
      cases ht
      obtain ⟨hx, p, hpc, hclear, hlead⟩ := h.serving hc
      refine goes_stay (h.at_frame (fun _ _ => rfl) (by rw [hc]; rfl) (by simp [hc,
        ExecutionPoint.frame?]) rfl h.clear ?_)
      simp only [hc]
      exact .serving hx hpc hclear hlead
    · cases ht
  | accept =>
    simp only [ProviderState.execAct] at ht
    split at ht
    · next f hc =>
      split_ifs at ht
      have hno : ¬ AttemptOutcome.KeepsOn (S.adm.outcomeOf cfg x .succeeded) := id
      exact goes_call (h.serving hc).1 ht fun adm hact =>
        h.report hg hc (fun ho => absurd ho hno) hact
    · cases ht
  | correct =>
    simp only [ProviderState.execAct] at ht
    split at ht
    · next f hc =>
      split_ifs at ht
      refine goes_call (h.serving hc).1 ht fun adm hact => h.report hg hc (fun _ hl => ?_) hact
      rcases hl with hl | hl
      · exact ⟨hsafe hl, .inl rfl⟩
      · cases hl
    · cases ht
  | failOutside streamRetryable =>
    simp only [ProviderState.execAct] at ht
    split at ht
    · next hc =>
      split_ifs at ht with hkind hagain
      · cases ht
        exact ⟨S.adm, S.exec x, by simp [ProviderState.setExec], h, .inl rfl⟩
      · cases ht
        refine goes_stay (hnone _ (by rw [hc]; rfl) rfl rfl (.ended fun hl => hagain ?_))
        exact ⟨(hsafe hl).1, (hsafe hl).2, (h.preparing hc).2 hl⟩
    · cases ht
  | finish =>
    simp only [ProviderState.execAct] at ht
    split at ht
    · next f hc =>
      obtain ⟨hx, p, hpc, hclear, hlead⟩ := h.serving hc
      split_ifs at ht with hacc
      cases ht
      refine goes_stay (h.at_frame (fun _ _ => rfl) (by rw [hc]; rfl) rfl rfl h.clear
        (.cleaning hx hpc fun hl => ?_))
      rw [(hlead hl).1] at hacc
      cases hacc
    · cases ht
  | collect =>
    simp only [ProviderState.execAct] at ht
    split at ht
    · next hc =>
      split_ifs at ht with hcan
      cases ht
      exact goes_stay (hnone _ (by rw [hc]; rfl) rfl rfl (.preparing rfl fun _ => hcan))
    · cases ht
  | settle =>
    simp only [ProviderState.execAct] at ht
    split at ht
    · next hc =>
      cases ht
      have hpoint := h.point
      rw [hc] at hpoint
      cases hpoint with
      | recovering hl => exact goes_stay (h.abandon hl (by simp [hc, ExecutionPoint.frame?]))
    · cases ht

end Invariant

/-! ## Runs -/

section Runs

variable {σ φ ε : Type} [DecidableEq σ] [DecidableEq φ] {cfg : AdmissionConfig} {owner : φ → σ}
  {s t : ProviderState σ φ ε} {x : σ}

/-- The invariant of the whole system. -/
structure Lively (cfg : AdmissionConfig) (owner : φ → σ) (s : ProviderState σ φ ε) : Prop where
  gated : Gated owner s.adm
  exec : ∀ x, ExecOk cfg owner s.adm x (s.exec x)

theorem lively_fresh {now : ℚ} {kind : σ → LoopKind} :
    Lively cfg owner (fresh cfg now kind : ProviderState σ φ ε) where
  gated := gated_of_reachable (System.Reachable.start (S := admissionSystem ε cfg owner) ⟨now, rfl⟩)
  exec := fun x =>
    { clear := fun ⟨e, he, _⟩ => by cases he
      point := .preparing rfl fun ⟨e, he, _⟩ => by cases he
      outer := fun m hm => by cases hm
      quiet := fun g _ _ => .inl rfl }

/-- A step of one execution leaves the other sessions in order. -/
theorem Lively.exec_step (h : Lively cfg owner s) (ht : Goes cfg owner s x t) :
    Lively cfg owner t := by
  obtain ⟨adm, e, rfl, he, hadm⟩ := ht
  have hother : ∀ y, y ≠ x → (({ s with adm := adm } : ProviderState σ φ ε).setExec x e).exec y =
      s.exec y := fun y hy => Function.update_of_ne hy _ _
  have hself : (({ s with adm := adm } : ProviderState σ φ ε).setExec x e).exec x = e :=
    Function.update_self _ _ _
  constructor
  · rcases hadm with rfl | ⟨f, a, -, hact⟩
    · exact h.gated
    · exact h.gated.act hact
  · intro y
    by_cases hy : y = x
    · rw [hy, hself]
      exact he
    · rw [hother y hy]
      rcases hadm with rfl | ⟨f, a, hx, hact⟩
      · exact h.exec y
      · have hne : ∀ z, owner f ≠ z ∨ z = x := fun z => by
          by_cases hz : z = x
          · exact .inr hz
          · exact .inl (hx ▸ Ne.symm hz)
        refine (h.exec y).keep (keepsLead_act (hx ▸ Ne.symm hy) hact) fun g hg => ?_
        refine moves_act hact g ?_
        rintro rfl
        exact hy (hg.symm.trans hx)

/-- The step lemma. -/
theorem Lively.step {l : Label σ φ ε} (h : Lively cfg owner s) (hsafe : Safe cfg s l)
    (ht : (providerSystem ε cfg owner).step s l t) : Lively cfg owner t := by
  cases l with
  | exec x a => exact h.exec_step (execAct_goes h.gated (h.exec x) hsafe ht)
  | frame f a =>
    obtain ⟨ha, hmap⟩ := ht
    obtain ⟨adm, hact, rfl⟩ := Option.map_eq_some_iff.mp hmap
    refine ⟨h.gated.act hact, fun y => ?_⟩
    by_cases hy : owner f = y
    · by_cases hf : (s.exec y).point.frame? = some f
      · exact (h.exec y).internal_frame h.gated hf ha hact
      · exact (h.exec y).internal_quiet hy hf ha hact
    · refine (h.exec y).keep (keepsLead_act hy hact) fun g hg => moves_act hact g ?_
      rintro rfl
      exact hy hg
  | tick elapsed =>
    obtain ⟨-, rfl⟩ := ht
    refine ⟨⟨fun f p hf hp => h.gated.current f p hf hp, h.gated.unique⟩, fun y => ?_⟩
    exact (h.exec y).keep (keepsLead_of_eq rfl rfl) fun _ _ => rfl

/-- The run lemma. -/
theorem lively_of_reach (hs : (providerSystem ε cfg owner).Reach (Safe cfg) s) :
    Lively cfg owner s := by
  refine hs.invariant ?_ fun s l t _ h hsafe hst => h.step hsafe hst
  rintro s ⟨now, kind, rfl⟩
  exact lively_fresh

end Runs

section Example

/-- The steps of the execution of one session, and those of its frame. -/
def sampleExecAct (s : ProviderState Unit Bool Unit) :
    ExecAction Bool Unit ⊕ Action Unit → Option (ProviderState Unit Bool Unit)
  | .inl (.interrupt _) | .inl .correct | .inl (.failOutside _) => none
  | .inl a => s.execAct sampleConfig (fun _ => ()) () a
  | .inr a =>
    if internal a then
      (s.adm.act sampleConfig (fun _ => ()) false a).map fun adm => { s with adm := adm }
    else none

theorem sampleExecAct_safe (s : ProviderState Unit Bool Unit)
    (a : ExecAction Bool Unit ⊕ Action Unit) (t : ProviderState Unit Bool Unit)
    (h : sampleExecAct s a = some t) :
    ∃ l, Safe sampleConfig s l ∧
      (providerSystem Unit sampleConfig fun _ : Bool => ()).step s l t := by
  cases a with
  | inl a =>
    refine ⟨.exec () a, ?_, ?_⟩
    · cases a <;> trivial
    · cases a <;> first | exact h | cases h
  | inr a =>
    simp only [sampleExecAct] at h
    split_ifs at h with ha
    exact ⟨.frame false a, trivial, ha, h⟩

/-- Upstream answers the first attempt of a Codex session with an error status; the
session leads the new episode and is about to close the response. -/
def failedFirstAttempt : List (ExecAction Bool Unit ⊕ Action Unit) :=
  [.inl (.openAttempt false), .inr .advance, .inr (.pace 0), .inr .advance, .inl .opened,
    .inl (.fail ⟨true, true, false, false⟩ (.failed () none 0 0)), .inr .advance, .inl .resume]

/-- The lead and the point of the execution, as far as a script shows them. -/
def leadAt (s : ProviderState Unit Bool Unit) : Option (Option Unit × Option ℚ × Bool) :=
  s.adm.episode.map fun e =>
    (e.leader, e.terminalUntil, match (s.exec ()).point with | .ended => true | _ => false)

end Example

end Switchboard.Providers
