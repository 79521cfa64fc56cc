import Switchboard.Providers.Executions
import Switchboard.Providers.StickyExhaustion

/-!
# The executions make one call at a time

Whatever is delivered at its awaits, an execution begins `open_attempt` only when its
last call is over, and reports only the outcome of the attempt it opened last. So the
states of a controller that the executions drive are states of `callerSystem`.
-/

namespace Switchboard.Providers

namespace ExecutionPoint

variable {φ : Type}

/-- The frame whose call the execution awaits. -/
def calling? : ExecutionPoint φ → Option φ
  | .opening f | .unwinding f | .reporting f _ => some f
  | _ => none

/-- The frame of the last call, while the execution may still report about it. -/
def holding? : ExecutionPoint φ → Option φ
  | .opening f | .unwinding f | .serving f | .reporting f _ => some f
  | _ => none

def reporting? : ExecutionPoint φ → Option φ
  | .reporting f _ => some f
  | _ => none

end ExecutionPoint

open AdmissionState CallerState

namespace ProviderState

variable {σ φ ε : Type} [DecidableEq σ] [DecidableEq φ] {cfg : AdmissionConfig} {owner : φ → σ}
  {latest : σ → Option φ} {s t : ProviderState σ φ ε} {a u : AdmissionState σ φ ε} {x : σ}
  {f g : φ} {e : Execution φ}

/-- What the executions know about the calls of their sessions. -/
structure Sequential (cfg : AdmissionConfig) (owner : φ → σ) (latest : σ → Option φ)
    (s : ProviderState σ φ ε) : Prop where
  reached : (callerSystem ε cfg owner).Reachable ⟨s.adm, latest⟩
  awaited : ∀ g, (s.adm.pc g).busy = true → (s.exec (owner g)).point.calling? = some g
  last : ∀ x f, (s.exec x).point.holding? = some f → latest x = some f
  reports : ∀ x f, (s.exec x).point.reporting? = some f → (s.adm.pc f).opening = false

theorem Sequential.owner_eq (h : Sequential cfg owner latest s)
    (hf : (s.exec x).point.holding? = some f) : owner f = x :=
  (orderly_of_reachable h.reached).own x f (h.last x f hf)

/-- The execution goes on to another point between two calls. -/
theorem Sequential.setExec (h : Sequential cfg owner latest s)
    (hawait : ∀ g, (s.exec x).point.calling? = some g →
      e.point.calling? = some g ∨ (s.adm.pc g).busy = false)
    (hlast : ∀ f, e.point.holding? = some f → (s.exec x).point.holding? = some f)
    (hreports : ∀ f, e.point.reporting? = some f → (s.exec x).point.reporting? = some f) :
    Sequential cfg owner latest (s.setExec x e) := by
  have hself : (s.setExec x e).exec x = e := Function.update_self _ _ _
  have hother : ∀ {y}, y ≠ x → (s.setExec x e).exec y = s.exec y := fun hy =>
    Function.update_of_ne hy _ _
  refine ⟨h.reached, fun g (hb : (s.adm.pc g).busy = true) => ?_, fun y f hf => ?_,
    fun y f hf => ?_⟩
  · have hg := h.awaited g hb
    by_cases hy : owner g = x
    · rw [hy] at hg
      rw [hy, hself]
      rcases hawait g hg with hsame | hquiet
      · exact hsame
      · rw [hquiet] at hb
        cases hb
    · rwa [hother hy]
  · by_cases hy : y = x
    · subst hy
      rw [hself] at hf
      exact h.last y f (hlast f hf)
    · rw [hother hy] at hf
      exact h.last y f hf
  · by_cases hy : y = x
    · subst hy
      rw [hself] at hf
      exact h.reports y f (hreports f hf)
    · rw [hother hy] at hf
      exact h.reports y f hf

theorem mayCall_of_not {l : Action ε} {s : CallerState σ φ ε} (hl : calls l = false) :
    s.mayCall owner f l = true ∧ s.lastCall owner f l = s.latest := by
  cases l with
  | begin | report => cases hl
  | _ => exact ⟨rfl, rfl⟩

/-- A frame goes on by itself, is closed or cancelled. -/
theorem Sequential.act {l : Action ε} (h : Sequential cfg owner latest s)
    (hl : calls l = false) (hu : s.adm.act cfg owner f l = some u)
    (hopening : (s.adm.pc f).opening = false → (u.pc f).opening = false) :
    Sequential cfg owner latest { s with adm := u } := by
  have hm := moves_act hu
  refine ⟨h.reached.next (l := .frame f l) ?_, fun g hb => ?_, h.last, fun y g hg => ?_⟩
  · show CallerState.act cfg owner ⟨s.adm, latest⟩ f l = some ⟨u, latest⟩
    obtain ⟨hmay, hlast⟩ :=
      @mayCall_of_not _ _ _ _ _ owner f l (⟨s.adm, latest⟩ : CallerState σ φ ε) hl
    simp only [CallerState.act, hmay, if_true, hu, Option.map_some, hlast]
  · refine h.awaited g ?_
    by_cases hgf : g = f
    · subst hgf
      by_contra hs
      have hquiet := busy_act hu hl (Bool.eq_false_iff.mpr hs)
      exact absurd hb (by simp [hquiet])
    · exact (hm g hgf) ▸ hb
  · have hg := h.reports y g hg
    by_cases hgf : g = f
    · subst hgf
      exact hopening hg
    · rwa [show u.pc g = s.adm.pc g from hm g hgf]

/-- The execution calls `open_attempt` for a new frame. -/
theorem Sequential.opens (h : Sequential cfg owner latest s) (hx : owner f = x)
    (hpoint : (s.exec x).point = .preparing) (hu : s.adm.act cfg owner f .begin = some u)
    (he : e.point = .opening f) :
    Sequential cfg owner (Function.update latest x (some f))
      ({ s with adm := u }.setExec x e) := by
  have hm := moves_act hu
  have hO := orderly_of_reachable h.reached
  have hself : ({ s with adm := u }.setExec x e : ProviderState σ φ ε).exec x = e :=
    Function.update_self _ _ _
  have hother : ∀ {y}, y ≠ x →
      ({ s with adm := u }.setExec x e : ProviderState σ φ ε).exec y = s.exec y := fun hy =>
    Function.update_of_ne hy _ _
  have hidle : (s.adm.pc f) = .idle := by
    simp only [AdmissionState.act] at hu
    split at hu
    · assumption
    · cases hu
  refine ⟨h.reached.next (l := .frame f .begin) ?_, fun g hb => ?_, fun y g hg => ?_,
    fun y g hg => ?_⟩
  · show CallerState.act cfg owner ⟨s.adm, latest⟩ f .begin = some _
    have hmay :
        CallerState.mayCall owner (⟨s.adm, latest⟩ : CallerState σ φ ε) f .begin = true := by
      simp only [mayCall, Option.all_eq_true, Bool.not_eq_true']
      intro g hg
      by_contra hb
      have hcall := h.awaited g (Bool.eq_true_of_not_eq_false hb)
      rw [hO.own _ g hg, hx, hpoint] at hcall
      cases hcall
    simp only [CallerState.act, hmay, if_true, hu, Option.map_some, lastCall, hx]
    rfl
  · by_cases hgf : g = f
    · rw [hgf, hx, hself, he]
      rfl
    · have hcall := h.awaited g (hm g hgf ▸ hb)
      by_cases hy : owner g = x
      · rw [hy, hpoint] at hcall
        cases hcall
      · rwa [hother hy]
  · by_cases hy : y = x
    · subst hy
      rw [hself, he] at hg
      cases hg
      exact Function.update_self _ _ _
    · rw [hother hy] at hg
      rw [Function.update_of_ne hy]
      exact h.last y g hg
  · by_cases hy : y = x
    · subst hy
      rw [hself, he] at hg
      cases hg
    · rw [hother hy] at hg
      have hgf : g ≠ f := by
        rintro rfl
        have hown : owner g = y := h.owner_eq (x := y) (by
          cases hp : (s.exec y).point <;> simp_all [ExecutionPoint.reporting?,
            ExecutionPoint.holding?])
        exact hy (hown.symm.trans hx)
      show (u.pc g).opening = false
      rw [hm g hgf]
      exact h.reports y g hg

/-- The execution reports the outcome of the attempt it serves. -/
theorem Sequential.report {r : Report ε} {next : Resumption}
    (h : Sequential cfg owner latest s) (hpoint : (s.exec x).point = .serving f)
    (hu : s.adm.act cfg owner f (.report r) = some u) (he : e.point = .reporting f next) :
    Sequential cfg owner latest ({ s with adm := u }.setExec x e) := by
  have hm := moves_act hu
  have hlast : latest x = some f := h.last x f (by rw [hpoint]; rfl)
  have hx : owner f = x := h.owner_eq (by rw [hpoint]; rfl)
  have hself : ({ s with adm := u }.setExec x e : ProviderState σ φ ε).exec x = e :=
    Function.update_self _ _ _
  have hother : ∀ {y}, y ≠ x →
      ({ s with adm := u }.setExec x e : ProviderState σ φ ε).exec y = s.exec y := fun hy =>
    Function.update_of_ne hy _ _
  refine ⟨h.reached.next (l := .frame f (.report r)) ?_, fun g hb => ?_, fun y g hg => ?_,
    fun y g hg => ?_⟩
  · show CallerState.act cfg owner ⟨s.adm, latest⟩ f (.report r) = some _
    have hmay : CallerState.mayCall owner (⟨s.adm, latest⟩ : CallerState σ φ ε) f (.report r) =
        true := by simp [mayCall, hx, hlast]
    simp only [CallerState.act, hmay, if_true, hu, Option.map_some, lastCall]
    rfl
  · by_cases hgf : g = f
    · rw [hgf, hx, hself, he]
      rfl
    · have hcall := h.awaited g (hm g hgf ▸ hb)
      by_cases hy : owner g = x
      · rw [hy, hpoint] at hcall
        cases hcall
      · rwa [hother hy]
  · by_cases hy : y = x
    · subst hy
      rw [hself, he] at hg
      cases hg
      exact hlast
    · rw [hother hy] at hg
      exact h.last y g hg
  · have hout : (u.pc f).opening = false := by
      simp only [AdmissionState.act] at hu
      split at hu
      · cases hu
        unfold reportOutcome
        split
        · simp [goto, AdmissionPc.opening]
        · split_ifs <;> simp [goto, AdmissionPc.opening]
      · cases hu
    by_cases hgf : g = f
    · subst hgf
      exact hout
    · show (u.pc g).opening = false
      rw [hm g hgf]
      by_cases hy : y = x
      · subst hy
        rw [hself, he] at hg
        exact absurd (Option.some.inj hg).symm hgf
      · rw [hother hy] at hg
        exact h.reports y g hg

/-- A frame that has left `open_attempt` does not come back, and a cancelled report is
over. -/
theorem opening_act {l : Action ε} (hu : a.act cfg owner f l = some u) (hl : calls l = false)
    (hf : (a.pc f).opening = false) :
    (u.pc f).opening = false ∧ (l = .cancel → (u.pc f).busy = false) := by
  cases hpc : a.pc f with
  | attempt p r =>
    cases l <;> cases r <;> simp_all [AdmissionState.act, AdmissionState.advance,
      AdmissionState.cancel, calls] <;> subst hu <;> simp [goto, AdmissionPc.opening]
  | idle | closing | releasing | detached | leaked | ended | reporting =>
    cases l <;> simp_all [AdmissionState.act, AdmissionState.advance, AdmissionState.cancel,
      calls] <;> subst hu <;> simp [goto, AdmissionPc.busy, AdmissionPc.opening]
  | _ => simp [hpc, AdmissionPc.opening] at hf

theorem Sequential.calls {l : Action ε} (h : Sequential cfg owner latest s)
    (ht : s.callAdmission cfg owner x f l e = some t) (hl : AdmissionState.calls l = false)
    (hawait : ∀ u g, s.adm.act cfg owner f l = some u → (s.exec x).point.calling? = some g →
      e.point.calling? = some g ∨ (u.pc g).busy = false)
    (hlast : ∀ g, e.point.holding? = some g → (s.exec x).point.holding? = some g)
    (hreports : ∀ g, e.point.reporting? = some g → (s.exec x).point.reporting? = some g) :
    Sequential cfg owner latest t := by
  obtain ⟨u, hu, rfl⟩ := Option.map_eq_some_iff.mp ht
  exact (h.act hl hu fun hf => (opening_act hu hl hf).1).setExec (fun g => hawait u g hu) hlast
    hreports

theorem Sequential.leave (h : Sequential cfg owner latest s)
    (hquiet : ∀ g, (s.exec x).point.calling? = some g → (s.adm.pc g).busy = false)
    (he : e.point.holding? = none) : Sequential cfg owner latest (s.setExec x e) := by
  refine h.setExec (fun g hg => .inr (hquiet g hg)) (fun g hg => ?_) (fun g hg => ?_)
  · rw [he] at hg
    cases hg
  · cases hp : e.point <;> simp_all [ExecutionPoint.holding?, ExecutionPoint.reporting?]

omit [DecidableEq φ] in
theorem leaveTo_holding : e.leaveTo.point.holding? = none := by
  unfold Execution.leaveTo
  split <;> rfl

omit [DecidableEq φ] in
theorem proceed_holding {v : Verdict} : (e.proceed f v).point.holding? = none := by
  unfold Execution.proceed
  split <;> rfl

omit [DecidableEq φ] in
theorem nextRound_holding {v : Verdict} : (e.nextRound v).point.holding? = none := by
  unfold Execution.nextRound
  split
  · rfl
  · split <;> rfl
  · exact leaveTo_holding
  · exact leaveTo_holding

theorem Sequential.interrupt {cancelled : Bool} (h : Sequential cfg owner latest s)
    (ht : s.interrupt cfg owner x cancelled = some t) : Sequential cfg owner latest t := by
  unfold ProviderState.interrupt at ht
  dsimp only at ht
  split at ht
  case h_1 hp =>
    split_ifs at ht
    cases ht
    exact h.leave (by simp [hp, ExecutionPoint.calling?]) rfl
  case h_2 f hp | h_3 f hp =>
    split_ifs at ht
    refine h.calls ht rfl (fun u g _ hg => .inl ?_) (fun g hg => ?_) (fun g hg => ?_)
    · rw [hp] at hg
      exact hg
    · rw [hp]
      exact hg
    · cases hg
  case h_4 f hp =>
    split_ifs at ht
    cases ht
    exact h.leave (by simp [hp, ExecutionPoint.calling?]) rfl
  case h_5 f next hp =>
    split_ifs at ht
    refine h.calls ht rfl (fun u g hu hg => .inr ?_) (fun g hg => by cases hg)
      (fun g hg => by cases hg)
    rw [hp] at hg
    obtain rfl := Option.some.inj hg
    exact (opening_act hu rfl (h.reports x f (by rw [hp]; rfl))).2 rfl
  case h_6 f v hp =>
    split_ifs at ht
    · exact h.calls ht rfl (fun u g _ hg => by simp [hp, ExecutionPoint.calling?] at hg)
        (fun g hg => by cases hg) (fun g hg => by cases hg)
    · cases ht
      exact h.leave (by simp [hp, ExecutionPoint.calling?]) leaveTo_holding
  case h_7 f v hp =>
    split_ifs at ht
    refine h.calls ht rfl (fun u g _ hg => by simp [hp, ExecutionPoint.calling?] at hg)
      (fun g hg => ?_) (fun g hg => ?_)
    · rw [leaveTo_holding] at hg
      cases hg
    · have hnone : ((s.exec x).leaveTo).point.holding? = none := leaveTo_holding
      cases hq : ((s.exec x).leaveTo).point <;>
        simp_all [ExecutionPoint.holding?, ExecutionPoint.reporting?]
  case h_8 | h_9 => cases ht

theorem Sequential.resume (h : Sequential cfg owner latest s)
    (ht : s.resume cfg owner x = some t) : Sequential cfg owner latest t := by
  have hone : ∀ {f}, (s.exec x).point.calling? = some f → (s.adm.pc f).busy = false →
      ∀ g, (s.exec x).point.calling? = some g → (s.adm.pc g).busy = false := by
    intro f hf hquiet g hg
    obtain rfl := Option.some.inj (hf.symm.trans hg)
    exact hquiet
  unfold ProviderState.resume at ht
  dsimp only at ht
  split at ht
  case h_1 f hp =>
    split at ht
    case h_1 hpc | h_2 hpc =>
      cases ht
      exact h.leave (hone (f := f) (by rw [hp]; rfl) (by rw [hpc]; rfl)) leaveTo_holding
    case h_3 => cases ht
  case h_2 f next hp =>
    split at ht
    case h_1 hpc =>
      have hquiet := hone (f := f) (by rw [hp]; rfl) (by rw [hpc]; rfl)
      split at ht
      case h_1 =>
        cases ht
        exact h.setExec (fun g hg => .inr (hquiet g hg)) (fun g hg => by rw [hp]; exact hg)
          (fun g hg => by cases hg)
      case h_2 | h_3 =>
        cases ht
        exact h.leave hquiet proceed_holding
    case h_2 => cases ht
  case h_3 f v hp =>
    exact h.calls ht rfl (fun u g _ hg => by simp [hp, ExecutionPoint.calling?] at hg)
      (fun g hg => by cases hg) (fun g hg => by cases hg)
  case h_4 f v hp =>
    split at ht
    case h_1 =>
      cases ht
      exact h.leave (by simp [hp, ExecutionPoint.calling?]) nextRound_holding
    case h_2 => cases ht
  case h_5 => cases ht

/-- A step of an execution. -/
theorem Sequential.execAct {a : ExecAction φ ε} (h : Sequential cfg owner latest s)
    (ht : s.execAct cfg owner x a = some t) :
    ∃ latest', Sequential cfg owner latest' t := by
  have hidle : ∀ {e : Execution φ}, (s.exec x).point.calling? = none → e.point.holding? = none →
      Sequential cfg owner latest (s.setExec x e) := fun hp he =>
    h.leave (fun g hg => by rw [hp] at hg; cases hg) he
  cases a with
  | interrupt cancelled => exact ⟨latest, h.interrupt ht⟩
  | resume => exact ⟨latest, h.resume ht⟩
  | openAttempt f =>
    simp only [ProviderState.execAct] at ht
    split at ht
    · next hp =>
      split_ifs at ht with hguard
      obtain ⟨u, hu, rfl⟩ := Option.map_eq_some_iff.mp ht
      exact ⟨_, h.opens hguard.1 hp hu rfl⟩
    · cases ht
  | exhaust =>
    simp only [ProviderState.execAct] at ht
    split at ht
    · next hp =>
      split_ifs at ht
      cases ht
      exact ⟨latest, hidle (by rw [hp]; rfl) leaveTo_holding⟩
    · cases ht
  | opened =>
    simp only [ProviderState.execAct] at ht
    split at ht
    · next f hp =>
      split at ht
      · next hpc =>
        cases ht
        refine ⟨latest, h.setExec (fun g hg => .inr ?_) (fun g hg => by rw [hp]; exact hg)
          (fun g hg => by cases hg)⟩
        rw [hp] at hg
        obtain rfl := Option.some.inj hg
        rw [hpc]
        rfl
      · cases ht
    · cases ht
  | refused =>
    simp only [ProviderState.execAct] at ht
    split at ht
    · next f hp =>
      split at ht
      · next hpc =>
        cases ht
        refine ⟨latest, h.leave (fun g hg => ?_) leaveTo_holding⟩
        rw [hp] at hg
        obtain rfl := Option.some.inj hg
        rw [hpc]
        rfl
      · cases ht
    · cases ht
  | served =>
    simp only [ProviderState.execAct] at ht
    split at ht
    · cases ht
      exact ⟨latest, h.setExec (fun g hg => .inl hg) (fun g hg => hg) (fun g hg => hg)⟩
    · cases ht
  | commit =>
    simp only [ProviderState.execAct] at ht
    split at ht
    · cases ht
      exact ⟨latest, h.setExec (fun g hg => .inl hg) (fun g hg => hg) (fun g hg => hg)⟩
    · cases ht
      exact ⟨latest, h.setExec (fun g hg => .inl hg) (fun g hg => hg) (fun g hg => hg)⟩
    · cases ht
  | accept =>
    simp only [ProviderState.execAct] at ht
    split at ht
    · next f hp =>
      split_ifs at ht
      obtain ⟨u, hu, rfl⟩ := Option.map_eq_some_iff.mp ht
      exact ⟨latest, h.report hp hu rfl⟩
    · cases ht
  | correct =>
    simp only [ProviderState.execAct] at ht
    split at ht
    · next f hp =>
      split_ifs at ht
      obtain ⟨u, hu, rfl⟩ := Option.map_eq_some_iff.mp ht
      exact ⟨latest, h.report hp hu rfl⟩
    · cases ht
  | fail failure report =>
    simp only [ProviderState.execAct] at ht
    split at ht
    · next f hp =>
      split_ifs at ht
      · obtain ⟨u, hu, rfl⟩ := Option.map_eq_some_iff.mp ht
        exact ⟨latest, h.report hp hu rfl⟩
      · cases ht
        exact ⟨latest, hidle (by rw [hp]; rfl) proceed_holding⟩
    · cases ht
  | failOutside streamRetryable =>
    simp only [ProviderState.execAct] at ht
    split at ht
    · next hp =>
      split_ifs at ht
      · cases ht
        exact ⟨latest, h⟩
      · cases ht
        exact ⟨latest, hidle (by rw [hp]; rfl) rfl⟩
    · cases ht
  | finish =>
    simp only [ProviderState.execAct] at ht
    split at ht
    · next f hp =>
      split_ifs at ht
      cases ht
      exact ⟨latest, hidle (by rw [hp]; rfl) rfl⟩
    · cases ht
  | collect =>
    simp only [ProviderState.execAct] at ht
    split at ht
    · next hp =>
      split_ifs at ht
      cases ht
      exact ⟨latest, hidle (by rw [hp]; rfl) rfl⟩
    · cases ht
  | settle =>
    simp only [ProviderState.execAct] at ht
    split at ht
    · next hp =>
      cases ht
      exact ⟨latest, hidle (by rw [hp]; rfl) leaveTo_holding⟩
    · cases ht

/-- The run lemma, and the refinement: the controller of a provider state is one whose
sessions make one call at a time. -/
theorem sequential_of_reachable (hs : (providerSystem ε cfg owner).Reachable s) :
    ∃ latest, Sequential cfg owner latest s := by
  refine System.Reachable.invariant (P := fun s => ∃ latest, Sequential cfg owner latest s)
    ?_ ?_ hs
  · rintro _ ⟨now, kind, rfl⟩
    refine ⟨fun _ => none, .start ⟨now, rfl⟩, ?_, ?_, ?_⟩
    · simp [ProviderState.fresh, AdmissionState.fresh, AdmissionPc.busy, AdmissionPc.opening]
    · simp [ProviderState.fresh, ExecutionPoint.holding?]
    · simp [ProviderState.fresh, ExecutionPoint.reporting?]
  · rintro s l t - ⟨latest, h⟩ hst
    cases l with
    | exec x a => exact h.execAct hst
    | frame f a =>
      obtain ⟨ha, hmap⟩ := hst
      obtain ⟨u, hu, rfl⟩ := Option.map_eq_some_iff.mp hmap
      have hl : AdmissionState.calls a = false := by
        cases a with
        | begin | report => cases ha
        | _ => rfl
      exact ⟨latest, h.act hl hu fun hf => (opening_act hu hl hf).1⟩
    | tick elapsed =>
      obtain ⟨helapsed, rfl⟩ := hst
      exact ⟨latest, h.reached.next (l := .tick elapsed) ⟨helapsed, rfl⟩, h.awaited, h.last,
        h.reports⟩

/-- The executions drive their controller as `callerSystem` demands. -/
theorem callers_of_reachable (hs : (providerSystem ε cfg owner).Reachable s) :
    ∃ latest, (callerSystem ε cfg owner).Reachable ⟨s.adm, latest⟩ :=
  (sequential_of_reachable hs).imp fun _ h => h.reached

end ProviderState

end Switchboard.Providers
