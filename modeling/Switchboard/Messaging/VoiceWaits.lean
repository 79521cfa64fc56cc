import Switchboard.Messaging.VoiceOwnership

/-!
# What pending voice notes wait for

A cancellation that drains a handoff task released its entry while no cancellation ran in
the context of that task, so a later one began after the first had the lock. The times of
the locked sections rise along the waits, and no task waits for itself.
-/

namespace Switchboard.Messaging

namespace PendingVoiceRegistry

variable {g : PendingVoiceRegistry} {claim : PendingVoiceClaim}

/-- The cancellations that `_active_cancellations` counts for a claim. -/
def activeCount (g : PendingVoiceRegistry) (claim : PendingVoiceClaim) : ℕ :=
  (g.activeCancellations.get? claim).getD 0

theorem activeCount_protectClaim (context : Option PendingVoiceClaim) :
    (g.protectClaim context).activeCount claim =
      g.activeCount claim + if context = some claim then 1 else 0 := by
  cases context with
  | none => rfl
  | some c =>
    simp only [protectClaim, activeCount, Dict.get?_set, Option.some.injEq]
    by_cases hc : claim = c
    · simp [hc]
    · simp [hc, Ne.symm hc]

theorem activeCount_unprotectClaim (context : Option PendingVoiceClaim) :
    (g.unprotectClaim context).activeCount claim =
      g.activeCount claim - if context = some claim then 1 else 0 := by
  cases context with
  | none => rfl
  | some c =>
    simp only [unprotectClaim, Option.some.injEq]
    split
    · rename_i hnone
      split_ifs with hc
      · simp [activeCount, ← hc, hnone]
      · rfl
    · rename_i n hn
      by_cases hc : claim = c
      · subst hc
        simp only [activeCount, hn, if_true]
        split_ifs with hlast
        · simp
        · rw [Dict.get?_erase_self]
          simp only [ne_eq, not_not] at hlast
          exact hlast.symm
      · simp only [activeCount, if_neg (Ne.symm hc)]
        split_ifs
        · rw [Dict.get?_set_of_ne _ _ hc]
          rfl
        · rw [Dict.get?_erase_of_ne _ hc]
          rfl

theorem activeCancellations_bindStatus (id : String) :
    ((g.bindStatus claim id).2).activeCancellations = g.activeCancellations := by
  unfold bindStatus
  split
  · rfl
  split
  · rfl
  · dsimp only
    split_ifs <;> rfl

theorem activeCancellations_startHandoff :
    ((g.startHandoff claim).2).activeCancellations = g.activeCancellations := by
  unfold startHandoff
  split
  · rfl
  · split_ifs <;> rfl

theorem activeCancellations_releaseOwned :
    ((g.releaseOwned claim).2).activeCancellations = g.activeCancellations := by
  unfold releaseOwned
  split
  · rfl
  · exact activeCancellations_remove

theorem activeCancellations_reserve :
    ((g.reserve claim).2).activeCancellations = g.activeCancellations := by
  unfold reserve
  split_ifs <;> rfl

end PendingVoiceRegistry

namespace VoiceRun

open PendingVoiceRegistry

variable {v : VoiceRun} {claim : PendingVoiceClaim}

/-! ## Times of the cancellations -/

/-- A cancellation in the context of a claim that has not left. -/
def ActiveFor (claim : PendingVoiceClaim) (p : VoiceCancellation) : Prop :=
  p.context = some claim ∧ p.phase ≠ .ended

instance (claim : PendingVoiceClaim) (p : VoiceCancellation) : Decidable (ActiveFor claim p) :=
  inferInstanceAs (Decidable (_ ∧ _))

/-- Cancellations and the times of their locked sections. -/
structure Ordered (v : VoiceRun) : Prop where
  counted : ∀ c, v.registry.activeCount c = v.cancellations.countP fun p => ActiveFor c p
  begun : ∀ p ∈ v.cancellations, p.begun < v.clock
  locked : ∀ p ∈ v.cancellations, ∀ t targets, p.phase = .draining t targets →
    p.begun < t ∧ t < v.clock
  later : ∀ p ∈ v.cancellations, ∀ t targets, p.phase = .draining t targets →
    ∀ c ∈ targets, ∀ q ∈ v.cancellations, ActiveFor c q → t < q.begun

theorem Ordered.init : Ordered {} where
  counted _ := rfl
  begun _ h := nomatch h
  locked _ h := nomatch h
  later _ h := nomatch h

theorem Ordered.congr {v' : VoiceRun} (h : v.Ordered)
    (hactive : v'.registry.activeCancellations = v.registry.activeCancellations)
    (hcancellations : v'.cancellations = v.cancellations) (hclock : v'.clock = v.clock) :
    v'.Ordered where
  counted c := by
    rw [hcancellations, ← h.counted c]
    unfold activeCount
    rw [hactive]
  begun := by
    rw [hcancellations, hclock]
    exact h.begun
  locked := by
    rw [hcancellations, hclock]
    exact h.locked
  later := by
    rw [hcancellations]
    exact h.later

/-- What is not excluded has no cancellation in its context. -/
theorem Ordered.not_activeFor (h : v.Ordered) {context : Option PendingVoiceClaim}
    (hfree : ¬ v.registry.Excluded claim context) {p : VoiceCancellation}
    (hp : p ∈ v.cancellations) : ¬ ActiveFor claim p := by
  intro hactive
  apply hfree
  refine Or.inr ?_
  have hcount := h.counted claim
  unfold activeCount at hcount
  rw [hcount, List.countP_pos_iff]
  exact ⟨p, hp, decide_eq_true hactive⟩

theorem Ordered.of_beginCancel (h : v.Ordered) (context : Option PendingVoiceClaim)
    (request : Request) : (v.beginCancel context request).Ordered := by
  constructor
  · intro c
    simp only [beginCancel, activeCount_protectClaim, h.counted, List.countP_append,
      List.countP_singleton, ActiveFor]
    simp
  · intro p hp
    rcases List.mem_append.mp hp with hp | hp
    · exact (h.begun p hp).trans (Nat.lt_succ_self _)
    · rw [List.mem_singleton.mp hp]
      exact Nat.lt_succ_self _
  · intro p hp t targets hphase
    rcases List.mem_append.mp hp with hp | hp
    · obtain ⟨hbegun, hclock⟩ := h.locked p hp t targets hphase
      exact ⟨hbegun, hclock.trans (Nat.lt_succ_self _)⟩
    · rw [List.mem_singleton.mp hp] at hphase
      cases hphase
  · intro p hp t targets hphase c hc q hq hactive
    rcases List.mem_append.mp hp with hp | hp
    · rcases List.mem_append.mp hq with hq | hq
      · exact h.later p hp t targets hphase c hc q hq hactive
      · rw [List.mem_singleton.mp hq]
        exact (h.locked p hp t targets hphase).2
    · rw [List.mem_singleton.mp hp] at hphase
      cases hphase

theorem countP_set_congr {l : List VoiceCancellation} {i : ℕ} {p q : VoiceCancellation}
    (hi : l[i]? = some p) (hsame : ActiveFor claim q ↔ ActiveFor claim p) :
    (l.set i q).countP (fun p => ActiveFor claim p) = l.countP fun p => ActiveFor claim p := by
  obtain ⟨hlt, hget⟩ := List.getElem?_eq_some_iff.mp hi
  rw [List.countP_set hlt, hget]
  by_cases hp : ActiveFor claim p
  · have hpos : 0 < l.countP fun p => ActiveFor claim p :=
      List.countP_pos_iff.mpr ⟨p, List.mem_of_getElem? hi, decide_eq_true hp⟩
    simp only [decide_eq_true hp, decide_eq_true (hsame.mpr hp), if_true]
    omega
  · have hq : ¬ ActiveFor claim q := fun h => hp (hsame.mp h)
    simp [hp, hq]

theorem Ordered.of_lockCancel (h : v.Ordered) (hindexed : v.registry.WellIndexed) (i : ℕ) :
    (v.lockCancel i).Ordered := by
  unfold lockCancel
  split
  · exact h
  rename_i p hi
  have hp := List.mem_of_getElem? hi
  split_ifs with hwaiting
  · obtain ⟨-, -, hactive, -⟩ :=
      hindexed.foldl_remove (v.registry.targets p.context p.request)
    -- Of the released claims, none had a cancellation in its context.
    have hfree : ∀ c ∈ (v.registry.targets p.context p.request).filter
        (fun c => v.registry.hasTask c), ∀ q ∈ v.cancellations, ¬ ActiveFor c q := by
      intro c hc q hq
      exact h.not_activeFor (hindexed.of_mem_targets (List.mem_filter.mp hc).1).2 hq
    constructor
    · intro c
      refine Eq.trans ?_ ((h.counted c).trans (countP_set_congr hi ?_).symm)
      · exact congrArg (fun d => (d.get? c).getD 0) hactive
      · simp [ActiveFor, hwaiting]
    · intro q hq
      refine lt_of_lt_of_le ?_ (Nat.le_succ _)
      rcases List.mem_or_eq_of_mem_set hq with hq | rfl
      · exact h.begun q hq
      · exact h.begun p hp
    · intro q hq t targets hphase
      rcases List.mem_or_eq_of_mem_set hq with hq | rfl
      · obtain ⟨hbegun, hclock⟩ := h.locked q hq t targets hphase
        exact ⟨hbegun, hclock.trans (Nat.lt_succ_self _)⟩
      · cases hphase
        exact ⟨h.begun p hp, Nat.lt_succ_self _⟩
    · intro q hq t targets hphase c hc r hr hractive
      -- The cancellation that has the lock counted as waiting before.
      have hold : ∃ s ∈ v.cancellations, s.begun = r.begun ∧ ActiveFor c s := by
        rcases List.mem_or_eq_of_mem_set hr with hr | rfl
        · exact ⟨r, hr, rfl, hractive⟩
        · exact ⟨p, hp, rfl, hractive.1, by simp [hwaiting]⟩
      obtain ⟨s, hs, hsbegun, hsactive⟩ := hold
      rcases List.mem_or_eq_of_mem_set hq with hq | rfl
      · rw [← hsbegun]
        exact h.later q hq t targets hphase c hc s hs hsactive
      · cases hphase
        exact absurd hsactive (hfree c hc s hs)
  · exact h

theorem Ordered.of_leaveCancel (h : v.Ordered) {i : ℕ} {p : VoiceCancellation}
    (hi : v.cancellations[i]? = some p) (hphase : p.phase ≠ .ended) :
    (v.leaveCancel i p).Ordered := by
  have hp := List.mem_of_getElem? hi
  constructor
  · intro c
    obtain ⟨hlt, hget⟩ := List.getElem?_eq_some_iff.mp hi
    simp only [leaveCancel, activeCount_unprotectClaim, h.counted, List.countP_set hlt, hget]
    simp [ActiveFor, hphase]
  · intro q hq
    rcases List.mem_or_eq_of_mem_set hq with hq | rfl
    · exact h.begun q hq
    · exact h.begun p hp
  · intro q hq t targets hdraining
    rcases List.mem_or_eq_of_mem_set hq with hq | rfl
    · exact h.locked q hq t targets hdraining
    · cases hdraining
  · intro q hq t targets hdraining c hc r hr hactive
    rcases List.mem_or_eq_of_mem_set hq with hq | rfl
    · rcases List.mem_or_eq_of_mem_set hr with hr | rfl
      · exact h.later q hq t targets hdraining c hc r hr hactive
      · exact absurd rfl hactive.2
    · cases hdraining

theorem Ordered.of_moveFlow (h : v.Ordered) (source target : VoiceFlow) :
    (v.moveFlow claim source target).Ordered := by
  unfold moveFlow
  split_ifs
  · exact h.congr rfl rfl rfl
  · exact h

theorem Ordered.step (h : v.Ordered) (howned : v.Owned) (op : VoiceOp) :
    (op.apply v).Ordered := by
  cases op with
  | reserve c =>
    simp only [VoiceOp.apply, VoiceRun.reserve]
    split
    · exact h
    · rename_i hreserve
      refine h.congr ?_ rfl rfl
      have hactive : ((v.registry.reserve c).2).activeCancellations = _ :=
        activeCancellations_reserve
      rw [hreserve] at hactive
      exact hactive
  | bindStatus c id =>
    have hactive : ((v.registry.bindStatus c id).2).activeCancellations = _ :=
      activeCancellations_bindStatus id
    simp only [VoiceOp.apply, VoiceRun.bindStatus]
    split_ifs
    · split
      all_goals
        rename_i hbound
        rw [hbound] at hactive
        exact h.congr hactive rfl rfl
    · exact h
  | startHandoff c =>
    have hactive : ((v.registry.startHandoff c).2).activeCancellations = _ :=
      activeCancellations_startHandoff
    simp only [VoiceOp.apply, VoiceRun.startHandoff]
    split_ifs
    · split
      all_goals
        rename_i hstarted
        rw [hstarted] at hactive
        exact h.congr hactive rfl rfl
    · exact h
  | fail c => exact h.of_moveFlow _ _
  | taskOver c => exact h.of_moveFlow _ _
  | finish c raised =>
    simp only [VoiceOp.apply, VoiceRun.finish]
    by_cases hflow : v.flow c = some .finishing
    · rw [if_pos hflow]
      exact h.congr activeCancellations_releaseOwned rfl rfl
    · rw [if_neg hflow]
      exact h
  | discard c =>
    simp only [VoiceOp.apply, VoiceRun.discard]
    by_cases hflow : v.flow c = some .discarding
    · rw [if_pos hflow]
      exact h.congr activeCancellations_releaseOwned rfl rfl
    · rw [if_neg hflow]
      exact h
  | drained c => exact h.of_moveFlow _ _
  | beginCancel context request => exact h.of_beginCancel context request
  | lockCancel i => exact h.of_lockCancel howned.indexed i
  | abortCancel i =>
    simp only [VoiceOp.apply, VoiceRun.abortCancel]
    split
    · exact h
    · rename_i hi
      split_ifs with hwaiting
      · exact h.of_leaveCancel hi (by simp [hwaiting])
      · exact h
  | endCancel i =>
    simp only [VoiceOp.apply, VoiceRun.endCancel]
    split
    · exact h
    · rename_i hi
      split
      · rename_i hdraining
        split_ifs
        · exact h.of_leaveCancel hi (by simp [hdraining])
        · exact h
      · exact h

theorem ordered_of_reachable (h : voiceSystem.Reachable v) : v.Ordered := by
  refine System.Reachable.invariant ?_ ?_ h
  · rintro _ rfl
    exact .init
  · rintro s op _ hs hordered ⟨-, rfl⟩
    exact hordered.step (owned_of_reachable hs) op

/-! ## The wait graph -/

inductive VoiceTask where
  /-- The task of `VoiceNoteFlow.handle`. -/
  | flow (claim : PendingVoiceClaim)
  | handoff (claim : PendingVoiceClaim)
  /-- A task outside the registry that runs a cancellation. -/
  | caller (i : ℕ)
deriving DecidableEq

/-- The task that a cancellation runs in. -/
def cancelTask (i : ℕ) (p : VoiceCancellation) : VoiceTask :=
  match p.context with
  | none => .caller i
  | some claim => .handoff claim

/-- One task awaits another. -/
inductive Awaits (v : VoiceRun) : VoiceTask → VoiceTask → Prop
  | flow {c} : v.flow c = some .awaiting ∨ v.flow c = some .draining →
      Awaits v (.flow c) (.handoff c)
  | cancel {i p t targets c} : v.cancellations[i]? = some p → p.phase = .draining t targets →
      c ∈ targets → Awaits v (cancelTask i p) (.handoff c)

/-- A cancellation in the context of one claim drains another since some time. -/
def Drains (v : VoiceRun) (source target : PendingVoiceClaim) (p : VoiceCancellation) (t : ℕ) :
    Prop :=
  p ∈ v.cancellations ∧ p.context = some source ∧ ∃ targets, p.phase = .draining t targets ∧
    target ∈ targets

theorem Awaits.drains {source : PendingVoiceClaim} {y : VoiceTask}
    (h : v.Awaits (.handoff source) y) :
    ∃ target p t, y = .handoff target ∧ v.Drains source target p t := by
  generalize hx : VoiceTask.handoff source = x at h
  cases h with
  | flow _ => cases hx
  | @cancel i p t targets target hi hphase hmem =>
    unfold cancelTask at hx
    split at hx
    · cases hx
    · rename_i hcontext
      cases hx
      exact ⟨target, p, t, rfl, List.mem_of_getElem? hi, hcontext, targets, hphase, hmem⟩

/-- The next cancellation on a path began after the one before it had the lock. -/
theorem Ordered.drains_lt (h : v.Ordered) {a b c : PendingVoiceClaim} {p q : VoiceCancellation}
    {t u : ℕ} (hp : v.Drains a b p t) (hq : v.Drains b c q u) : t < q.begun ∧ q.begun < u := by
  obtain ⟨hpmem, -, targets, hpphase, hb⟩ := hp
  obtain ⟨hqmem, hcontext, qtargets, hqphase, -⟩ := hq
  exact ⟨h.later p hpmem t targets hpphase b hb q hqmem ⟨hcontext, by simp [hqphase]⟩,
    (h.locked q hqmem u qtargets hqphase).1⟩

/-- A path leads from a first cancellation to a last one that had the lock no earlier. -/
theorem Ordered.path (h : v.Ordered) {source : PendingVoiceClaim} {y : VoiceTask}
    (hpath : Relation.TransGen v.Awaits (.handoff source) y) :
    ∃ target, y = .handoff target ∧ ∃ next p t, v.Drains source next p t ∧
      ∃ last q u, v.Drains last target q u ∧ t ≤ u := by
  induction hpath with
  | single hedge =>
    obtain ⟨target, p, t, rfl, hp⟩ := hedge.drains
    exact ⟨target, rfl, target, p, t, hp, source, p, t, hp, le_rfl⟩
  | tail _ hedge ih =>
    obtain ⟨middle, rfl, next, p, t, hp, last, q, u, hq, hle⟩ := ih
    obtain ⟨target, r, w, rfl, hr⟩ := hedge.drains
    obtain ⟨hbegun, hlocked⟩ := h.drains_lt hq hr
    exact ⟨target, rfl, next, p, t, hp, middle, r, w, hr, by omega⟩

/-- No task awaits itself, directly or through others. -/
theorem Ordered.acyclic (h : v.Ordered) (x : VoiceTask) :
    ¬ Relation.TransGen v.Awaits x x := by
  intro hcycle
  -- only handoff tasks are awaited
  have hhandoff : ∃ claim, x = .handoff claim := by
    obtain ⟨_, -, hedge⟩ := Relation.TransGen.tail'_iff.mp hcycle
    cases hedge with
    | flow _ => exact ⟨_, rfl⟩
    | cancel _ _ _ => exact ⟨_, rfl⟩
  obtain ⟨claim, rfl⟩ := hhandoff
  obtain ⟨target, htarget, next, p, t, hp, last, q, u, hq, hle⟩ := h.path hcycle
  cases htarget
  obtain ⟨hbegun, hlocked⟩ := h.drains_lt hq hp
  omega


/-! ## Stale claims -/

/-- The operations that present a claim. -/
def Presents (claim : PendingVoiceClaim) : VoiceOp → Prop
  | .bindStatus c _ | .startHandoff c | .fail c | .taskOver c | .finish c _ | .discard c
  | .drained c => c = claim
  | .beginCancel context _ => context = some claim
  | _ => False

/-- With a claim whose entry is gone, nothing is found and nothing changes. -/
theorem stale_claim (hdead : ¬ v.registry.Live claim) {op : VoiceOp} (hop : Presents claim op) :
    (op.apply v).registry.pending = v.registry.pending ∧
      (op.apply v).registry.objects = v.registry.objects := by
  have hnone : v.registry.entryForClaim claim = none := by
    unfold PendingVoiceRegistry.entryForClaim
    exact if_neg hdead
  have hmove : ∀ source target, (v.moveFlow claim source target).registry = v.registry := by
    intro source target
    unfold moveFlow
    split_ifs <;> rfl
  cases op with
  | reserve c => cases hop
  | bindStatus c id =>
    cases hop
    simp only [VoiceOp.apply, VoiceRun.bindStatus, PendingVoiceRegistry.bindStatus, hnone]
    split_ifs <;> exact ⟨rfl, rfl⟩
  | startHandoff c =>
    cases hop
    simp only [VoiceOp.apply, VoiceRun.startHandoff, PendingVoiceRegistry.startHandoff, hnone]
    split_ifs <;> exact ⟨rfl, rfl⟩
  | fail c =>
    cases hop
    simp only [VoiceOp.apply, hmove, and_self]
  | taskOver c =>
    cases hop
    simp only [VoiceOp.apply, hmove, and_self]
  | finish c raised =>
    cases hop
    simp only [VoiceOp.apply, VoiceRun.finish, releaseOwned, hnone]
    by_cases hflow : v.flow claim = some .finishing
    · rw [if_pos hflow]
      exact ⟨rfl, rfl⟩
    · rw [if_neg hflow]
      exact ⟨rfl, rfl⟩
  | discard c =>
    cases hop
    simp only [VoiceOp.apply, VoiceRun.discard, releaseOwned, hnone]
    by_cases hflow : v.flow claim = some .discarding
    · rw [if_pos hflow]
      exact ⟨rfl, rfl⟩
    · rw [if_neg hflow]
      exact ⟨rfl, rfl⟩
  | drained c =>
    cases hop
    simp only [VoiceOp.apply, hmove, and_self]
  | beginCancel context request =>
    exact ⟨pending_protectClaim context, objects_protectClaim context⟩
  | lockCancel i => cases hop
  | abortCancel i => cases hop
  | endCancel i => cases hop

/-! ## The end of a flow -/

/-- How far a flow is from its end. -/
def flowRank : VoiceFlow → ℕ
  | .preparing => 5
  | .awaiting => 4
  | .finishing => 3
  | .discarding => 2
  | .draining => 1
  | .ended => 0

/-- A flow comes nearer to its end. -/
def Nearer (v v' : VoiceRun) (claim : PendingVoiceClaim) : Prop :=
  ∃ flow flow', v.flow claim = some flow ∧ v'.flow claim = some flow' ∧
    flowRank flow' < flowRank flow

theorem flow_setFlow {w : VoiceRun} {c : PendingVoiceClaim} {source target : VoiceFlow}
    (hw : w.flows = v.flows) (hsource : v.flow c = some source)
    (hrank : flowRank target < flowRank source) :
    (w.setFlow c target).flow claim = v.flow claim ∨ v.Nearer (w.setFlow c target) claim := by
  by_cases hc : claim = c
  · subst hc
    exact Or.inr ⟨source, target, hsource, by simp [setFlow, VoiceRun.flow], hrank⟩
  · refine Or.inl ?_
    simp only [setFlow, VoiceRun.flow, Dict.get?_set_of_ne _ _ hc, hw]

theorem flow_moveFlow (c : PendingVoiceClaim) {source target : VoiceFlow}
    (hrank : flowRank target < flowRank source) :
    (v.moveFlow c source target).flow claim = v.flow claim ∨
      v.Nearer (v.moveFlow c source target) claim := by
  unfold moveFlow
  split_ifs with hsource
  · exact flow_setFlow rfl hsource hrank
  · exact Or.inl rfl

/-- The flow of a reserved claim stays where it is or goes on. -/
theorem Owned.flow_apply (h : v.Owned) {op : VoiceOp} (hproper : op.Proper v)
    (hclaim : (v.flow claim).isSome) :
    (op.apply v).flow claim = v.flow claim ∨ v.Nearer (op.apply v) claim := by
  cases op with
  | reserve c =>
    have hne : claim ≠ c := by
      rintro rfl
      have hsome := h.reserved claim
      rw [hclaim, (hproper : v.registry.objects.get? claim = none)] at hsome
      cases hsome
    refine Or.inl ?_
    simp only [VoiceOp.apply, VoiceRun.reserve, PendingVoiceRegistry.reserve]
    split
    · rfl
    · rename_i made _ hreserve
      split_ifs at hreserve
      · cases hreserve
      · have hmade : c = made := Option.some.inj (Prod.mk.inj hreserve).1
        rw [hmade] at hne
        exact Dict.get?_set_of_ne _ _ hne
  | bindStatus c id =>
    simp only [VoiceOp.apply, VoiceRun.bindStatus]
    split_ifs with hsource
    · split
      · exact Or.inl rfl
      · exact flow_setFlow rfl hsource (by decide)
    · exact Or.inl rfl
  | startHandoff c =>
    simp only [VoiceOp.apply, VoiceRun.startHandoff]
    split_ifs with hsource
    · split
      · exact flow_setFlow rfl hsource (by decide)
      · exact flow_setFlow rfl hsource (by decide)
    · exact Or.inl rfl
  | fail c => exact flow_moveFlow c (by decide)
  | taskOver c => exact flow_moveFlow c (by decide)
  | finish c raised =>
    simp only [VoiceOp.apply, VoiceRun.finish]
    by_cases hsource : v.flow c = some .finishing
    · rw [if_pos hsource]
      refine flow_setFlow rfl hsource ?_
      cases raised <;> decide
    · rw [if_neg hsource]
      exact Or.inl rfl
  | discard c =>
    simp only [VoiceOp.apply, VoiceRun.discard]
    by_cases hsource : v.flow c = some .discarding
    · rw [if_pos hsource]
      refine flow_setFlow rfl hsource ?_
      split_ifs <;> decide
    · rw [if_neg hsource]
      exact Or.inl rfl
  | drained c => exact flow_moveFlow c (by decide)
  | beginCancel context request => exact Or.inl rfl
  | lockCancel i =>
    refine Or.inl ?_
    simp only [VoiceOp.apply, VoiceRun.lockCancel]
    split
    · rfl
    · split_ifs <;> rfl
  | abortCancel i =>
    refine Or.inl ?_
    simp only [VoiceOp.apply, VoiceRun.abortCancel]
    split
    · rfl
    · split_ifs <;> rfl
  | endCancel i =>
    refine Or.inl ?_
    simp only [VoiceOp.apply, VoiceRun.endCancel]
    split
    · rfl
    · split
      · split_ifs <;> rfl
      · rfl

/-- A flow that never stays at a place for good ends, and leaves its claim released. -/
theorem claim_released {states : ℕ → VoiceRun} {ops : ℕ → VoiceOp}
    (h0 : voiceSystem.Reachable (states 0)) (hrun : voiceSystem.Endless states ops)
    (hclaim : ((states 0).flow claim).isSome)
    (hmoves : ∀ n, (states n).flow claim ≠ some .ended →
      ∃ m, n ≤ m ∧ (states (m + 1)).flow claim ≠ (states m).flow claim) :
    ∃ m, claim ∈ (states m).releasedClaims := by
  have howned := fun n => owned_of_reachable (hrun.reachable h0 n)
  have hstep : ∀ n, ((states n).flow claim).isSome →
      (states (n + 1)).flow claim = (states n).flow claim ∨
        (states n).Nearer (states (n + 1)) claim := by
    intro n hn
    obtain ⟨hproper, happly⟩ := hrun n
    rw [happly]
    exact (howned n).flow_apply hproper hn
  have hsome : ∀ n, ((states n).flow claim).isSome := by
    intro n
    induction n with
    | zero => exact hclaim
    | succ n ih =>
      rcases hstep n ih with hsame | ⟨_, _, -, hafter, -⟩
      · rw [hsame]
        exact ih
      · rw [hafter]
        rfl
  let rank : VoiceRun → ℕ := fun s => ((s.flow claim).map flowRank).getD 0
  have hnearer : ∀ {s s' : VoiceRun}, s.Nearer s' claim → rank s' < rank s := by
    rintro s s' ⟨_, _, hbefore, hafter, hlt⟩
    simpa [rank, hbefore, hafter] using hlt
  have hle : ∀ n, rank (states (n + 1)) ≤ rank (states n) := by
    intro n
    rcases hstep n (hsome n) with hsame | hn
    · simp only [rank, hsame, le_refl]
    · exact (hnearer hn).le
  have hends : ∃ m, 0 ≤ m ∧ (states m).flow claim = some .ended := by
    refine System.eventually_of_rank (P := fun s : VoiceRun => s.flow claim = some .ended) rank
      (fun n _ _ => hle n) (fun n hn => ?_) 0
    obtain ⟨m, hm, hmoved⟩ := hmoves n hn
    exact ⟨m, hm, Or.inr (hnearer ((hstep m (hsome m)).resolve_left hmoved))⟩
  obtain ⟨m, -, hend⟩ := hends
  exact ⟨m, (howned m).atEnd claim (Or.inl hend)⟩

end VoiceRun

open VoiceRun PendingVoiceRegistry

/-- A claim is live from its reservation to its only release; at the end of its flow one
owner has released it, and a flow that stays nowhere for good comes to its end. A stale
claim changes no entry, every key of a live entry and no other key leads to it, and the
wait graph has no cycle. -/
theorem voice_claims_owned {v : VoiceRun} (h : voiceSystem.Reachable v) :
    ((∀ claim, v.registry.Live claim ↔
        (v.flow claim).isSome ∧ claim ∉ v.releasedClaims) ∧
      v.releasedClaims.Nodup ∧
      (∀ claim, v.flow claim = some .ended → ∃! owner, (claim, owner) ∈ v.released) ∧
      ∀ states ops claim, states 0 = v → voiceSystem.Endless states ops →
        (v.flow claim).isSome →
        (∀ n, (states n).flow claim ≠ some .ended →
          ∃ m, n ≤ m ∧ (states (m + 1)).flow claim ≠ (states m).flow claim) →
        ∃ m, claim ∈ (states m).releasedClaims) ∧
    (∀ claim newer op, v.registry.Live newer → claim ≠ newer →
      voiceKey claim = voiceKey newer → Presents claim op →
      (op.apply v).registry.pending = v.registry.pending ∧
        (op.apply v).registry.objects = v.registry.objects) ∧
    v.registry.WellIndexed ∧
    ∀ task, ¬ Relation.TransGen v.Awaits task task := by
  have howned := owned_of_reachable h
  refine ⟨⟨howned.live, howned.once, ?_, ?_⟩, ?_, howned.indexed, (ordered_of_reachable h).acyclic⟩
  · intro claim hend
    obtain ⟨⟨c, owner⟩, hmem, hc⟩ := List.mem_map.mp (howned.atEnd claim (Or.inl hend))
    dsimp only at hc
    subst hc
    refine ⟨owner, hmem, fun other hother => ?_⟩
    have hsame := List.inj_on_of_nodup_map howned.once hother hmem rfl
    exact congrArg Prod.snd hsame
  · rintro states ops claim rfl hrun hclaim hmoves
    exact claim_released h hrun hclaim hmoves
  · intro claim newer op hnewer hne hkey hop
    refine stale_claim (fun hlive => ?_) hop
    unfold Live at hlive hnewer
    rw [hkey, hnewer] at hlive
    exact hne (Option.some.inj hlive).symm

section Example

/-- One note is handed off, a second one on another message too, and the first handoff
cancels everything. -/
def drainingRun : VoiceRun :=
  ([.reserve ⟨⟨"telegram", "7"⟩, "10", "a"⟩, .bindStatus ⟨⟨"telegram", "7"⟩, "10", "a"⟩ "11",
    .startHandoff ⟨⟨"telegram", "7"⟩, "10", "a"⟩, .reserve ⟨⟨"telegram", "7"⟩, "20", "b"⟩,
    .bindStatus ⟨⟨"telegram", "7"⟩, "20", "b"⟩ "21",
    .startHandoff ⟨⟨"telegram", "7"⟩, "20", "b"⟩,
    .beginCancel (some ⟨⟨"telegram", "7"⟩, "10", "a"⟩) .all, .lockCancel 0,
    .reserve ⟨⟨"telegram", "7"⟩, "20", "c"⟩] : List VoiceOp).foldl (fun v op => op.apply v) {}

theorem reachable_apply {v : VoiceRun} (h : voiceSystem.Reachable v) (op : VoiceOp)
    (hproper : op.Proper v) : voiceSystem.Reachable (op.apply v) :=
  h.next ⟨hproper, rfl⟩

theorem drainingRun_reachable : voiceSystem.Reachable drainingRun := by
  have h0 : voiceSystem.Reachable {} := .start rfl
  have h1 := reachable_apply h0 (.reserve ⟨⟨"telegram", "7"⟩, "10", "a"⟩) rfl
  have h2 := reachable_apply h1 (.bindStatus ⟨⟨"telegram", "7"⟩, "10", "a"⟩ "11") trivial
  have h3 := reachable_apply h2 (.startHandoff ⟨⟨"telegram", "7"⟩, "10", "a"⟩) trivial
  have h4 := reachable_apply h3 (.reserve ⟨⟨"telegram", "7"⟩, "20", "b"⟩)
    (show Dict.get? _ _ = none by decide)
  have h5 := reachable_apply h4 (.bindStatus ⟨⟨"telegram", "7"⟩, "20", "b"⟩ "21") trivial
  have h6 := reachable_apply h5 (.startHandoff ⟨⟨"telegram", "7"⟩, "20", "b"⟩) trivial
  have h7 := reachable_apply h6 (.beginCancel (some ⟨⟨"telegram", "7"⟩, "10", "a"⟩) .all) trivial
  have h8 := reachable_apply h7 (.lockCancel 0) trivial
  exact reachable_apply h8 (.reserve ⟨⟨"telegram", "7"⟩, "20", "c"⟩)
    (show Dict.get? _ _ = none by decide)

/-- The cancelled claim is stale, and its flow leaves the next note of the message alone. -/
theorem voice_claims_owned_sample :
    drainingRun.releasedClaims = [⟨⟨"telegram", "7"⟩, "20", "b"⟩] ∧
      ((VoiceOp.discard ⟨⟨"telegram", "7"⟩, "20", "b"⟩).apply drainingRun).registry.pending =
        drainingRun.registry.pending ∧
      ¬ Relation.TransGen drainingRun.Awaits (.handoff ⟨⟨"telegram", "7"⟩, "10", "a"⟩)
        (.handoff ⟨⟨"telegram", "7"⟩, "10", "a"⟩) :=
  have h := voice_claims_owned drainingRun_reachable
  ⟨by decide,
    (h.2.1 ⟨⟨"telegram", "7"⟩, "20", "b"⟩ ⟨⟨"telegram", "7"⟩, "20", "c"⟩
      (.discard ⟨⟨"telegram", "7"⟩, "20", "b"⟩) (show Dict.get? _ _ = _ by decide) (by decide)
      rfl rfl).1,
    h.2.2.2 _⟩

end Example

end Switchboard.Messaging
