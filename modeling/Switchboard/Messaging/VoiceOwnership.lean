import Switchboard.Messaging.Voice

/-!
# Owners of pending voice notes

Both keys of an entry lead to it while it is live and neither does afterwards. A claim is
live from its reservation until its first and only release, which the flow of the claim
waits for.
-/

namespace Switchboard.Messaging

namespace PendingVoiceRegistry

variable {g : PendingVoiceRegistry} {claim other : PendingVoiceClaim}

/-- The entry of a claim can be found. -/
def Live (g : PendingVoiceRegistry) (claim : PendingVoiceClaim) : Prop :=
  g.pending.get? (voiceKey claim) = some claim

/-- A key of the entry of a claim. -/
def IsKey (g : PendingVoiceRegistry) (claim : PendingVoiceClaim)
    (key : MessageScope × String) : Prop :=
  ∃ entry, g.objects.get? claim = some entry ∧
    (key = voiceKey claim ∨ ∃ id ∈ entry.statusMessageId, key = (claim.scope, id))

/-- The keys that lead to an entry are all its keys, or none. -/
structure WellIndexed (g : PendingVoiceRegistry) : Prop where
  live : ∀ key claim, g.pending.get? key = some claim → g.Live claim
  isKey : ∀ key claim, g.pending.get? key = some claim → g.IsKey claim key
  leads : ∀ key claim, g.Live claim → g.IsKey claim key → g.pending.get? key = some claim

theorem entryForClaim_eq_some {entry : PendingVoice} :
    g.entryForClaim claim = some entry ↔ g.Live claim ∧ g.objects.get? claim = some entry := by
  unfold entryForClaim Live
  split_ifs with h
  · simp [h]
  · simp [h]

theorem WellIndexed.entryForClaim_eq_none (h : g.WellIndexed) :
    g.entryForClaim claim = none ↔ ¬ g.Live claim := by
  constructor
  · intro hnone hlive
    obtain ⟨entry, hentry, -⟩ := h.isKey _ _ hlive
    have hsome := entryForClaim_eq_some.mpr ⟨hlive, hentry⟩
    rw [hnone] at hsome
    cases hsome
  · intro hdead
    unfold entryForClaim
    exact if_neg hdead

theorem WellIndexed.empty : WellIndexed {} where
  live _ _ h := by cases h
  isKey _ _ h := by cases h
  leads _ _ h := by cases h

/-! ## Reservation -/

theorem WellIndexed.of_reserve (h : g.WellIndexed) (hfresh : g.objects.get? claim = none) :
    ((g.reserve claim).2).WellIndexed := by
  have hunkeyed : ∀ key, g.pending.get? key ≠ some claim := by
    intro key hkey
    obtain ⟨entry, hentry, -⟩ := h.isKey _ _ hkey
    rw [hfresh] at hentry
    cases hentry
  unfold reserve
  split_ifs with hmem
  · exact h
  have hnone : g.pending.get? (voiceKey claim) = none := by
    simpa [Dict.contains] using hmem
  have hne : ∀ {key c}, g.pending.get? key = some c → key ≠ voiceKey claim := by
    rintro key c hkey rfl
    rw [hnone] at hkey
    cases hkey
  constructor
  · intro key c hkey
    simp only [Live, Dict.get?_set] at hkey ⊢
    split_ifs at hkey with hk
    · cases hkey
      simp
    · rw [if_neg (hne (h.live _ _ hkey))]
      exact h.live _ _ hkey
  · intro key c hkey
    simp only [IsKey, Dict.get?_set] at hkey ⊢
    split_ifs at hkey with hk
    · cases hkey
      exact ⟨{}, by simp, Or.inl hk⟩
    · have hc : c ≠ claim := by
        rintro rfl
        exact hunkeyed _ hkey
      rw [if_neg hc]
      exact h.isKey _ _ hkey
  · intro key c hlive hkey
    simp only [Live, IsKey, Dict.get?_set] at hlive hkey ⊢
    by_cases hc : c = claim
    · subst hc
      obtain ⟨entry, hentry, hkey⟩ := hkey
      rw [if_pos rfl] at hentry
      cases hentry
      rcases hkey with rfl | ⟨_, hid, -⟩
      · exact if_pos rfl
      · cases hid
    · rw [if_neg hc] at hkey
      split_ifs at hlive with hv
      · cases hlive
        exact absurd rfl hc
      · have := h.leads _ _ hlive hkey
        rw [if_neg (hne this)]
        exact this

theorem reserve_eq_none : (g.reserve claim).1 = none ↔ g.pending.contains (voiceKey claim) := by
  unfold reserve
  split_ifs with h <;> simp [h]

/-! ## Registration of the status message -/

theorem WellIndexed.of_bindStatus (h : g.WellIndexed) (id : String) :
    ((g.bindStatus claim id).2).WellIndexed := by
  unfold bindStatus
  split
  · exact h
  rename_i entry hentry
  obtain ⟨hlive, hobject⟩ := entryForClaim_eq_some.mp hentry
  split
  · exact h
  rename_i hunbound
  dsimp only
  split_ifs with hused
  · exact h
  -- Whatever was under the status key was this entry.
  have hkept : ∀ {key c}, g.pending.get? key = some c →
      (g.pending.set (claim.scope, id) claim).get? key = some c := by
    intro key c hkey
    rw [Dict.get?_set]
    split_ifs with hk
    · subst hk
      by_contra hne
      exact hused ⟨c, hkey, fun heq => hne (by rw [heq])⟩
    · exact hkey
  constructor
  · intro key c hkey
    rw [Dict.get?_set] at hkey
    split_ifs at hkey with hk
    · cases hkey
      exact hkept hlive
    · exact hkept (h.live _ _ hkey)
  · intro key c hkey
    simp only [IsKey, Dict.get?_modify] at hkey ⊢
    rw [Dict.get?_set] at hkey
    split_ifs at hkey with hk
    · cases hkey
      rw [if_pos rfl, hobject]
      exact ⟨_, rfl, Or.inr ⟨id, rfl, hk⟩⟩
    · obtain ⟨e, he, hkeys⟩ := h.isKey _ _ hkey
      split_ifs with hc
      · subst hc
        rw [hobject] at he ⊢
        cases he
        refine ⟨_, rfl, Or.inl ?_⟩
        rcases hkeys with hv | ⟨_, hs, -⟩
        · exact hv
        · rw [hunbound] at hs
          cases hs
      · exact ⟨e, he, hkeys⟩
  · intro key c hclive hkey
    simp only [IsKey, Live, Dict.get?_modify] at hkey hclive ⊢
    by_cases hc : c = claim
    · subst hc
      rw [if_pos rfl, hobject] at hkey
      obtain ⟨e, he, rfl | ⟨s, hs, rfl⟩⟩ := hkey
      · exact hkept hlive
      · cases he
        cases hs
        exact Dict.get?_set_self _ _ _
    · rw [if_neg hc] at hkey
      rw [Dict.get?_set] at hclive
      split_ifs at hclive with hk
      · cases hclive
        exact absurd rfl hc
      · exact hkept (h.leads _ _ hclive hkey)

/-! ## Handoff -/

/-- Only the pending keys and the status messages matter. -/
theorem WellIndexed.congr {g' : PendingVoiceRegistry} (h : g.WellIndexed)
    (hpending : g'.pending = g.pending)
    (hobjects : ∀ c, (g'.objects.get? c).map (·.statusMessageId) =
      (g.objects.get? c).map (·.statusMessageId)) : g'.WellIndexed := by
  have hisKey : ∀ c key, g'.IsKey c key ↔ g.IsKey c key := by
    intro c key
    have hc := hobjects c
    unfold IsKey
    cases hg : g.objects.get? c <;> cases hg' : g'.objects.get? c <;> simp_all
  constructor
  · intro key c hkey
    unfold Live
    rw [hpending] at hkey ⊢
    exact h.live key c hkey
  · intro key c hkey
    rw [hpending] at hkey
    exact (hisKey c key).mpr (h.isKey key c hkey)
  · intro key c hlive hkey
    unfold Live at hlive
    rw [hpending] at hlive ⊢
    exact h.leads key c hlive ((hisKey c key).mp hkey)

theorem WellIndexed.of_startHandoff (h : g.WellIndexed) :
    ((g.startHandoff claim).2).WellIndexed := by
  unfold startHandoff
  split
  · exact h
  split_ifs
  · exact h
  · refine h.congr rfl fun c => ?_
    simp only [Dict.get?_modify]
    split_ifs with hc
    · subst hc
      cases g.objects.get? c <;> rfl
    · rfl

/-! ## Release -/

theorem get?_popKey (pending : Dict (MessageScope × String) PendingVoiceClaim)
    (key k : MessageScope × String) (claim : PendingVoiceClaim) :
    (popKey pending key claim).get? k =
      if k = key ∧ pending.get? k = some claim then none else pending.get? k := by
  unfold popKey
  split_ifs with hkey hk hk
  · rw [hk.1, Dict.get?_erase_self]
  · rw [Dict.get?_erase]
    split_ifs with heq
    · exact absurd ⟨heq, heq ▸ hkey⟩ hk
    · rfl
  · exact absurd (hk.1 ▸ hk.2) hkey
  · rfl

@[simp] theorem objects_remove : (g.remove claim).objects = g.objects := by
  unfold remove
  dsimp only
  split <;> rfl

@[simp] theorem activeCancellations_remove :
    (g.remove claim).activeCancellations = g.activeCancellations := by
  unfold remove
  dsimp only
  split <;> rfl

/-- Releasing an entry removes all its keys and no other. -/
theorem WellIndexed.get?_remove (h : g.WellIndexed) (key : MessageScope × String) :
    (g.remove claim).pending.get? key =
      if g.pending.get? key = some claim then none else g.pending.get? key := by
  have hkeys : g.pending.get? key = some claim → g.IsKey claim key := h.isKey _ _
  unfold remove
  dsimp only
  split
  · rename_i hstatus
    rw [get?_popKey]
    by_cases hkey : g.pending.get? key = some claim
    · obtain ⟨entry, hentry, hv | ⟨id, hid, -⟩⟩ := hkeys hkey
      · rw [if_pos ⟨hv, hkey⟩, if_pos hkey]
      · rw [hentry] at hstatus
        rw [Option.bind_some] at hstatus
        rw [hstatus] at hid
        cases hid
    · rw [if_neg (fun hk => hkey hk.2), if_neg hkey]
  · rename_i statusMessageId hstatus
    have hpop := get?_popKey g.pending (voiceKey claim) key claim
    by_cases hkey : g.pending.get? key = some claim
    · rw [if_pos hkey]
      by_cases hv : key = voiceKey claim
      · rw [if_pos ⟨hv, hkey⟩] at hpop
        rw [get?_popKey, hpop]
        exact ite_self _
      · rw [if_neg (fun hk => hv hk.1), hkey] at hpop
        obtain ⟨entry, hentry, hk | ⟨id, hid, hk⟩⟩ := hkeys hkey
        · exact absurd hk hv
        · rw [hentry, Option.bind_some] at hstatus
          rw [hstatus] at hid
          cases hid
          rw [get?_popKey, hpop, if_pos ⟨hk, rfl⟩]
    · rw [if_neg (fun hk => hkey hk.2)] at hpop
      rw [if_neg hkey, get?_popKey, hpop, if_neg (fun hk => hkey hk.2)]

theorem WellIndexed.live_remove (h : g.WellIndexed) :
    (g.remove claim).Live other ↔ g.Live other ∧ other ≠ claim := by
  unfold Live
  rw [h.get?_remove]
  split_ifs with hk
  · constructor
    · intro hnone
      cases hnone
    · rintro ⟨hlive, hne⟩
      rw [hk] at hlive
      cases hlive
      exact absurd rfl hne
  · constructor
    · intro hlive
      refine ⟨hlive, ?_⟩
      rintro rfl
      exact hk hlive
    · exact And.left

theorem WellIndexed.of_remove (h : g.WellIndexed) : (g.remove claim).WellIndexed := by
  have hkept : ∀ {key c}, (g.remove claim).pending.get? key = some c →
      g.pending.get? key = some c ∧ c ≠ claim := by
    intro key c hkey
    rw [h.get?_remove] at hkey
    split_ifs at hkey with hk
    refine ⟨hkey, ?_⟩
    rintro rfl
    exact hk hkey
  constructor
  · intro key c hkey
    obtain ⟨hold, hne⟩ := hkept hkey
    exact h.live_remove.mpr ⟨h.live _ _ hold, hne⟩
  · intro key c hkey
    unfold IsKey
    rw [objects_remove]
    exact h.isKey _ _ (hkept hkey).1
  · intro key c hlive hkey
    obtain ⟨hlive, hne⟩ := h.live_remove.mp hlive
    unfold IsKey at hkey
    rw [objects_remove] at hkey
    have hold := h.leads _ _ hlive hkey
    rw [h.get?_remove, hold, if_neg]
    intro heq
    cases heq
    exact hne rfl

/-- Releasing the entries of a list. -/
theorem WellIndexed.foldl_remove (claims : List PendingVoiceClaim) (h : g.WellIndexed) :
    (claims.foldl remove g).WellIndexed ∧ (claims.foldl remove g).objects = g.objects ∧
      (claims.foldl remove g).activeCancellations = g.activeCancellations ∧
      ∀ c, (claims.foldl remove g).Live c ↔ g.Live c ∧ c ∉ claims := by
  induction claims generalizing g with
  | nil => simp [h]
  | cons claim claims ih =>
    have hremoved : (g.remove claim).WellIndexed := h.of_remove
    obtain ⟨hindexed, hobjects, hactive, hlive⟩ := ih hremoved
    rw [List.foldl_cons]
    refine ⟨hindexed, by rw [hobjects, objects_remove],
      by rw [hactive, activeCancellations_remove], fun c => ?_⟩
    rw [hlive, h.live_remove, List.mem_cons]
    tauto

theorem WellIndexed.of_releaseOwned (h : g.WellIndexed) (claim : PendingVoiceClaim) :
    ((g.releaseOwned claim).2).WellIndexed ∧ ((g.releaseOwned claim).2).objects = g.objects ∧
      ((g.releaseOwned claim).1 = true ↔ g.Live claim) ∧
      ∀ c, ((g.releaseOwned claim).2).Live c ↔ g.Live c ∧ c ≠ claim := by
  unfold releaseOwned
  split
  · rename_i hnone
    have hdead := h.entryForClaim_eq_none.mp hnone
    refine ⟨h, rfl, by simp [hdead], fun c => ⟨fun hc => ⟨hc, ?_⟩, And.left⟩⟩
    rintro rfl
    exact hdead hc
  · rename_i hsome
    exact ⟨h.of_remove, objects_remove, by simp [(entryForClaim_eq_some.mp hsome).1],
      fun _ => h.live_remove⟩

/-! ## Selection -/

theorem nodup_eraseDups : ∀ l : List PendingVoiceClaim, l.eraseDups.Nodup
  | [] => List.nodup_nil
  | c :: l => by
    rw [List.eraseDups_cons, List.nodup_cons, List.mem_eraseDups]
    exact ⟨by simp, nodup_eraseDups (l.filter fun b => !b == c)⟩
termination_by l => l.length
decreasing_by exact Nat.lt_succ_of_le (List.length_filter_le _ _)

/-- What a cancellation releases is live and is not excluded. -/
theorem WellIndexed.of_mem_targets (h : g.WellIndexed) {context : Option PendingVoiceClaim}
    {request : Request} (hmem : claim ∈ g.targets context request) :
    g.Live claim ∧ ¬ g.Excluded claim context := by
  cases request with
  | reply scope replyId =>
    simp only [targets, List.mem_filter, Option.mem_toList, decide_eq_true_eq] at hmem
    exact ⟨h.live _ _ hmem.1, hmem.2⟩
  | scope scope =>
    simp only [targets, List.mem_eraseDups, List.mem_map, List.mem_filter,
      decide_eq_true_eq] at hmem
    obtain ⟨⟨key, c⟩, ⟨hentry, -, hexcluded⟩, rfl⟩ := hmem
    exact ⟨h.live _ _ (Dict.get?_eq_some.mpr hentry), hexcluded⟩
  | all =>
    simp only [targets, List.mem_eraseDups, List.mem_map, List.mem_filter,
      decide_eq_true_eq] at hmem
    obtain ⟨⟨key, c⟩, ⟨hentry, hexcluded⟩, rfl⟩ := hmem
    exact ⟨h.live _ _ (Dict.get?_eq_some.mpr hentry), hexcluded⟩

theorem targets_nodup (context : Option PendingVoiceClaim) (request : Request) :
    (g.targets context request).Nodup := by
  cases request with
  | reply scope replyId =>
    refine List.Nodup.filter _ ?_
    cases g.pending.get? (scope, replyId) <;> simp
  | scope scope => exact nodup_eraseDups _
  | all => exact nodup_eraseDups _

theorem live_bindStatus (id : String) :
    ((g.bindStatus claim id).2).Live other ↔ g.Live other := by
  unfold bindStatus
  split
  · exact Iff.rfl
  rename_i entry hentry
  obtain ⟨hlive, -⟩ := entryForClaim_eq_some.mp hentry
  split
  · exact Iff.rfl
  dsimp only
  split_ifs with hused
  · exact Iff.rfl
  simp only [Live, Dict.get?_set]
  split_ifs with hkey
  · constructor
    · intro heq
      cases heq
      exact hlive
    · intro hother
      by_contra hne
      exact hused ⟨other, by rw [← hkey]; exact hother, fun heq => hne (by rw [heq])⟩
  · exact Iff.rfl

theorem isSome_objects_bindStatus (id : String) :
    (((g.bindStatus claim id).2).objects.get? other).isSome = (g.objects.get? other).isSome := by
  unfold bindStatus
  split
  · rfl
  split
  · rfl
  dsimp only
  split_ifs
  · rfl
  · rw [Dict.get?_modify]
    split_ifs with hc
    · rw [hc, Option.isSome_map]
    · rfl

theorem isSome_objects_startHandoff :
    (((g.startHandoff claim).2).objects.get? other).isSome = (g.objects.get? other).isSome := by
  unfold startHandoff
  split
  · rfl
  split_ifs
  · rfl
  · dsimp only
    rw [Dict.get?_modify]
    split_ifs with hc
    · rw [hc, Option.isSome_map]
    · rfl

theorem pending_startHandoff : (g.startHandoff claim).2.pending = g.pending := by
  unfold startHandoff
  split
  · rfl
  · split_ifs <;> rfl

@[simp] theorem pending_protectClaim (context : Option PendingVoiceClaim) :
    (g.protectClaim context).pending = g.pending := by
  unfold protectClaim
  split <;> rfl

@[simp] theorem objects_protectClaim (context : Option PendingVoiceClaim) :
    (g.protectClaim context).objects = g.objects := by
  unfold protectClaim
  split <;> rfl

@[simp] theorem pending_unprotectClaim (context : Option PendingVoiceClaim) :
    (g.unprotectClaim context).pending = g.pending := by
  unfold unprotectClaim
  split
  · rfl
  · split <;> rfl

@[simp] theorem objects_unprotectClaim (context : Option PendingVoiceClaim) :
    (g.unprotectClaim context).objects = g.objects := by
  unfold unprotectClaim
  split
  · rfl
  · split <;> rfl

end PendingVoiceRegistry

/-! ## Releases over a run -/

namespace VoiceRun

open PendingVoiceRegistry

variable {v : VoiceRun} {claim : PendingVoiceClaim}

/-- The claims that have been released, in order. -/
def releasedClaims (v : VoiceRun) : List PendingVoiceClaim := v.released.map Prod.fst

structure Owned (v : VoiceRun) : Prop where
  indexed : v.registry.WellIndexed
  reserved : ∀ c, (v.registry.objects.get? c).isSome = (v.flow c).isSome
  live : ∀ c, v.registry.Live c ↔ (v.flow c).isSome ∧ c ∉ v.releasedClaims
  known : ∀ c ∈ v.releasedClaims, (v.flow c).isSome
  once : v.releasedClaims.Nodup
  atEnd : ∀ c, v.flow c = some .ended ∨ v.flow c = some .draining → c ∈ v.releasedClaims

theorem Owned.init : Owned {} where
  indexed := .empty
  reserved _ := rfl
  live c := by simp [Live, flow]
  known _ h := by cases h
  once := List.nodup_nil
  atEnd c h := by simp [flow] at h

/-- The registry changes and no claim is made or released. -/
theorem Owned.of_registry (h : v.Owned) {registry : PendingVoiceRegistry}
    (hindexed : registry.WellIndexed)
    (hobjects : ∀ c, (registry.objects.get? c).isSome = (v.registry.objects.get? c).isSome)
    (hlive : ∀ c, registry.Live c ↔ v.registry.Live c) :
    { v with registry := registry }.Owned where
  indexed := hindexed
  reserved c := (hobjects c).trans (h.reserved c)
  live c := (hlive c).trans (h.live c)
  known := h.known
  once := h.once
  atEnd := h.atEnd

theorem Owned.of_setFlow (h : v.Owned) {flow : VoiceFlow} (hclaim : (v.flow claim).isSome)
    (hover : flow = .ended ∨ flow = .draining → claim ∈ v.releasedClaims) :
    (v.setFlow claim flow).Owned := by
  have hsome : ∀ c, ((v.setFlow claim flow).flow c).isSome = (v.flow c).isSome := by
    intro c
    simp only [setFlow, VoiceRun.flow, Dict.get?_set]
    split_ifs with hc
    · rw [hc]
      exact hclaim.symm
    · rfl
  constructor
  · exact h.indexed
  · intro c
    rw [hsome]
    exact h.reserved c
  · intro c
    rw [hsome]
    exact h.live c
  · intro c hc
    rw [hsome]
    exact h.known c hc
  · exact h.once
  · intro c hc
    simp only [setFlow, VoiceRun.flow, Dict.get?_set] at hc
    split_ifs at hc with heq
    · rw [heq]
      exact hover (by simpa using hc)
    · exact h.atEnd c hc

theorem Owned.of_release (h : v.Owned) {registry : PendingVoiceRegistry} (owner : VoiceOwner)
    {claims : List PendingVoiceClaim} (hindexed : registry.WellIndexed)
    (hobjects : registry.objects = v.registry.objects)
    (hlive : ∀ c, registry.Live c ↔ v.registry.Live c ∧ c ∉ claims)
    (hclaims : ∀ c ∈ claims, v.registry.Live c) (hnodup : claims.Nodup) :
    (v.release registry owner claims).Owned := by
  have hreleased : (v.release registry owner claims).releasedClaims =
      v.releasedClaims ++ claims := by
    simp [release, releasedClaims, Function.comp_def]
  constructor
  · exact hindexed
  · intro c
    exact (congrArg (fun o => (o.get? c).isSome) hobjects).trans (h.reserved c)
  · intro c
    rw [hreleased, List.mem_append, not_or]
    exact (hlive c).trans ((and_congr_left' (h.live c)).trans and_assoc)
  · intro c hc
    rw [hreleased, List.mem_append] at hc
    rcases hc with hc | hc
    · exact h.known c hc
    · exact ((h.live c).mp (hclaims c hc)).1
  · rw [hreleased]
    refine h.once.append hnodup fun c hc hc' => ?_
    exact ((h.live c).mp (hclaims c hc')).2 hc
  · intro c hc
    rw [hreleased, List.mem_append]
    exact Or.inl (h.atEnd c hc)

/-- A flow that waits to release its claim leaves it released, by itself or before. -/
theorem Owned.of_releaseOwned (h : v.Owned) (owner : VoiceOwner) (hclaim : (v.flow claim).isSome) :
    let released := v.registry.releaseOwned claim
    (v.release released.2 owner (if released.1 then [claim] else [])).Owned ∧
      claim ∈ (v.release released.2 owner (if released.1 then [claim] else [])).releasedClaims := by
  obtain ⟨hindexed, hobjects, howned, hlive⟩ := h.indexed.of_releaseOwned claim
  dsimp only
  split_ifs with hlock
  · have hclaimLive := howned.mp hlock
    constructor
    · refine h.of_release owner hindexed hobjects (fun c => ?_) ?_ (List.nodup_singleton _)
      · rw [hlive, List.mem_singleton]
      · intro c hc
        rw [List.mem_singleton.mp hc]
        exact hclaimLive
    · simp [release, releasedClaims]
  · have hdead : ¬ v.registry.Live claim := fun hc => hlock (howned.mpr hc)
    constructor
    · refine h.of_release owner hindexed hobjects (fun c => ?_) (fun c hc => nomatch hc)
        List.nodup_nil
      rw [hlive]
      refine and_congr_right fun hc => ?_
      simp only [List.not_mem_nil, not_false_iff, iff_true]
      rintro rfl
      exact hdead hc
    · have hin : claim ∈ v.releasedClaims := by
        by_contra hout
        exact hdead ((h.live claim).mpr ⟨hclaim, hout⟩)
      simpa [release, releasedClaims] using hin

theorem Owned.of_reserve (h : v.Owned) (hfresh : v.registry.objects.get? claim = none) :
    (v.reserve claim).Owned := by
  have hindexed := h.indexed.of_reserve hfresh
  unfold VoiceRun.reserve
  unfold PendingVoiceRegistry.reserve at hindexed ⊢
  split_ifs at hindexed ⊢ with hmem
  · exact h
  have hnoflow : (v.flow claim).isSome = false := by
    rw [← h.reserved, hfresh]
    rfl
  have hunreleased : claim ∉ v.releasedClaims := by
    intro hc
    have hsome := h.known claim hc
    rw [hnoflow] at hsome
    cases hsome
  have hnone : v.registry.pending.get? (voiceKey claim) = none := by
    simpa [Dict.contains] using hmem
  constructor
  · exact hindexed
  · intro c
    simp only [setFlow, VoiceRun.flow, Dict.get?_set]
    split_ifs with hc
    · rfl
    · exact h.reserved c
  · intro c
    have hold := h.live c
    simp only [Live, setFlow, VoiceRun.flow, Dict.get?_set] at hold ⊢
    by_cases hc : c = claim
    · subst hc
      simpa [releasedClaims] using hunreleased
    · rw [if_neg hc]
      refine Iff.trans ?_ hold
      split_ifs with hkey
      · rw [hkey, hnone]
        simp [Ne.symm hc]
      · exact Iff.rfl
  · intro c hc
    simp only [setFlow, VoiceRun.flow, Dict.get?_set]
    split_ifs
    · rfl
    · exact h.known c hc
  · exact h.once
  · intro c hc
    simp only [setFlow, VoiceRun.flow, Dict.get?_set] at hc
    split_ifs at hc
    · simp at hc
    · exact h.atEnd c hc

theorem Owned.of_lockCancel (h : v.Owned) (i : ℕ) : (v.lockCancel i).Owned := by
  unfold lockCancel
  split
  · exact h
  rename_i c _
  split_ifs
  · obtain ⟨hindexed, hobjects, -, hlive⟩ :=
      h.indexed.foldl_remove (v.registry.targets c.context c.request)
    have := h.of_release .cancelled hindexed hobjects hlive
      (fun _ hmem => (h.indexed.of_mem_targets hmem).1) (targets_nodup c.context c.request)
    exact ⟨this.1, this.2, this.3, this.4, this.5, this.6⟩
  · exact h

theorem Owned.of_leaveCancel (h : v.Owned) (i : ℕ) (c : VoiceCancellation) :
    (v.leaveCancel i c).Owned := by
  have : { v with registry := v.registry.unprotectClaim c.context }.Owned :=
    h.of_registry (h.indexed.congr (by simp) (by simp)) (by simp) (by simp [Live])
  exact ⟨this.1, this.2, this.3, this.4, this.5, this.6⟩

theorem Owned.step (h : v.Owned) (op : VoiceOp) (hproper : op.Proper v) : (op.apply v).Owned := by
  have hsome : ∀ {c f}, v.flow c = some f → (v.flow c).isSome := fun hc => by rw [hc]; rfl
  have hmove : ∀ c source target, target ≠ VoiceFlow.draining →
      (target = .ended → source = .draining) → (v.moveFlow c source target).Owned := by
    intro c source target hdraining hended
    unfold moveFlow
    split_ifs with hflow
    · refine h.of_setFlow (hsome hflow) fun hover => ?_
      have hsource := hended (hover.resolve_right hdraining)
      exact h.atEnd c (Or.inr (hsource ▸ hflow))
    · exact h
  cases op with
  | reserve c => exact h.of_reserve hproper
  | bindStatus c id =>
    have hregistry : { v with registry := (v.registry.bindStatus c id).2 }.Owned :=
      h.of_registry (h.indexed.of_bindStatus id) (fun _ => isSome_objects_bindStatus id)
        (fun _ => live_bindStatus id)
    simp only [VoiceOp.apply, VoiceRun.bindStatus]
    split_ifs with hflow
    · split
      · rename_i hbound
        rw [hbound] at hregistry
        exact hregistry
      · rename_i hbound
        rw [hbound] at hregistry
        exact hregistry.of_setFlow (hsome hflow) (by simp)
    · exact h
  | startHandoff c =>
    have hregistry : { v with registry := (v.registry.startHandoff c).2 }.Owned :=
      h.of_registry h.indexed.of_startHandoff (fun _ => isSome_objects_startHandoff)
        (fun _ => by simp only [Live, pending_startHandoff])
    simp only [VoiceOp.apply, VoiceRun.startHandoff]
    split_ifs with hflow
    · split
      all_goals
        rename_i hstarted
        rw [hstarted] at hregistry
        exact hregistry.of_setFlow (hsome hflow) (by simp)
    · exact h
  | fail c => exact hmove c _ _ (by simp) (by simp)
  | taskOver c => exact hmove c _ _ (by simp) (by simp)
  | finish c raised =>
    simp only [VoiceOp.apply, VoiceRun.finish]
    by_cases hflow : v.flow c = some .finishing
    · rw [if_pos hflow]
      obtain ⟨hreleased, hmem⟩ := h.of_releaseOwned .completed (hsome hflow)
      exact hreleased.of_setFlow (hsome hflow) fun _ => hmem
    · rw [if_neg hflow]
      exact h
  | discard c =>
    simp only [VoiceOp.apply, VoiceRun.discard]
    by_cases hflow : v.flow c = some .discarding
    · rw [if_pos hflow]
      obtain ⟨hreleased, hmem⟩ := h.of_releaseOwned .discarded (hsome hflow)
      exact hreleased.of_setFlow (hsome hflow) fun _ => hmem
    · rw [if_neg hflow]
      exact h
  | drained c => exact hmove c _ _ (by simp) (by simp)
  | beginCancel context request =>
    have : { v with registry := v.registry.protectClaim context }.Owned :=
      h.of_registry (h.indexed.congr (by simp) (by simp)) (by simp) (by simp [Live])
    exact ⟨this.1, this.2, this.3, this.4, this.5, this.6⟩
  | lockCancel i => exact h.of_lockCancel i
  | abortCancel i =>
    simp only [VoiceOp.apply, VoiceRun.abortCancel]
    split
    · exact h
    · split_ifs
      · exact h.of_leaveCancel i _
      · exact h
  | endCancel i =>
    simp only [VoiceOp.apply, VoiceRun.endCancel]
    split
    · exact h
    · split
      · split_ifs
        · exact h.of_leaveCancel i _
        · exact h
      · exact h

theorem owned_of_reachable (h : voiceSystem.Reachable v) : v.Owned := by
  refine System.Reachable.invariant ?_ ?_ h
  · rintro _ rfl
    exact .init
  · rintro s op _ _ hs ⟨hproper, rfl⟩
    exact hs.step op hproper

end VoiceRun

end Switchboard.Messaging
