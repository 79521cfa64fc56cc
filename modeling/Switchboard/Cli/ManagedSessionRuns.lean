import Switchboard.Cli.ManagedSessions

/-!
# Ownership of managed sessions

The two id maps invert each other, every session that may still run is stored under one id,
and none is handed out once a call has begun to close it.
-/

namespace Switchboard.Cli

namespace SessionPool

variable {p : SessionPool} {s : ℕ} {tempId realId id : String}

/-- A session is stored under an id. -/
def Stores (p : SessionPool) (id : String) (s : ℕ) : Prop :=
  p.sessions.get? id = some s ∨ p.pendingSessions.get? id = some s

structure Owned (p : SessionPool) : Prop where
  /-- No id is real and pending. -/
  apart : ∀ {id s}, p.sessions.get? id = some s → p.pendingSessions.get? id = none
  unique : ∀ {id id' s}, p.Stores id s → p.Stores id' s → id = id'
  inverse : ∀ {tempId realId},
    p.tempToReal.get? tempId = some realId ↔ p.realToTemp.get? realId = some tempId
  mapped : ∀ {tempId realId}, p.tempToReal.get? tempId = some realId →
    ∃ s, p.sessions.get? realId = some s
  /-- A temporary id that is mapped stores nothing, unless it is the real one too. -/
  moved : ∀ {tempId realId s}, p.tempToReal.get? tempId = some realId →
    p.Stores tempId s → tempId = realId
  closing : ∀ {s}, s ∈ p.closingSessions → ∃ id, p.Stores id s
  running : ∀ {s}, s < p.nextSession → s ∉ p.stopped → ∃ id, p.Stores id s
  made : ∀ {id s}, p.Stores id s → s < p.nextSession

/-! ## Lookups -/

theorem stores_of_sessionForId (h : p.sessionForId id = some s) : p.Stores (p.lookupId id) s := by
  unfold sessionForId at h
  split at h
  · rename_i session hsession
    exact Or.inl (hsession.trans h)
  · exact Or.inr h

/-- An id under which nothing is found stores nothing and is not mapped. -/
theorem Owned.of_sessionForId_none (h : p.Owned) (hnone : p.sessionForId id = none) :
    p.sessions.get? id = none ∧ p.pendingSessions.get? id = none ∧
      p.tempToReal.get? id = none := by
  unfold sessionForId at hnone
  split at hnone
  · cases hnone
  rename_i hsessions
  cases hmap : p.tempToReal.get? id with
  | some realId =>
    obtain ⟨s, hs⟩ := h.mapped hmap
    rw [lookupId, hmap, Option.getD_some, hs] at hsessions
    cases hsessions
  | none =>
    rw [lookupId, hmap, Option.getD_none] at hsessions hnone
    exact ⟨hsessions, hnone, rfl⟩

/-- Every stored session is found under the id that stores it. -/
theorem Owned.sessionForId_eq (h : p.Owned) (hs : p.Stores id s) :
    p.sessionForId id = some s := by
  have hlookup : p.lookupId id = id := by
    unfold lookupId
    cases hmap : p.tempToReal.get? id with
    | none => rfl
    | some realId => exact (h.moved hmap hs).symm
  rw [sessionForId, hlookup]
  rcases hs with hs | hs
  · rw [hs]
  · cases hsession : p.sessions.get? id with
    | none => exact hs
    | some other =>
      rw [h.apart hsession] at hs
      cases hs

/-! ## New sessions -/

theorem stores_create {tempId : String} :
    (p.create tempId).2.Stores id s ↔
      p.sessions.get? id = some s ∨
        if id = tempId then s = p.nextSession else p.pendingSessions.get? id = some s := by
  unfold Stores create
  rw [Dict.get?_set]
  by_cases hid : id = tempId
  · rw [if_pos hid, if_pos hid, Option.some.injEq, eq_comm (a := p.nextSession)]
  · rw [if_neg hid, if_neg hid]

theorem Owned.create (h : p.Owned) (hsession : p.sessions.get? tempId = none)
    (hpending : p.pendingSessions.get? tempId = none) (hmap : p.tempToReal.get? tempId = none) :
    (p.create tempId).2.Owned := by
  have hold : ∀ {id s}, (p.create tempId).2.Stores id s →
      p.Stores id s ∧ id ≠ tempId ∨ id = tempId ∧ s = p.nextSession := by
    intro id s hs
    rcases stores_create.mp hs with hreal | hother
    · refine Or.inl ⟨Or.inl hreal, ?_⟩
      rintro rfl
      rw [hsession] at hreal
      cases hreal
    · split_ifs at hother with hid
      · exact Or.inr ⟨hid, hother⟩
      · exact Or.inl ⟨Or.inr hother, hid⟩
  have hkeeps : ∀ {id s}, p.Stores id s → (p.create tempId).2.Stores id s := by
    intro id s hs
    refine stores_create.mpr (hs.imp_right fun hs => ?_)
    rw [if_neg]
    · exact hs
    · rintro rfl
      rw [hpending] at hs
      cases hs
  constructor
  · intro id s hs
    have hid : id ≠ tempId := by
      rintro rfl
      exact absurd (hsession.symm.trans hs) (by simp)
    exact (Dict.get?_set_of_ne _ _ hid).trans (h.apart hs)
  · intro id id' s hs hs'
    rcases hold hs with ⟨hs, -⟩ | ⟨rfl, rfl⟩
    · rcases hold hs' with ⟨hs', -⟩ | ⟨-, rfl⟩
      · exact h.unique hs hs'
      · exact absurd (h.made hs) (lt_irrefl _)
    · rcases hold hs' with ⟨hs', -⟩ | ⟨rfl, -⟩
      · exact absurd (h.made hs') (lt_irrefl _)
      · rfl
  · exact h.inverse
  · exact h.mapped
  · intro temp realId s htemp hs
    rcases hold hs with ⟨hs, -⟩ | ⟨rfl, -⟩
    · exact h.moved htemp hs
    · exact absurd (hmap.symm.trans htemp) (by simp)
  · intro s hs
    obtain ⟨id, hid⟩ := h.closing hs
    exact ⟨id, hkeeps hid⟩
  · intro s hs hstopped
    rcases Nat.lt_succ_iff_lt_or_eq.mp hs with hs | rfl
    · obtain ⟨id, hid⟩ := h.running hs hstopped
      exact ⟨id, hkeeps hid⟩
    · exact ⟨tempId, stores_create.mpr (Or.inr (by rw [if_pos rfl]))⟩
  · intro id s hs
    rcases hold hs with ⟨hs, -⟩ | ⟨-, rfl⟩
    · exact (h.made hs).trans (Nat.lt_succ_self _)
    · exact Nat.lt_succ_self _

/-! ## Real ids -/

/-- A session moves from its temporary id to its real one. -/
theorem stores_register {session : ℕ} (h : p.Owned)
    (hsession : p.pendingSessions.get? tempId = some session)
    (hreal : realId = tempId ∨ p.sessions.get? realId = none ∧
      p.pendingSessions.get? realId = none) :
    (p.sessions.set realId session).get? id = some s ∨
        (p.pendingSessions.erase tempId).get? id = some s ↔
      if id = realId then s = session else p.Stores id s ∧ id ≠ tempId := by
  rw [Dict.get?_set, Dict.get?_erase]
  by_cases hid : id = realId
  · subst hid
    rw [if_pos rfl, if_pos rfl]
    split_ifs with htemp
    · simp [eq_comm]
    · rcases hreal with rfl | ⟨-, hnone⟩
      · exact absurd rfl htemp
      · simp [hnone, eq_comm]
  · rw [if_neg hid, if_neg hid]
    split_ifs with htemp
    · subst htemp
      have hnone : p.sessions.get? id ≠ some s := by
        intro hs
        rw [h.apart hs] at hsession
        cases hsession
      simp [hnone]
    · simp [Stores, htemp]

theorem Owned.register {session : ℕ} (h : p.Owned)
    (hsession : p.pendingSessions.get? tempId = some session)
    (hreal : realId = tempId ∨ p.sessions.get? realId = none ∧
      p.pendingSessions.get? realId = none ∧ p.tempToReal.get? realId = none) :
    { p with
      pendingSessions := p.pendingSessions.erase tempId
      sessions := p.sessions.set realId session
      tempToReal := p.tempToReal.set tempId realId
      realToTemp := p.realToTemp.set realId tempId }.Owned := by
  have hpending : p.Stores tempId session := Or.inr hsession
  have htempSession : p.sessions.get? tempId = none := by
    cases hs : p.sessions.get? tempId with
    | none => rfl
    | some s =>
      rw [h.apart hs] at hsession
      cases hsession
  have htempMap : p.tempToReal.get? tempId = none := by
    cases hmap : p.tempToReal.get? tempId with
    | none => rfl
    | some other =>
      obtain rfl := h.moved hmap hpending
      obtain ⟨s, hs⟩ := h.mapped hmap
      rw [htempSession] at hs
      cases hs
  have hrealSession : p.sessions.get? realId = none := by
    rcases hreal with rfl | ⟨hnone, -, -⟩
    · exact htempSession
    · exact hnone
  have hrealMap : p.tempToReal.get? realId = none := by
    rcases hreal with rfl | ⟨-, -, hnone⟩
    · exact htempMap
    · exact hnone
  have hrealTemp : p.realToTemp.get? realId = none := by
    cases hmap : p.realToTemp.get? realId with
    | none => rfl
    | some other =>
      obtain ⟨s, hs⟩ := h.mapped (h.inverse.mpr hmap)
      rw [hrealSession] at hs
      cases hs
  have hstores : ∀ {id s}, (p.sessions.set realId session).get? id = some s ∨
      (p.pendingSessions.erase tempId).get? id = some s ↔
        if id = realId then s = session else p.Stores id s ∧ id ≠ tempId := stores_register h hsession
    (hreal.imp_right fun hnone => ⟨hnone.1, hnone.2.1⟩)
  have hkeeps : ∀ {s}, (∃ id, p.Stores id s) → ∃ id,
      (p.sessions.set realId session).get? id = some s ∨
        (p.pendingSessions.erase tempId).get? id = some s := by
    rintro s ⟨id, hid⟩
    by_cases htemp : id = tempId
    · subst htemp
      refine ⟨realId, hstores.mpr ?_⟩
      rw [if_pos rfl]
      rcases hid with hid | hid
      · rw [htempSession] at hid
        cases hid
      · exact Option.some.inj (hid.symm.trans hsession)
    · refine ⟨id, hstores.mpr ?_⟩
      rw [if_neg]
      · exact ⟨hid, htemp⟩
      · rintro rfl
        rcases hreal with rfl | ⟨hnone, hnone', -⟩
        · exact htemp rfl
        · rcases hid with hid | hid
          · exact absurd (hnone.symm.trans hid) (by simp)
          · exact absurd (hnone'.symm.trans hid) (by simp)
  constructor
  · intro id s hs
    replace hs : (p.sessions.set realId session).get? id = some s := hs
    change (p.pendingSessions.erase tempId).get? id = none
    rw [Dict.get?_erase]
    split_ifs with htemp
    · rfl
    · rw [Dict.get?_set] at hs
      split_ifs at hs with hid
      · subst hid
        rcases hreal with hid | ⟨-, hnone, -⟩
        · exact absurd hid htemp
        · exact hnone
      · exact h.apart hs
  · intro id id' s hs hs'
    replace hs := hstores.mp hs
    replace hs' := hstores.mp hs'
    by_cases hid : id = realId
    · by_cases hid' : id' = realId
      · rw [hid, hid']
      · rw [if_pos hid] at hs
        rw [if_neg hid', hs] at hs'
        exact absurd (h.unique hs'.1 hpending) hs'.2
    · rw [if_neg hid] at hs
      by_cases hid' : id' = realId
      · rw [if_pos hid'] at hs'
        rw [hs'] at hs
        exact absurd (h.unique hs.1 hpending) hs.2
      · rw [if_neg hid'] at hs'
        exact h.unique hs.1 hs'.1
  · intro temp real
    change (p.tempToReal.set tempId realId).get? temp = some real ↔
      (p.realToTemp.set realId tempId).get? real = some temp
    rw [Dict.get?_set, Dict.get?_set]
    by_cases htemp : temp = tempId
    · subst htemp
      by_cases hid : real = realId
      · simp [hid]
      · have hnone : p.realToTemp.get? real ≠ some temp := by
          rw [Ne, ← h.inverse, htempMap]
          simp
        simp [hid, hnone, Ne.symm hid]
    · by_cases hid : real = realId
      · subst hid
        have hnone : p.tempToReal.get? temp ≠ some real := by
          rw [Ne, h.inverse, hrealTemp]
          simp
        simp [htemp, hnone, Ne.symm htemp]
      · rw [if_neg htemp, if_neg hid]
        exact h.inverse
  · intro temp real hmap
    replace hmap : (p.tempToReal.set tempId realId).get? temp = some real := hmap
    change ∃ s, (p.sessions.set realId session).get? real = some s
    rw [Dict.get?_set] at hmap ⊢
    split_ifs with hid
    · exact ⟨session, rfl⟩
    · split_ifs at hmap with htemp
      · exact absurd (Option.some.inj hmap).symm hid
      · exact h.mapped hmap
  · intro temp real s hmap hs
    replace hmap : (p.tempToReal.set tempId realId).get? temp = some real := hmap
    replace hs := hstores.mp hs
    rw [Dict.get?_set] at hmap
    split_ifs at hmap with htemp
    · subst htemp
      obtain rfl := Option.some.inj hmap
      split_ifs at hs with hid
      · exact hid
      · exact absurd rfl hs.2
    · split_ifs at hs with hid
      · subst hid
        rw [hrealMap] at hmap
        cases hmap
      · exact h.moved hmap hs.1
  · exact fun hs => hkeeps (h.closing hs)
  · exact fun hs hstopped => hkeeps (h.running hs hstopped)
  · intro id s hs
    replace hs := hstores.mp hs
    split_ifs at hs with hid
    · rw [hs]
      exact h.made hpending
    · exact h.made hs.1

/-! ## Stopped sessions -/

theorem mem_idsOf {owned : Dict String ℕ} : id ∈ idsOf owned s ↔ owned.get? id = some s := by
  rw [Dict.get?_eq_some, idsOf, List.mem_map]
  constructor
  · rintro ⟨⟨k, v⟩, hmem, rfl⟩
    obtain ⟨hmem, hv⟩ := List.mem_filter.mp hmem
    rw [← of_decide_eq_true hv]
    exact hmem
  · intro hmem
    exact ⟨(id, s), List.mem_filter.mpr ⟨hmem, decide_eq_true rfl⟩, rfl⟩

theorem idsOf_nodup (owned : Dict String ℕ) (s : ℕ) : (idsOf owned s).Nodup :=
  owned.nodup.sublist (List.filter_sublist.map _)

/-- A session that at most one id stores. -/
theorem idsOf_eq {owned : Dict String ℕ}
    (hunique : ∀ {id id'}, owned.get? id = some s → owned.get? id' = some s → id = id') :
    idsOf owned s = [] ∧ (∀ id, owned.get? id ≠ some s) ∨
      ∃ id, idsOf owned s = [id] ∧ owned.get? id = some s := by
  have hnodup := idsOf_nodup owned s
  have hmem : ∀ {id}, id ∈ idsOf owned s → owned.get? id = some s := mem_idsOf.mp
  have hof : ∀ {id}, owned.get? id = some s → id ∈ idsOf owned s := mem_idsOf.mpr
  cases hids : idsOf owned s with
  | nil =>
    refine Or.inl ⟨rfl, fun id hid => ?_⟩
    have hmem := hof hid
    rw [hids] at hmem
    cases hmem
  | cons id rest =>
    rw [hids] at hnodup hmem
    cases rest with
    | nil => exact Or.inr ⟨id, rfl, hmem List.mem_cons_self⟩
    | cons id' rest =>
      have heq := hunique (hmem List.mem_cons_self)
        (hmem (List.mem_cons_of_mem _ List.mem_cons_self))
      subst heq
      exact absurd hnodup (by simp)

/-- What is left of a pool without a session. -/
structure Forgets (p q : SessionPool) (s : ℕ) : Prop where
  sessions : ∀ {id s'}, q.sessions.get? id = some s' ↔ p.sessions.get? id = some s' ∧ s' ≠ s
  pending : ∀ {id s'},
    q.pendingSessions.get? id = some s' ↔ p.pendingSessions.get? id = some s' ∧ s' ≠ s
  tempToReal : ∀ {tempId realId}, q.tempToReal.get? tempId = some realId ↔
    p.tempToReal.get? tempId = some realId ∧ p.sessions.get? realId ≠ some s
  realToTemp : ∀ {tempId realId}, q.realToTemp.get? realId = some tempId ↔
    p.realToTemp.get? realId = some tempId ∧ p.sessions.get? realId ≠ some s
  closing : ∀ {s'}, s' ∈ q.closingSessions ↔ s' ∈ p.closingSessions ∧ s' ≠ s
  nextSession : q.nextSession = p.nextSession
  stopped : q.stopped = p.stopped

theorem get?_erase_unique {owned : Dict String ℕ} {s' : ℕ}
    (hunique : ∀ {id id'}, owned.get? id = some s → owned.get? id' = some s → id = id')
    (hs : owned.get? realId = some s) :
    (owned.erase realId).get? id = some s' ↔ owned.get? id = some s' ∧ s' ≠ s := by
  rw [Dict.get?_erase]
  split_ifs with hid
  · subst hid
    simp [hs, eq_comm]
  · refine ⟨fun h => ⟨h, ?_⟩, fun h => h.1⟩
    rintro rfl
    exact hid (hunique h hs)

theorem not_stored {owned : Dict String ℕ} {s' : ℕ} (hs : ∀ id, owned.get? id ≠ some s) :
    owned.get? id = some s' ↔ owned.get? id = some s' ∧ s' ≠ s := by
  refine ⟨fun hid => ⟨hid, ?_⟩, fun hid => hid.1⟩
  rintro rfl
  exact hs id hid

theorem Owned.forgets (h : p.Owned) (s : ℕ) : p.Forgets (p.forgetSession s) s := by
  have hsessions : ∀ {id id'}, p.sessions.get? id = some s → p.sessions.get? id' = some s →
      id = id' := fun hid hid' => h.unique (Or.inl hid) (Or.inl hid')
  have hpendings : ∀ {id id'}, p.pendingSessions.get? id = some s →
      p.pendingSessions.get? id' = some s → id = id' :=
    fun hid hid' => h.unique (Or.inr hid) (Or.inr hid')
  have hclosing : ∀ {s'}, s' ∈ p.closingSessions.filter (fun t => t ≠ s) ↔
      s' ∈ p.closingSessions ∧ s' ≠ s := by simp
  -- no id is stored twice, so there is at most one pending and one real id
  rcases idsOf_eq hpendings with ⟨hpendingIds, hpending⟩ | ⟨pendingId, hpendingIds, hpending⟩
  · rcases idsOf_eq hsessions with ⟨hrealIds, hreal⟩ | ⟨realId, hrealIds, hreal⟩
    · simp only [forgetSession, hpendingIds, hrealIds, List.foldl_nil]
      refine ⟨?_, ?_, ?_, ?_, hclosing, rfl, rfl⟩
      · exact not_stored hreal
      · exact not_stored hpending
      · exact ⟨fun hmap => ⟨hmap, hreal _⟩, fun hmap => hmap.1⟩
      · exact ⟨fun hmap => ⟨hmap, hreal _⟩, fun hmap => hmap.1⟩
    · simp only [forgetSession, hpendingIds, hrealIds, List.foldl_nil, List.foldl_cons, dropReal]
      have hother : ∀ {id}, id ≠ realId → p.sessions.get? id ≠ some s :=
        fun hid hs => hid (hsessions hs hreal)
      cases htemp : p.realToTemp.get? realId with
      | none =>
        have hkeeps : ∀ {tempId id}, p.realToTemp.get? id = some tempId →
            p.sessions.get? id ≠ some s := by
          intro tempId id hmap
          refine hother ?_
          rintro rfl
          rw [htemp] at hmap
          cases hmap
        refine ⟨get?_erase_unique hsessions hreal, not_stored hpending, ?_, ?_, hclosing, rfl, rfl⟩
        · exact ⟨fun hmap => ⟨hmap, hkeeps (h.inverse.mp hmap)⟩, fun hmap => hmap.1⟩
        · exact ⟨fun hmap => ⟨hmap, hkeeps hmap⟩, fun hmap => hmap.1⟩
      | some tempId =>
        refine ⟨get?_erase_unique hsessions hreal, not_stored hpending, ?_, ?_, hclosing, rfl, rfl⟩
        · intro tempId' realId'
          change (p.tempToReal.erase tempId).get? tempId' = some realId' ↔ _
          rw [Dict.get?_erase]
          split_ifs with heq
          · subst heq
            rw [h.inverse.mpr htemp]
            simp only [Option.some.injEq, false_iff, not_and, not_not]
            rintro rfl
            exact hreal
          · refine ⟨fun hmap => ⟨hmap, hother ?_⟩, fun hmap => hmap.1⟩
            rintro rfl
            exact heq (Option.some.inj ((h.inverse.mp hmap).symm.trans htemp))
        · intro tempId' realId'
          change (p.realToTemp.erase realId).get? realId' = some tempId' ↔ _
          rw [Dict.get?_erase]
          split_ifs with heq
          · simp [heq, hreal]
          · exact ⟨fun hmap => ⟨hmap, hother heq⟩, fun hmap => hmap.1⟩
  · have hreal : ∀ id, p.sessions.get? id ≠ some s := by
      intro id hid
      obtain rfl := h.unique (Or.inl hid) (Or.inr hpending)
      rw [h.apart hid] at hpending
      cases hpending
    have hrealIds : idsOf p.sessions s = [] := by
      refine List.eq_nil_iff_forall_not_mem.mpr fun id hid => hreal id (mem_idsOf.mp hid)
    simp only [forgetSession, hpendingIds, hrealIds, List.foldl_cons, List.foldl_nil]
    refine ⟨?_, ?_, ?_, ?_, hclosing, rfl, rfl⟩
    · exact not_stored hreal
    · exact get?_erase_unique hpendings hpending
    · exact ⟨fun hmap => ⟨hmap, hreal _⟩, fun hmap => hmap.1⟩
    · exact ⟨fun hmap => ⟨hmap, hreal _⟩, fun hmap => hmap.1⟩

theorem Forgets.stores {q : SessionPool} {s' : ℕ} (hq : p.Forgets q s) :
    q.Stores id s' ↔ p.Stores id s' ∧ s' ≠ s := by
  rw [Stores, Stores, hq.sessions, hq.pending, or_and_right]

theorem Owned.forgetStopped (h : p.Owned) (s : ℕ) : (p.forgetStopped s).Owned := by
  have hq := h.forgets s
  have hstores : ∀ {id s'}, (p.forgetSession s).Stores id s' ↔ p.Stores id s' ∧ s' ≠ s := hq.stores
  constructor
  · intro id s' hs
    have hnone := h.apart (hq.sessions.mp hs).1
    cases hpending : (p.forgetSession s).pendingSessions.get? id with
    | none => exact hpending
    | some other =>
      rw [(hq.pending.mp hpending).1] at hnone
      cases hnone
  · exact fun hs hs' => h.unique (hstores.mp hs).1 (hstores.mp hs').1
  · intro tempId realId
    exact hq.tempToReal.trans ((and_congr_left' h.inverse).trans hq.realToTemp.symm)
  · intro tempId realId hmap
    obtain ⟨hmap, hother⟩ := hq.tempToReal.mp hmap
    obtain ⟨s', hs'⟩ := h.mapped hmap
    refine ⟨s', hq.sessions.mpr ⟨hs', ?_⟩⟩
    rintro rfl
    exact hother hs'
  · exact fun hmap hs => h.moved (hq.tempToReal.mp hmap).1 (hstores.mp hs).1
  · intro s' hs
    obtain ⟨hs, hother⟩ := hq.closing.mp hs
    obtain ⟨id, hid⟩ := h.closing hs
    exact ⟨id, hstores.mpr ⟨hid, hother⟩⟩
  · intro s' hs hstopped
    have hs : s' < (p.forgetSession s).nextSession := hs
    have hstopped : s' ∉ s :: p.stopped := hstopped
    rw [hq.nextSession] at hs
    rw [List.mem_cons, not_or] at hstopped
    obtain ⟨id, hid⟩ := h.running hs hstopped.2
    exact ⟨id, hstores.mpr ⟨hid, hstopped.1⟩⟩
  · intro id s' hs
    change s' < (p.forgetSession s).nextSession
    rw [hq.nextSession]
    exact h.made (hstores.mp hs).1

/-! ## Steps -/

theorem Owned.with_holder (h : p.Owned) (holder : PoolHolder) : { p with holder := holder }.Owned :=
  ⟨h.apart, h.unique, h.inverse, h.mapped, h.moved, h.closing, h.running, h.made⟩

theorem Owned.with_closing (h : p.Owned) (closing : List ℕ)
    (hclosing : ∀ s ∈ closing, ∃ id, p.Stores id s) :
    { p with closingSessions := closing }.Owned :=
  ⟨h.apart, h.unique, h.inverse, h.mapped, h.moved, fun hs => hclosing _ hs, h.running, h.made⟩

theorem Owned.stopNext (h : p.Owned) (rest : List ℕ) : (p.stopNext rest).Owned := by
  cases rest with
  | nil => exact h.with_holder _
  | cons s rest => exact h.with_holder _

theorem Owned.stopEnds (h : p.Owned) (outcome : StopOutcome) : (p.stopEnds outcome).Owned := by
  unfold SessionPool.stopEnds
  split
  · exact h
  · exact (h.forgetStopped _).with_holder _
  · exact h.with_holder _
  · exact (h.forgetStopped _).stopNext _
  · exact h.with_holder _
  · exact h.stopNext _

theorem Owned.removeSession (h : p.Owned) (sessionId : String) :
    (p.removeSession sessionId).Owned := by
  unfold SessionPool.removeSession
  split
  · exact h
  · rename_i session hsession
    have hstores := stores_of_sessionForId hsession
    refine (h.with_closing (session :: p.closingSessions) ?_).with_holder _
    intro s hs
    rcases List.mem_cons.mp hs with rfl | hs
    · exact ⟨_, hstores⟩
    · exact h.closing hs

theorem Owned.stopAll (h : p.Owned) : p.stopAll.Owned := by
  refine Owned.stopNext (h.with_closing _ ?_) _
  intro s hs
  simp only [List.mem_append, List.mem_eraseDups, Dict.mem_values] at hs
  rcases hs with ((⟨id, hid⟩ | ⟨id, hid⟩) | hs) | hs
  · exact ⟨id, Or.inl hid⟩
  · exact ⟨id, Or.inr hid⟩
  · exact h.closing hs
  · exact h.closing hs

theorem Owned.registerRealSessionId (h : p.Owned) (tempId realId : String) :
    (p.registerRealSessionId tempId realId).2.Owned := by
  unfold SessionPool.registerRealSessionId
  split
  · exact h
  · rename_i session hsession
    split_ifs with hclosing hother
    · exact h
    · exact h
    · refine h.register hsession ?_
      cases hexisting : p.sessionForId realId with
      | none => exact Or.inr (h.of_sessionForId_none hexisting)
      | some existing =>
        have hsame : existing = session := by
          rw [hexisting] at hother
          simpa using hother
        subst hsame
        -- the session is pending, so its id is not one that was moved
        have hid := h.unique (stores_of_sessionForId hexisting) (Or.inr hsession)
        cases hmap : p.tempToReal.get? realId with
        | none =>
          rw [lookupId, hmap, Option.getD_none] at hid
          exact Or.inl hid
        | some moved =>
          rw [lookupId, hmap, Option.getD_some] at hid
          obtain ⟨s, hs⟩ := h.mapped hmap
          rw [hid] at hs
          rw [h.apart hs] at hsession
          cases hsession

/-- An id that the pool does not use. -/
def Unused (p : SessionPool) (id : String) : Prop :=
  p.sessions.get? id = none ∧ p.pendingSessions.get? id = none ∧ p.tempToReal.get? id = none

/-- The random ids of new sessions are not in use. -/
def Fresh (p : SessionPool) : PoolOp → Prop
  | .getOrCreate _ fresh => p.Unused fresh
  | _ => True

theorem Owned.getOrCreateSession (h : p.Owned) {sessionId : Option String} {fresh : String}
    (hfresh : p.Unused fresh) : (p.getOrCreateSession sessionId fresh).2.Owned := by
  simp only [SessionPool.getOrCreateSession]
  split
  · split_ifs
    · exact h
    · exact h
  · rename_i hstored
    cases hrequested : sessionId.filter fun id => id ≠ "" with
    | none => exact h.create hfresh.1 hfresh.2.1 hfresh.2.2
    | some id =>
      rw [hrequested, Option.bind_some, Option.map_eq_none_iff] at hstored
      obtain ⟨hsession, hpending, hmap⟩ := h.of_sessionForId_none hstored
      exact h.create hsession hpending hmap

/-- The session that a call hands out is stored under the id that it is handed out with, and
no call has begun to close it. -/
theorem Owned.handed_out (h : p.Owned) {sessionId : Option String} {fresh : String}
    (hfresh : p.Unused fresh) {isNew : Bool} {q : SessionPool}
    (hresult : p.getOrCreateSession sessionId fresh = (.ok (s, id, isNew), q)) :
    s ∉ q.closingSessions ∧ q.sessionForId id = some s := by
  have howned : (p.getOrCreateSession sessionId fresh).2.Owned := h.getOrCreateSession hfresh
  rw [hresult] at howned
  simp only [SessionPool.getOrCreateSession] at hresult
  split at hresult
  · rename_i session lookup hstored
    split_ifs at hresult with hclosing
    · cases hresult
    simp only [Prod.mk.injEq, Except.ok.injEq] at hresult
    obtain ⟨⟨rfl, rfl, -⟩, rfl⟩ := hresult
    refine ⟨hclosing, h.sessionForId_eq ?_⟩
    obtain ⟨requested, -, hmap⟩ := Option.bind_eq_some_iff.mp hstored
    obtain ⟨found, hfound, heq⟩ := Option.map_eq_some_iff.mp hmap
    cases heq
    exact stores_of_sessionForId hfound
  · simp only [Prod.mk.injEq, Except.ok.injEq] at hresult
    obtain ⟨⟨rfl, rfl, -⟩, rfl⟩ := hresult
    refine ⟨?_, howned.sessionForId_eq (stores_create.mpr (Or.inr ?_))⟩
    · intro hclosing
      obtain ⟨id, hid⟩ := h.closing hclosing
      exact absurd (h.made hid) (lt_irrefl _)
    · rw [if_pos rfl]
      rfl

theorem Owned.apply (h : p.Owned) {op : PoolOp} (hfresh : p.Fresh op) : (op.apply p).Owned := by
  cases op with
  | stopEnds outcome => exact h.stopEnds outcome
  | getOrCreate sessionId fresh =>
    simp only [PoolOp.apply]
    split_ifs
    · exact h.getOrCreateSession hfresh
    · exact h
  | register tempId realId =>
    simp only [PoolOp.apply]
    split_ifs
    · exact h.registerRealSessionId tempId realId
    · exact h
  | remove sessionId =>
    simp only [PoolOp.apply]
    split_ifs
    · exact h.removeSession sessionId
    · exact h
  | stopAll =>
    simp only [PoolOp.apply]
    split_ifs
    · exact h.stopAll
    · exact h

theorem owned_new : Owned {} := by
  have hnone : ∀ {id s}, ¬ ({} : SessionPool).Stores id s := by
    rintro id s (hs | hs)
    · cases hs
    · cases hs
  constructor
  · exact fun hs => absurd (Or.inl hs) hnone
  · exact fun hs => absurd hs hnone
  · intro tempId realId
    constructor
    · intro hmap
      cases hmap
    · intro hmap
      cases hmap
  · intro tempId realId hmap
    cases hmap
  · exact fun _ hs => absurd hs hnone
  · intro s hs
    cases hs
  · exact fun hs => absurd hs (Nat.not_lt_zero _)
  · exact fun hs => absurd hs hnone

theorem owned_of_reach (h : poolSystem.Reach Fresh p) : p.Owned := by
  refine System.Reach.invariant ?_ ?_ h
  · rintro _ rfl
    exact owned_new
  · rintro p op _ _ hp hfresh rfl
    exact hp.apply hfresh

end SessionPool

open SessionPool

/-- In every run each stored session has one id, the maps of temporary and real ids invert each
other and lead to stored sessions, a session that may still run can be stopped, and a call
hands out no session that is being closed. -/
theorem session_pool_owned {p : SessionPool} (h : poolSystem.Reach Fresh p) :
    (∀ id id' s, p.Stores id s → p.Stores id' s → id = id') ∧
      (∀ tempId realId,
        p.tempToReal.get? tempId = some realId ↔ p.realToTemp.get? realId = some tempId) ∧
      (∀ tempId realId, p.tempToReal.get? tempId = some realId →
        ∃ s, p.sessions.get? realId = some s) ∧
      (∀ id s s', p.Stores id s → p.Stores id s' → s = s') ∧
      (∀ s, s < p.nextSession → s ∉ p.stopped →
        ∃ id, p.sessionForId id = some s) ∧
      ∀ sessionId fresh s id isNew q, p.Unused fresh →
        p.getOrCreateSession sessionId fresh = (.ok (s, id, isNew), q) →
        s ∉ q.closingSessions ∧ q.sessionForId id = some s := by
  have howned := owned_of_reach h
  refine ⟨fun _ _ _ => howned.unique, fun _ _ => howned.inverse, fun _ _ => howned.mapped, ?_,
    ?_, fun _ _ _ _ _ _ hfresh => howned.handed_out hfresh⟩
  · intro id s s' hs hs'
    exact Option.some.inj ((howned.sessionForId_eq hs).symm.trans (howned.sessionForId_eq hs'))
  · intro s hs hstopped
    obtain ⟨id, hid⟩ := howned.running hs hstopped
    exact ⟨id, howned.sessionForId_eq hid⟩

/-- A session gets its real id, and the stop of all sessions fails for it. -/
def failedStop : List PoolOp :=
  [.getOrCreate none "pending_1", .register "pending_1" "real", .stopAll, .stopEnds .notStopped]

theorem reach_pool {p : SessionPool} (h : poolSystem.Reach Fresh p) (op : PoolOp)
    (hfresh : p.Fresh op) : poolSystem.Reach Fresh (op.apply p) :=
  h.next hfresh rfl

theorem session_pool_owned_sample :
    ∃ id, (failedStop.foldl (fun p (op : PoolOp) => op.apply p) {}).sessionForId id = some 0 := by
  have h0 : poolSystem.Reach Fresh {} := .start rfl
  have h1 := reach_pool h0 (.getOrCreate none "pending_1") (And.intro rfl ⟨rfl, rfl⟩)
  have h2 := reach_pool h1 (.register "pending_1" "real") trivial
  have h3 := reach_pool h2 .stopAll trivial
  have h4 := reach_pool h3 (.stopEnds .notStopped) trivial
  exact (session_pool_owned h4).2.2.2.2.1 0 (by decide) (by decide)

end Switchboard.Cli
