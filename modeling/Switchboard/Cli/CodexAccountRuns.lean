import Switchboard.Cli.CodexAccounts

/-!
# No Codex account is lost

The latest credentials of an account are live or in its profile as long as whatever puts
another live file in place finds the live credentials saved, and what it puts there is not
older than what is saved. Only a stash that is put back and the login itself do so without
a look at the live file.
-/

namespace Switchboard.Cli

variable {jwtClaims : String → Json}

theorem account?_eq_some {file : Option AuthFile} {accountId : String} :
    account? jwtClaims file = some accountId ↔
      ∃ i, identity jwtClaims file = .ok i ∧ i.accountId = accountId := by
  unfold account?
  split
  · rename_i i hi
    simp [hi]
  · rename_i hi
    simp [hi]

theorem account?_none : account? jwtClaims none = none := rfl

namespace AccountStore

variable {s s' : AccountStore} {profile accountId : String} {file : AuthFile}

theorem isProfile_unique {f g : AuthFile} (hf : s.IsProfile profile f)
    (hg : s.IsProfile profile g) : f = g := by
  have h := hf.2.symm.trans hg.2
  exact Option.some.inj (Option.some.inj h)

theorem isProfile_profileAuth (hvalid : validProfile profile = true)
    (hfile : s.profileAuth profile = some file) : s.IsProfile profile file := by
  refine ⟨hvalid, ?_⟩
  unfold profileAuth at hfile
  cases hget : s.profiles.get? profile with
  | none =>
    rw [hget] at hfile
    cases hfile
  | some f =>
    rw [hget] at hfile
    exact congrArg some hfile

/-! ## Where a file is saved -/

theorem of_profileForAccount (h : s.profileForAccount jwtClaims accountId = some profile) :
    validProfile profile = true ∧ account? jwtClaims (s.profileAuth profile) = some accountId := by
  unfold profileForAccount at h
  obtain ⟨⟨name, f⟩, hfind, rfl⟩ := Option.map_eq_some_iff.mp h
  have hmem := List.mem_of_find?_eq_some hfind
  have hprop := List.find?_some hfind
  simp only [decide_eq_true_eq] at hprop
  refine ⟨hprop.1, ?_⟩
  have hget : s.profiles.get? name = some f := Dict.get?_eq_some.mpr hmem
  simpa [profileAuth, hget] using hprop.2

theorem not_isProfile_of_profileForAccount (h : s.profileForAccount jwtClaims accountId = none)
    (hfile : account? jwtClaims (some file) = some accountId) : ¬ s.IsProfile profile file := by
  rintro ⟨hvalid, hget⟩
  unfold profileForAccount at h
  rw [Option.map_eq_none_iff, List.find?_eq_none] at h
  have hno := h (profile, some file) (Dict.get?_eq_some.mp hget)
  simp only [decide_eq_true_eq] at hno
  exact hno ⟨hvalid, hfile⟩

theorem countedProfile_free (candidate : String) :
    s.profileExists (s.countedProfile candidate) = false := by
  unfold countedProfile
  by_cases hcandidate : s.profileExists candidate = true
  · rw [if_neg (not_not.mpr hcandidate)]
    exact Nat.find_spec (s.exists_free candidate)
  · rw [if_pos hcandidate]
    exact Bool.not_eq_true _ ▸ hcandidate

theorem availableProfile_free (requested fallback : String) :
    s.profileExists (s.availableProfile requested accountId fallback) = false := by
  unfold availableProfile
  by_cases hrequested : s.profileExists requested = true
  · rw [if_neg (not_not.mpr hrequested)]
    exact countedProfile_free _
  · rw [if_pos hrequested]
    exact Bool.not_eq_true _ ▸ hrequested

/-- A file is saved under the only name its account can have. -/
structure Saves (jwtClaims : String → Json) (s s' : AccountStore) (profile : String)
    (file : AuthFile) : Prop where
  valid : validProfile profile = true
  /-- The name is new, or the account's own. -/
  own : s.profileExists profile = false ∨
    account? jwtClaims (s.profileAuth profile) = account? jwtClaims (some file)
  only : ∀ other g, s.IsProfile other g →
    account? jwtClaims (some g) = account? jwtClaims (some file) → other = profile
  profiles : s'.profiles = s.profiles.set profile (some file)
  live : s'.live = s.live
  writes : s'.writes = s.writes ++ [⟨profile, s.profileAuth profile, file⟩]

theorem Saves.of_saveProfile (hdistinct : s.Distinct jwtClaims)
    (hfile : account? jwtClaims (some file) = some accountId)
    (hprofile : s.profileForAccount jwtClaims accountId = some profile ∨
      s.profileForAccount jwtClaims accountId = none ∧ s.profileExists profile = false)
    (hsave : s.saveProfile profile file = (.ok (), s')) : Saves jwtClaims s s' profile file := by
  unfold saveProfile at hsave
  by_cases hvalid : validProfile profile = true
  swap
  · rw [if_pos hvalid] at hsave
    cases hsave
  rw [if_neg (not_not.mpr hvalid)] at hsave
  cases hsave
  refine ⟨hvalid, ?_, ?_, rfl, rfl, rfl⟩
  · rcases hprofile with hown | ⟨-, hfree⟩
    · exact Or.inr ((of_profileForAccount hown).2.trans hfile.symm)
    · exact Or.inl hfree
  · intro other g hother hg
    rw [hfile] at hg
    rcases hprofile with hown | ⟨hnone, -⟩
    · obtain ⟨-, haccount⟩ := of_profileForAccount hown
      cases hauth : s.profileAuth profile with
      | none =>
        rw [hauth] at haccount
        cases haccount
      | some f =>
        rw [hauth] at haccount
        exact hdistinct other profile g f accountId hother (isProfile_profileAuth hvalid hauth) hg
          haccount
    · exact absurd hother (not_isProfile_of_profileForAccount hnone hg)

theorem Saves.isProfile (h : Saves jwtClaims s s' profile file) {other : String} {g : AuthFile} :
    s'.IsProfile other g ↔ other = profile ∧ g = file ∨ other ≠ profile ∧ s.IsProfile other g := by
  unfold IsProfile
  rw [h.profiles, Dict.get?_set]
  split_ifs with heq
  · subst heq
    simp [h.valid, eq_comm]
  · simp [heq]

theorem Saves.saved (h : Saves jwtClaims s s' profile file) : s'.Saved file :=
  ⟨profile, h.isProfile.mpr (Or.inl ⟨rfl, rfl⟩)⟩

theorem Saves.distinct (h : Saves jwtClaims s s' profile file) (hdistinct : s.Distinct jwtClaims) :
    s'.Distinct jwtClaims := by
  intro p q f g accountId hp hq hf hg
  rcases h.isProfile.mp hp with ⟨rfl, rfl⟩ | ⟨hpne, hp⟩
  · rcases h.isProfile.mp hq with ⟨rfl, -⟩ | ⟨hqne, hq⟩
    · rfl
    · exact (h.only q g hq (hg.trans hf.symm)).symm
  · rcases h.isProfile.mp hq with ⟨rfl, rfl⟩ | ⟨hqne, hq⟩
    · exact h.only p f hp (hf.trans hg.symm)
    · exact hdistinct p q f g accountId hp hq hf hg

theorem syncProfile_own (i : Identity) (fallback : String) :
    s.profileForAccount jwtClaims i.accountId = some (s.syncProfile jwtClaims i fallback) ∨
      s.profileForAccount jwtClaims i.accountId = none ∧
        s.profileExists (s.syncProfile jwtClaims i fallback) = false := by
  unfold syncProfile
  dsimp only
  split
  · rename_i name hname
    exact Or.inl hname
  · rename_i hnone
    refine Or.inr ⟨hnone, ?_⟩
    split
    · rename_i marker _
      by_cases hmarker : s.profileExists marker = true
      · rw [if_neg (not_not.mpr hmarker)]
        exact availableProfile_free _ _
      · rw [if_pos hmarker]
        exact Bool.not_eq_true _ ▸ hmarker
    · exact availableProfile_free _ _

/-- What a sync does, if it does not fail. -/
theorem of_syncLive (hdistinct : s.Distinct jwtClaims) {fallback : String}
    {result : Option String} (h : s.syncLive jwtClaims fallback = (.ok result, s')) :
    s.live = none ∧ s' = s ∨
      ∃ live name, s.live = some live ∧ account? jwtClaims (some live) ≠ none ∧
        Saves jwtClaims s s' name live := by
  unfold syncLive at h
  split at h
  · rename_i hlive
    cases h
    exact Or.inl ⟨hlive, rfl⟩
  rename_i live hlive
  split at h
  · cases h
  rename_i i hi
  have haccount : account? jwtClaims (some live) = some i.accountId :=
    account?_eq_some.mpr ⟨i, hi, rfl⟩
  refine Or.inr ⟨live, ?_⟩
  dsimp only at h
  split at h
  · cases h
  rename_i stored hsave
  cases h
  refine ⟨s.syncProfile jwtClaims i fallback, hlive, by simp [haccount], ?_⟩
  have hsaves := Saves.of_saveProfile hdistinct haccount (syncProfile_own i fallback) hsave
  exact ⟨hsaves.valid, hsaves.own, hsaves.only, hsaves.profiles, hsaves.live, hsaves.writes⟩

theorem syncLive_error {fallback : String} {error : AccountError}
    (h : s.syncLive jwtClaims fallback = (.error error, s')) : s' = s := by
  unfold syncLive at h
  split at h
  · cases h
  split at h
  · cases h
    rfl
  dsimp only at h
  split at h
  · rename_i hsave
    cases h
    unfold saveProfile at hsave
    split_ifs at hsave <;> cases hsave
    rfl
  · cases h

end AccountStore

namespace AccountWorld

open AccountStore

variable {w : AccountWorld}

/-! ## The property -/

structure Safe (jwtClaims : String → Json) (w : AccountWorld) : Prop where
  /-- The latest credentials of an account are live or in a profile of that account. -/
  kept : ∀ accountId c, w.latest.get? accountId = some c →
    account? jwtClaims (some c) = some accountId ∧ (w.store.live = some c ∨ w.store.Saved c)
  /-- No profile was overwritten with another account, and none has two. -/
  separate : ∀ write ∈ w.store.writes, ∀ accountId,
    account? jwtClaims write.before = some accountId →
    account? jwtClaims (some write.written) = some accountId
  distinct : w.store.Distinct jwtClaims

/-- The live credentials, if they count, are saved or have this property. -/
def LiveSaved (jwtClaims : String → Json) (w : AccountWorld)
    (P : AuthFile → String → Prop) : Prop :=
  ∀ c accountId, w.store.live = some c → account? jwtClaims (some c) = some accountId →
    w.leftover = false → w.store.Saved c ∨ P c accountId

/-- The live credentials are saved or stashed, and the stash is live or saved too or its
account has no profile. -/
structure Restorable (jwtClaims : String → Json) (w : AccountWorld) (stash : Option AuthFile) :
    Prop where
  live : w.LiveSaved jwtClaims fun c _ => stash = some c
  stash : ∀ c accountId, stash = some c → account? jwtClaims (some c) = some accountId →
    w.store.live = some c ∧ w.leftover = false ∨ w.store.Saved c ∨
      ∀ profile f, w.store.IsProfile profile f → account? jwtClaims (some f) ≠ some accountId

/-- A login finds the live credentials saved, or signs in to the same account, a stash that
is put back finds them saved and is not older than what is saved, and no profile has the
name of the directory or of its parent. -/
def Spares (jwtClaims : String → Json) (w : AccountWorld) : AccountOp → Prop
  | .select profile _ | .forget profile _ | .addBegin _ profile _ =>
    profile ≠ "." ∧ profile ≠ ".."
  | .loginEnds k ok written => ∀ task file, w.adds.get? k = some task →
      task.phase = .loggingIn → written = some file → w.LiveSaved jwtClaims fun _ accountId =>
        ok = true ∧ account? jwtClaims (some file) = some accountId
  | .addRestore k => ∀ task, w.adds.get? k = some task → task.phase = .failed →
      w.Restorable jwtClaims task.stash
  | .addFinish k _ => ∀ task, w.adds.get? k = some task → task.phase = .returned →
      account? jwtClaims w.store.live = none → w.Restorable jwtClaims task.stash
  | _ => True

/-- Profiles and history fit together. -/
structure Indexed (jwtClaims : String → Json) (w : AccountWorld) : Prop where
  distinct : w.store.Distinct jwtClaims
  own : ∀ accountId c, w.latest.get? accountId = some c →
    account? jwtClaims (some c) = some accountId
  tracked : ∀ profile f accountId, w.store.IsProfile profile f →
    account? jwtClaims (some f) = some accountId → ∃ c, w.latest.get? accountId = some c
  separate : ∀ write ∈ w.store.writes, ∀ accountId,
    account? jwtClaims write.before = some accountId →
    account? jwtClaims (some write.written) = some accountId

structure Settled (jwtClaims : String → Json) (w : AccountWorld) : Prop
    extends Indexed jwtClaims w where
  live : ∀ c accountId, w.store.live = some c → account? jwtClaims (some c) = some accountId →
    w.leftover = false → w.latest.get? accountId = some c
  kept : ∀ accountId c, w.latest.get? accountId = some c →
    w.store.live = some c ∧ w.leftover = false ∨ w.store.Saved c

theorem Settled.safe (h : w.Settled jwtClaims) : w.Safe jwtClaims where
  kept accountId c hc := ⟨h.own accountId c hc, (h.kept accountId c hc).imp_left And.left⟩
  separate := h.separate
  distinct := h.distinct

theorem Settled.of_init (h : (accountSystem jwtClaims).init w) : w.Settled jwtClaims := by
  obtain ⟨hdistinct, hwrites, -, hleftover, hlatest⟩ := h
  constructor
  · constructor
    · exact hdistinct
    · exact fun accountId c hc => ((hlatest accountId c).mp hc).1
    · intro profile f accountId hf haccount
      by_cases hlive : account? jwtClaims w.store.live = some accountId
      · cases hfile : w.store.live with
        | none =>
          rw [hfile] at hlive
          cases hlive
        | some c =>
          rw [hfile] at hlive
          exact ⟨c, (hlatest accountId c).mpr ⟨hlive, Or.inl hfile⟩⟩
      · exact ⟨f, (hlatest accountId f).mpr ⟨haccount, Or.inr ⟨hlive, profile, hf⟩⟩⟩
    · intro write hwrite
      rw [hwrites] at hwrite
      cases hwrite
  · exact fun c accountId hc haccount _ => (hlatest accountId c).mpr ⟨haccount, Or.inl hc⟩
  · intro accountId c hc
    exact ((hlatest accountId c).mp hc).2.imp (fun hlive => ⟨hlive, hleftover⟩) And.right

/-! ## The live file -/

@[simp] theorem noteLive_store : (w.noteLive jwtClaims).store = w.store := by
  unfold noteLive
  split <;> rfl

@[simp] theorem noteLive_leftover : (w.noteLive jwtClaims).leftover = false := by
  unfold noteLive
  split <;> rfl

/-- Whatever is not live is saved, and the live credentials become the latest. -/
theorem Settled.of_noteLive (h : w.Indexed jwtClaims)
    (hsaved : ∀ accountId c, w.latest.get? accountId = some c →
      account? jwtClaims w.store.live ≠ some accountId → w.store.Saved c) :
    (w.noteLive jwtClaims).Settled jwtClaims := by
  unfold noteLive
  split
  · rename_i live accountId hlive haccount
    rw [hlive] at haccount
    constructor
    · refine ⟨h.distinct, ?_, ?_, h.separate⟩
      · intro b c hc
        simp only [Dict.get?_set] at hc
        split_ifs at hc with hb
        · cases hc
          rw [hb]
          exact haccount
        · exact h.own b c hc
      · intro profile f b hf hb
        simp only [Dict.get?_set]
        split_ifs
        · exact ⟨live, rfl⟩
        · exact h.tracked profile f b hf hb
    · intro c b hc hb _
      dsimp only at hc
      rw [hlive] at hc
      cases hc
      rw [haccount] at hb
      cases hb
      exact Dict.get?_set_self _ _ _
    · intro b c hc
      simp only [Dict.get?_set] at hc
      split_ifs at hc with hb
      · cases hc
        exact Or.inl ⟨hlive, rfl⟩
      · refine Or.inr (hsaved b c hc ?_)
        rw [hlive, haccount]
        exact fun heq => hb (Option.some.inj heq).symm
  · rename_i hnone
    have haccount : account? jwtClaims w.store.live = none := by
      cases hlive : w.store.live with
      | none => rfl
      | some live =>
        cases hacc : account? jwtClaims (some live) with
        | none => rfl
        | some accountId => exact absurd (hlive ▸ hacc) (hnone live accountId hlive)
    refine ⟨⟨h.distinct, h.own, h.tracked, h.separate⟩, ?_, ?_⟩
    · intro c accountId hc hacc _
      dsimp only at hc
      rw [hc, hacc] at haccount
      cases haccount
    · intro accountId c hc
      exact Or.inr (hsaved accountId c hc (by simp [haccount]))

theorem takeUp_store : (w.takeUp jwtClaims).store = w.store := by
  unfold takeUp
  split_ifs
  · exact noteLive_store
  · rfl

theorem takeUp_leftover : (w.takeUp jwtClaims).leftover = false := by
  unfold takeUp
  split_ifs with hleft
  · exact noteLive_leftover
  · simpa using hleft

theorem Settled.of_takeUp (h : w.Settled jwtClaims) : (w.takeUp jwtClaims).Settled jwtClaims := by
  unfold takeUp
  split_ifs with hleft
  · refine Settled.of_noteLive h.toIndexed fun accountId c hc _ => ?_
    refine (h.kept accountId c hc).resolve_left fun hlive => ?_
    rw [hleft] at hlive
    cases hlive.2
  · exact h

/-- The live credentials are saved. -/
theorem Settled.of_saves (h : w.Settled jwtClaims) (hleft : w.leftover = false)
    {s' : AccountStore} {name : String} {live : AuthFile} (hlive : w.store.live = some live)
    (haccount : account? jwtClaims (some live) ≠ none)
    (hsaves : Saves jwtClaims w.store s' name live) :
    { w with store := s' }.Settled jwtClaims := by
  obtain ⟨accountId, haccount⟩ := Option.ne_none_iff_exists'.mp haccount
  have hlatest := h.live live accountId hlive haccount hleft
  constructor
  · refine ⟨hsaves.distinct h.distinct, h.own, ?_, ?_⟩
    · intro profile f b hf hb
      rcases hsaves.isProfile.mp hf with ⟨-, rfl⟩ | ⟨-, hf⟩
      · rw [haccount] at hb
        cases hb
        exact ⟨f, hlatest⟩
      · exact h.tracked profile f b hf hb
    · intro write hwrite b hb
      dsimp only at hwrite
      rw [hsaves.writes] at hwrite
      rcases List.mem_append.mp hwrite with hold | hnew
      · exact h.separate write hold b hb
      · rw [List.mem_singleton.mp hnew] at hb ⊢
        rcases hsaves.own with hfree | hsame
        · have hnone : w.store.profileAuth name = none := by
            unfold profileAuth
            unfold profileExists at hfree
            rw [Dict.contains, Option.isSome_eq_false_iff, Option.isNone_iff_eq_none] at hfree
            rw [hfree]
            rfl
          rw [hnone] at hb
          cases hb
        · exact hsame ▸ hb
  · intro c b hc hb hleft'
    dsimp only at hc
    rw [hsaves.live] at hc
    exact h.live c b hc hb hleft'
  · intro b c hc
    rcases h.kept b c hc with ⟨hlivec, hleft'⟩ | ⟨profile, hprofile⟩
    · exact Or.inl ⟨hsaves.live.trans hlivec, hleft'⟩
    · by_cases hname : profile = name
      · -- What is overwritten belongs to the live account.
        have hb := h.own b c hc
        have hsame : b = accountId := by
          rcases hsaves.own with hfree | hsame
          · rw [hname] at hprofile
            simp [profileExists, Dict.contains, hprofile.2] at hfree
          · rw [hname] at hprofile
            have hauth : w.store.profileAuth name = some c := by
              simp [profileAuth, hprofile.2]
            rw [hauth, hb, haccount] at hsame
            exact Option.some.inj hsame
        rw [hsame, hlatest] at hc
        cases hc
        exact Or.inr hsaves.saved
      · exact Or.inr ⟨profile, hsaves.isProfile.mpr (Or.inr ⟨hname, hprofile⟩)⟩

/-! ## Sections -/

theorem Settled.of_setAdd (h : w.Settled jwtClaims) (k : ℕ) (task : AddTask) :
    (w.setAdd k task).Settled jwtClaims :=
  ⟨⟨h.distinct, h.own, h.tracked, h.separate⟩, h.live, h.kept⟩

/-- A sync that fails changes nothing. -/
theorem Settled.of_failed (h : w.Settled jwtClaims) {s' : AccountStore} (hs : s' = w.store) :
    { w.takeUp jwtClaims with store := s' }.Settled jwtClaims := by
  have htaken := h.of_takeUp
  rw [hs, ← takeUp_store]
  exact htaken

/-- After a sync the live credentials are saved. -/
theorem Settled.of_sync (h : w.Settled jwtClaims) {fallback : String} {result : Option String}
    {s' : AccountStore} (hsync : w.store.syncLive jwtClaims fallback = (.ok result, s')) :
    { w.takeUp jwtClaims with store := s' }.Settled jwtClaims ∧
      ∀ c, s'.live = some c → s'.Saved c := by
  rcases of_syncLive h.distinct hsync with ⟨hlive, hs⟩ | ⟨live, name, hlive, haccount, hsaves⟩
  · refine ⟨h.of_failed hs, fun c hc => ?_⟩
    rw [hs, hlive] at hc
    cases hc
  · rw [← takeUp_store] at hlive hsaves
    refine ⟨h.of_takeUp.of_saves takeUp_leftover hlive haccount hsaves, fun c hc => ?_⟩
    rw [hsaves.live, hlive] at hc
    cases hc
    exact hsaves.saved

theorem Settled.of_list (h : w.Settled jwtClaims) (fallback : String) :
    (w.list jwtClaims fallback).Settled jwtClaims := by
  unfold list listAccounts
  split
  · rename_i hsync
    exact h.of_failed (syncLive_error hsync)
  · rename_i hsync
    exact (h.of_sync hsync).1

/-- The credentials of a profile are the latest of their account, unless it is live. -/
theorem Settled.profile_latest (h : w.Settled jwtClaims) {profile accountId : String}
    {f : AuthFile} (hf : w.store.IsProfile profile f)
    (haccount : account? jwtClaims (some f) = some accountId)
    (hlive : ∀ c, w.store.live = some c → w.store.Saved c) :
    w.latest.get? accountId = some f := by
  obtain ⟨c, hc⟩ := h.tracked profile f accountId hf haccount
  have hsaved : w.store.Saved c := by
    rcases h.kept accountId c hc with ⟨hc, -⟩ | hc
    · exact hlive c hc
    · exact hc
  obtain ⟨other, hother⟩ := hsaved
  have hsame := h.distinct other profile c f accountId hother hf (h.own accountId c hc) haccount
  subst hsame
  rw [hc, isProfile_unique hother hf]

theorem Settled.of_select (h : w.Settled jwtClaims) (profile fallback : String) :
    (w.select jwtClaims profile fallback).Settled jwtClaims := by
  unfold select selectAccount
  by_cases hvalid : validProfile profile = true
  swap
  · rw [if_pos hvalid]
    exact h
  rw [if_neg (not_not.mpr hvalid), if_neg (not_not.mpr hvalid)]
  split
  · rename_i hsync
    exact h.of_failed (syncLive_error hsync)
  rename_i s' hsync
  obtain ⟨hsettled, hlive⟩ := h.of_sync hsync
  dsimp only
  split
  · exact hsettled
  rename_i i hi
  have haccount : account? jwtClaims (s'.profileAuth profile) = some i.accountId :=
    account?_eq_some.mpr ⟨i, hi, rfl⟩
  constructor
  · exact ⟨hsettled.distinct, hsettled.own, hsettled.tracked, hsettled.separate⟩
  · intro c accountId hc hacc _
    exact hsettled.profile_latest (isProfile_profileAuth hvalid hc) hacc hlive
  · intro accountId c hc
    rcases hsettled.kept accountId c hc with ⟨hc, -⟩ | hc
    · exact Or.inr (hlive c hc)
    · exact Or.inr hc

/-- The profile of an account that is not live is removed. -/
theorem Settled.of_forgotten (h : w.Settled jwtClaims) {profile forgotten : String} {f : AuthFile}
    (hf : w.store.IsProfile profile f) (haccount : account? jwtClaims (some f) = some forgotten)
    (hinactive : account? jwtClaims w.store.live ≠ some forgotten) (marker : Option String) :
    { w with
      store := { w.store with profiles := w.store.profiles.erase profile, marker := marker }
      latest := w.latest.erase forgotten }.Settled jwtClaims := by
  have hothers : ∀ other g,
      ({ w.store with profiles := w.store.profiles.erase profile, marker := marker } :
        AccountStore).IsProfile other g ↔ other ≠ profile ∧ w.store.IsProfile other g := by
    intro other g
    unfold IsProfile
    dsimp only
    rw [Dict.get?_erase]
    split_ifs with heq
    · simp [heq]
    · simp [heq]
  constructor
  · refine ⟨?_, ?_, ?_, h.separate⟩
    · intro p q g g' accountId hp hq
      exact h.distinct p q g g' accountId ((hothers p g).mp hp).2 ((hothers q g').mp hq).2
    · intro accountId c hc
      dsimp only at hc
      rw [Dict.get?_erase] at hc
      split_ifs at hc
      exact h.own accountId c hc
    · intro p g accountId hp hg
      obtain ⟨hne, hold⟩ := (hothers p g).mp hp
      dsimp only
      rw [Dict.get?_erase, if_neg]
      · exact h.tracked p g accountId hold hg
      · rintro rfl
        exact hne (h.distinct p profile g f _ hold hf hg haccount)
  · intro c accountId hc hacc hleft
    dsimp only at hc ⊢
    rw [Dict.get?_erase, if_neg]
    · exact h.live c accountId hc hacc hleft
    · rintro rfl
      exact hinactive (hc ▸ hacc)
  · intro accountId c hc
    dsimp only at hc
    rw [Dict.get?_erase] at hc
    split_ifs at hc with hne
    refine (h.kept accountId c hc).imp_right ?_
    rintro ⟨p, hp⟩
    refine ⟨p, (hothers p c).mpr ⟨?_, hp⟩⟩
    rintro rfl
    rw [isProfile_unique hf hp, h.own accountId c hc] at haccount
    exact hne (Option.some.inj haccount)

theorem Settled.of_forget (h : w.Settled jwtClaims) (profile fallback : String) :
    (w.forget jwtClaims profile fallback).Settled jwtClaims := by
  unfold forget
  by_cases hvalid : validProfile profile = true
  swap
  · rw [if_pos hvalid]
    exact h
  rw [if_neg (not_not.mpr hvalid)]
  unfold forgetAccount
  rw [if_neg (not_not.mpr hvalid)]
  dsimp only
  cases hsync : w.store.syncLive jwtClaims fallback with
  | mk outcome s' =>
    cases outcome with
    | error error => exact h.of_failed (syncLive_error hsync)
    | ok result =>
      obtain ⟨hsettled, -⟩ := h.of_sync hsync
      dsimp only
      by_cases hexists : s'.profileExists profile = true
      swap
      · rw [if_pos hexists]
        exact hsettled
      rw [if_neg (not_not.mpr hexists)]
      cases hi : identity jwtClaims (s'.profileAuth profile) with
      | error error => exact hsettled
      | ok target =>
        have haccount : account? jwtClaims (s'.profileAuth profile) = some target.accountId :=
          account?_eq_some.mpr ⟨target, hi, rfl⟩
        dsimp only
        by_cases hactive : account? jwtClaims s'.live = some target.accountId
        · rw [if_pos hactive]
          exact hsettled
        rw [if_neg hactive]
        dsimp only
        rw [haccount]
        cases hfile : s'.profileAuth profile with
        | none =>
          rw [hfile] at haccount
          cases haccount
        | some f =>
          exact hsettled.of_forgotten (isProfile_profileAuth hvalid hfile) (hfile ▸ haccount)
            hactive _

theorem Settled.of_addStash (h : w.Settled jwtClaims) (k : ℕ) (fallback : String) :
    (w.addStash jwtClaims k fallback).Settled jwtClaims := by
  unfold addStash
  split
  · exact h
  rename_i task _
  split_ifs
  swap
  · exact h
  unfold stashLive
  cases hsync : w.store.syncLive jwtClaims fallback with
  | mk outcome s' =>
    cases outcome with
    | error error => exact (h.of_failed (syncLive_error hsync)).of_setAdd _ _
    | ok result =>
      obtain ⟨hsettled, hlive⟩ := h.of_sync hsync
      dsimp only
      by_cases hexists : s'.profileExists task.profile = true
      · rw [if_pos hexists]
        exact hsettled.of_setAdd _ _
      · rw [if_neg hexists]
        refine Settled.of_setAdd ?_ _ _
        refine ⟨⟨hsettled.distinct, hsettled.own, hsettled.tracked, hsettled.separate⟩,
          (fun _ _ hc => nomatch hc), fun accountId c hc => Or.inr ?_⟩
        rcases hsettled.kept accountId c hc with ⟨hc, -⟩ | hc
        · exact hlive c hc
        · exact hc

/-! ## Logins and stashes -/

/-- Another file is live, and what was live is saved or of the same account. -/
theorem Settled.of_writeLive (h : w.Settled jwtClaims) {file : AuthFile}
    (hlive : w.LiveSaved jwtClaims fun _ accountId =>
      account? jwtClaims (some file) = some accountId) :
    ((w.writeLive file).noteLive jwtClaims).Settled jwtClaims := by
  refine Settled.of_noteLive ⟨h.distinct, h.own, h.tracked, h.separate⟩ fun accountId c hc hne => ?_
  rcases h.kept accountId c hc with ⟨hcLive, hleft⟩ | hsaved
  · exact (hlive c accountId hcLive (h.own accountId c hc) hleft).resolve_right hne
  · exact hsaved

theorem Settled.of_loginEnds (h : w.Settled jwtClaims) {k : ℕ} {ok : Bool}
    {written : Option AuthFile} (hspares : w.Spares jwtClaims (.loginEnds k ok written)) :
    (w.loginEnds jwtClaims k ok written).Settled jwtClaims := by
  unfold loginEnds
  split
  · exact h
  rename_i task htask
  by_cases hphase : task.phase = .loggingIn
  swap
  · rw [if_neg hphase]
    exact h
  rw [if_pos hphase]
  refine Settled.of_setAdd ?_ k _
  cases written with
  | none => exact h
  | some file =>
    have hlive := hspares task file htask hphase rfl
    cases ok with
    | true =>
      refine h.of_writeLive fun c accountId hc hacc hleft => ?_
      exact (hlive c accountId hc hacc hleft).imp_right And.right
    | false =>
      refine ⟨⟨h.distinct, h.own, h.tracked, h.separate⟩, (fun _ _ _ _ hleft => nomatch hleft),
        fun accountId c hc => Or.inr ?_⟩
      rcases h.kept accountId c hc with ⟨hcLive, hleft⟩ | hsaved
      · refine (hlive c accountId hcLive (h.own accountId c hc) hleft).resolve_right ?_
        rintro ⟨hok, -⟩
        cases hok
      · exact hsaved

/-- A stash that is put back is the latest of its account. -/
theorem Settled.stash_latest (h : w.Settled jwtClaims) {stash : Option AuthFile}
    (hrestorable : w.Restorable jwtClaims stash) {c d : AuthFile} {accountId : String}
    (hstash : stash = some c) (haccount : account? jwtClaims (some c) = some accountId)
    (hd : w.latest.get? accountId = some d) : d = c := by
  have hdacc := h.own accountId d hd
  rcases hrestorable.stash c accountId hstash haccount with ⟨hlive, hleft⟩ | hc
  · rw [h.live c accountId hlive haccount hleft] at hd
    exact (Option.some.inj hd).symm
  -- The latest credentials are saved too, unless they are the stash.
  have hsaved : w.store.Saved d ∨ stash = some d := by
    rcases h.kept accountId d hd with ⟨hlive, hleft⟩ | hsaved
    · exact hrestorable.live d accountId hlive hdacc hleft
    · exact Or.inl hsaved
  rcases hsaved with ⟨p, hp⟩ | hsame
  · rcases hc with ⟨q, hq⟩ | hno
    · have hpq := h.distinct p q d c accountId hp hq hdacc haccount
      subst hpq
      exact isProfile_unique hp hq
    · exact absurd hdacc (hno p d hp)
  · rw [hstash] at hsame
    exact (Option.some.inj hsame).symm

theorem Settled.of_restore (h : w.Settled jwtClaims) (k : ℕ) {task : AddTask}
    (hrestorable : w.Restorable jwtClaims task.stash) :
    (w.restore jwtClaims k task).Settled jwtClaims := by
  refine Settled.of_setAdd ?_ k _
  have hkept : ∀ accountId c, w.latest.get? accountId = some c →
      task.stash = some c ∨ w.store.Saved c := by
    intro accountId c hc
    rcases h.kept accountId c hc with ⟨hlive, hleft⟩ | hsaved
    · exact (hrestorable.live c accountId hlive (h.own accountId c hc) hleft).symm
    · exact Or.inr hsaved
  split
  · rename_i stash accountId hstash haccount
    rw [hstash] at haccount
    split_ifs with hcontains
    · obtain ⟨d, hd⟩ := Dict.contains_iff.mp hcontains
      have hlatest := h.stash_latest hrestorable hstash haccount hd
      refine ⟨⟨h.distinct, h.own, h.tracked, h.separate⟩, ?_, ?_⟩
      · intro c b hc hb _
        have hcs : c = stash := Option.some.inj (hc.symm.trans hstash)
        rw [hcs, haccount] at hb
        cases hb
        rw [hcs, ← hlatest]
        exact hd
      · intro b c hc
        exact (hkept b c hc).imp (fun hlive => ⟨hlive, rfl⟩) id
    · have hnone : w.latest.get? accountId = none := by
        simpa [Dict.contains] using hcontains
      refine ⟨⟨h.distinct, ?_, ?_, h.separate⟩, ?_, ?_⟩
      · intro b c hc
        simp only [Dict.get?_set] at hc
        split_ifs at hc with hb
        · cases hc
          rw [hb]
          exact haccount
        · exact h.own b c hc
      · intro p f b hf hb
        simp only [Dict.get?_set]
        split_ifs
        · exact ⟨stash, rfl⟩
        · exact h.tracked p f b hf hb
      · intro c b hc hb _
        have hcs : c = stash := Option.some.inj (hc.symm.trans hstash)
        rw [hcs, haccount] at hb
        cases hb
        rw [hcs]
        exact Dict.get?_set_self _ _ _
      · intro b c hc
        simp only [Dict.get?_set] at hc
        split_ifs at hc with hb
        · cases hc
          exact Or.inl ⟨hstash, rfl⟩
        · exact (hkept b c hc).imp (fun hlive => ⟨hlive, rfl⟩) id
  · rename_i hno
    refine ⟨⟨h.distinct, h.own, h.tracked, h.separate⟩, ?_, ?_⟩
    · intro c accountId hc hacc _
      exact absurd ((congrArg (account? jwtClaims) hc).trans hacc) (hno c accountId hc)
    · intro b c hc
      exact (hkept b c hc).imp (fun hlive => ⟨hlive, rfl⟩) id

theorem Settled.of_addRestore (h : w.Settled jwtClaims) {k : ℕ}
    (hspares : w.Spares jwtClaims (.addRestore k)) :
    (w.addRestore jwtClaims k).Settled jwtClaims := by
  unfold addRestore
  split
  · exact h
  rename_i task htask
  split_ifs with hphase
  · exact h.of_restore k (hspares task htask hphase)
  · exact h

theorem Settled.of_addFinish (h : w.Settled jwtClaims) {k : ℕ} {fallback : String}
    (hspares : w.Spares jwtClaims (.addFinish k fallback)) :
    (w.addFinish jwtClaims k fallback).Settled jwtClaims := by
  unfold addFinish
  split
  · exact h
  rename_i task htask
  split_ifs with hphase hnone
  · exact h.of_restore k (hspares task htask hphase hnone)
  swap
  · exact h
  refine Settled.of_setAdd ?_ _ _
  obtain ⟨accountId, haccount⟩ := Option.ne_none_iff_exists'.mp hnone
  obtain ⟨i, hi, hid⟩ := account?_eq_some.mp haccount
  cases hlive : w.store.live with
  | none =>
    rw [hlive] at haccount
    cases haccount
  | some live =>
    rw [hlive] at haccount
    unfold finishAdd
    rw [hlive] at hi ⊢
    rw [hi]
    dsimp only
    split
    · rename_i s' hsave
      refine h.of_failed ?_
      unfold saveProfile at hsave
      split_ifs at hsave <;> cases hsave
      rfl
    · rename_i s' hsave
      have hown : ∃ target, (w.store.profileForAccount jwtClaims i.accountId = some target ∨
          w.store.profileForAccount jwtClaims i.accountId = none ∧
            w.store.profileExists target = false) ∧
          w.store.saveProfile target live = (.ok (), s') := by
        cases hname : w.store.profileForAccount jwtClaims i.accountId with
        | some name =>
          rw [hname] at hsave
          exact ⟨name, Or.inl rfl, hsave⟩
        | none =>
          rw [hname] at hsave
          exact ⟨_, Or.inr ⟨rfl, availableProfile_free _ _⟩, hsave⟩
      obtain ⟨target, hown, hsaved⟩ := hown
      have hsaves := Saves.of_saveProfile h.distinct (hid ▸ haccount) hown hsaved
      rw [← takeUp_store] at hsaves hlive
      have hsettled := h.of_takeUp.of_saves takeUp_leftover hlive (by simp [haccount]) hsaves
      exact ⟨⟨hsettled.distinct, hsettled.own, hsettled.tracked, hsettled.separate⟩,
        hsettled.live, hsettled.kept⟩

theorem Settled.of_rotate (h : w.Settled jwtClaims) (file : AuthFile) :
    (w.rotate jwtClaims file).Settled jwtClaims := by
  unfold rotate
  split_ifs with hsame
  · refine h.of_writeLive fun c accountId hc hacc _ => Or.inr ?_
    rw [hsame.2, hc, hacc]
  · exact h

/-! ## Runs -/

theorem Settled.step (h : w.Settled jwtClaims) {op : AccountOp}
    (hspares : w.Spares jwtClaims op) : (op.apply jwtClaims w).Settled jwtClaims := by
  cases op with
  | list fallback => exact h.of_list fallback
  | select profile fallback => exact h.of_select profile fallback
  | forget profile fallback => exact h.of_forget profile fallback
  | addBegin k profile codexFound =>
    simp only [AccountOp.apply, addBegin]
    split_ifs
    · exact h.of_setAdd _ _
    · exact h
  | addStash k fallback => exact h.of_addStash k fallback
  | loginEnds k ok written => exact h.of_loginEnds hspares
  | addRestore k => exact h.of_addRestore hspares
  | addFinish k fallback => exact h.of_addFinish hspares
  | rotate file => exact h.of_rotate file

theorem settled_of_reach (h : (accountSystem jwtClaims).Reach (Spares jwtClaims) w) :
    w.Settled jwtClaims := by
  refine System.Reach.invariant (fun _ h0 => .of_init h0) ?_ h
  rintro s op _ _ hs hspares rfl
  exact hs.step hspares

end AccountWorld

section Example

open AccountStore AccountWorld

/-- Credentials of an account, without an identity token. -/
def sampleAuth (accountId refresh : String) : AuthFile :=
  .json (.obj [("tokens", .obj [("account_id", .str accountId), ("refresh_token", .str refresh)])])

def noClaims (_ : String) : Json := .obj []

/-- One account is live and another one is saved. -/
def firstWorld : AccountWorld where
  store :=
    { live := some (sampleAuth "A" "a1")
      profiles := .ofList [("b", some (sampleAuth "B" "b1"))] }
  latest := .ofList [("A", sampleAuth "A" "a1"), ("B", sampleAuth "B" "b1")]

theorem account?_sampleAuth (accountId refresh : String) (h : accountId ≠ "") :
    account? noClaims (some (sampleAuth accountId refresh)) = some accountId := by
  simp [account?, identity, readAuth, sampleAuth, Json.get?, Json.getD, Json.text?, h, bind,
    Except.bind]

theorem firstWorld_isProfile {p : String} {f : AuthFile} (h : firstWorld.store.IsProfile p f) :
    p = "b" ∧ f = sampleAuth "B" "b1" := by
  have hmem := Dict.get?_eq_some.mp h.2
  rw [show firstWorld.store.profiles.entries = [("b", some (sampleAuth "B" "b1"))] from rfl,
    List.mem_singleton] at hmem
  cases hmem
  exact ⟨rfl, rfl⟩

theorem firstWorld_init : (accountSystem noClaims).init firstWorld := by
  have hA : account? noClaims (some (sampleAuth "A" "a1")) = some "A" :=
    account?_sampleAuth _ _ (by decide)
  have hB : account? noClaims (some (sampleAuth "B" "b1")) = some "B" :=
    account?_sampleAuth _ _ (by decide)
  refine ⟨?_, rfl, rfl, rfl, ?_⟩
  · intro p q f g _ hp hq _ _
    rw [(firstWorld_isProfile hp).1, (firstWorld_isProfile hq).1]
  · intro accountId file
    rw [Dict.get?_eq_some, show firstWorld.latest.entries =
      [("A", sampleAuth "A" "a1"), ("B", sampleAuth "B" "b1")] from rfl]
    simp only [List.mem_cons, Prod.mk.injEq, List.not_mem_nil, or_false]
    constructor
    · rintro (⟨rfl, rfl⟩ | ⟨rfl, rfl⟩)
      · exact ⟨hA, Or.inl rfl⟩
      · refine ⟨hB, Or.inr ⟨?_, "b", by decide, rfl⟩⟩
        exact fun heq => absurd (hA.symm.trans heq) (by decide)
    · rintro ⟨haccount, hlive | ⟨-, p, hp⟩⟩
      · cases hlive
        exact Or.inl ⟨Option.some.inj (haccount.symm.trans hA), rfl⟩
      · obtain ⟨-, rfl⟩ := firstWorld_isProfile hp
        exact Or.inr ⟨Option.some.inj (haccount.symm.trans hB), rfl⟩

/-- A sign-in is under way when another process selects the saved account, whose tokens the
Codex program then rotates. The sign-in fails. -/
def failedAdd : List AccountOp :=
  [.addBegin 1 "c" true, .addStash 1 "0", .select "b" "0", .rotate (sampleAuth "B" "b2"),
    .loginEnds 1 false none, .addRestore 1]

theorem sampleAuth_injective {a r a' r' : String} (h : sampleAuth a r = sampleAuth a' r') :
    a = a' ∧ r = r' := by
  simpa [sampleAuth] using h

/-- A sign-in to a third account while nothing is live. -/
def finishedAdd : List AccountOp :=
  [.addBegin 1 "c" true, .addStash 1 "0", .loginEnds 1 true (some (sampleAuth "C" "c1")),
    .addFinish 1 "0"]

theorem reach_sample {w : AccountWorld} (h : (accountSystem noClaims).Reach (Spares noClaims) w)
    (op : AccountOp) (hspares : w.Spares noClaims op) :
    (accountSystem noClaims).Reach (Spares noClaims) (op.apply noClaims w) :=
  h.next hspares rfl

end Example

end Switchboard.Cli
