import Switchboard.Providers.CodexAuth

/-!
# Codex credentials across processes

While a refresh has the file lock the file stays as it was when the request was sent. If
it was then what the process had cached, the request presents the token in the file and
the answer replaces or deletes these credentials and no others.
-/

namespace Switchboard.Providers

namespace OpenAIAuthManager

variable {m : OpenAIAuthManager} {c : Credentials}

/-- Credentials that a process may still cache, present or write. -/
inductive Holds (m : OpenAIAuthManager) (c : Credentials) : Prop
  | cached : m.credentials = some c → Holds m c
  | waiting {caller} : m.activity = .waitLock c caller → Holds m c
  | refreshing {caller} : m.activity = .refreshing c caller → Holds m c
  | granted : m.login = some (.granted c) → Holds m c
  | written : m.login = some (.written c) → Holds m c

/-- Without a request, a process holds what it caches and what its login brought. -/
theorem Holds.of_calm (h : m.Holds c) (hwait : ∀ caller, m.activity ≠ .waitLock c caller)
    (hrefresh : ∀ caller, m.activity ≠ .refreshing c caller) :
    m.credentials = some c ∨ m.login = some (.granted c) ∨ m.login = some (.written c) := by
  cases h with
  | cached h => exact Or.inl h
  | waiting h => exact absurd h (hwait _)
  | refreshing h => exact absurd h (hrefresh _)
  | granted h => exact Or.inr (Or.inl h)
  | written h => exact Or.inr (Or.inr h)

theorem Holds.of_idle (h : m.Holds c) (hidle : m.activity = .idle) :
    m.credentials = some c ∨ m.login = some (.granted c) ∨ m.login = some (.written c) :=
  h.of_calm (by simp [hidle]) (by simp [hidle])

theorem Holds.of_finish {outcome : Except AuthError OpenAIAccess}
    (h : (m.finish outcome).Holds c) : m.Holds c := by
  rcases h.of_idle rfl with h | h | h
  · exact .cached h
  · exact .granted h
  · exact .written h

theorem Holds.of_refreshFails {current : Credentials} {caller : RefreshCaller} {error : AuthError}
    (h : (m.refreshFails current caller error).Holds c) : m.Holds c := by
  unfold refreshFails at h
  split_ifs at h
  · exact h.of_finish
  · exact h.of_finish

@[simp] theorem activity_finish (outcome : Except AuthError OpenAIAccess) :
    (m.finish outcome).activity = .idle := rfl

@[simp] theorem activity_returns : (m.returns c).activity = .idle := rfl

@[simp] theorem activity_raises (error : AuthError) : (m.raises error).activity = .idle := rfl

@[simp] theorem activity_refreshFails (current : Credentials) (caller : RefreshCaller)
    (error : AuthError) : (m.refreshFails current caller error).activity = .idle := by
  unfold refreshFails
  split_ifs <;> rfl

end OpenAIAuthManager

namespace AuthWorld

open OpenAIAuthManager

variable {s : AuthWorld} {p : ℕ} {c : Credentials}

/-! ## Where credentials come from -/

/-- All credentials in use were given out by the server, with tokens of their own. -/
structure Known (s : AuthWorld) : Prop where
  file : ∀ c, s.file = some c → c ∈ s.issued
  held : ∀ p c, (s.processes p).Holds c → c ∈ s.issued
  changed : ∀ change ∈ s.changes, (∀ c, change.held = some c → c ∈ s.issued) ∧
    ∀ c, change.before = some c → c ∈ s.issued
  distinct : (s.issued.map (·.refreshToken)).Nodup

theorem Known.init : Known {} where
  file _ h := nomatch h
  held p c h := by
    rcases h with h | h | h | h | h <;> cases h
  changed _ h := nomatch h
  distinct := List.nodup_nil

/-- Credentials with one refresh token are the same. -/
theorem Known.eq_of_refreshToken (h : s.Known) {d : Credentials} (hc : c ∈ s.issued)
    (hd : d ∈ s.issued) (heq : c.refreshToken = d.refreshToken) : c = d :=
  List.inj_on_of_nodup_map h.distinct hc hd heq

theorem Known.congr {s' : AuthWorld} (h : s.Known) (hfile : s'.file = s.file)
    (hprocesses : s'.processes = s.processes) (hchanges : s'.changes = s.changes)
    (hissued : s'.issued = s.issued) : s'.Known where
  file := by
    rw [hfile, hissued]
    exact h.file
  held := by
    rw [hprocesses, hissued]
    exact h.held
  changed := by
    rw [hchanges, hissued]
    exact h.changed
  distinct := by
    rw [hissued]
    exact h.distinct

theorem Known.of_setProcess (h : s.Known) {m : OpenAIAuthManager}
    (hheld : ∀ c, m.Holds c → c ∈ s.issued) : (s.setProcess p m).Known where
  file := h.file
  held := by
    intro q c hc
    simp only [setProcess, Function.update_apply] at hc
    split_ifs at hc
    · exact hheld c hc
    · exact h.held q c hc
  changed := h.changed
  distinct := h.distinct

theorem Known.of_deleteFile (h : s.Known) {held : Option Credentials}
    (hheld : ∀ c, held = some c → c ∈ s.issued) : (s.deleteFile held).Known where
  file _ hc := nomatch hc
  held := h.held
  changed := by
    intro change hchange
    rcases List.mem_append.mp hchange with hold | hnew
    · exact h.changed change hold
    · rw [List.mem_singleton.mp hnew]
      exact ⟨hheld, h.file⟩
  distinct := h.distinct

theorem Known.of_writeFile (h : s.Known) {held : Option Credentials}
    (hheld : ∀ c, held = some c → c ∈ s.issued) (hc : c ∈ s.issued) :
    (s.writeFile held c).Known where
  file _ hd := Option.some.inj hd ▸ hc
  held := h.held
  changed := (h.of_deleteFile hheld).changed
  distinct := h.distinct

/-- The server gives out new credentials. -/
theorem Known.of_issued (h : s.Known) (hnew : c.refreshToken ∉ s.issued.map (·.refreshToken)) :
    { s with issued := s.issued ++ [c] }.Known where
  file d hd := List.mem_append_left _ (h.file d hd)
  held q d hd := List.mem_append_left _ (h.held q d hd)
  changed change hchange :=
    ⟨fun d hd => List.mem_append_left _ ((h.changed change hchange).1 d hd),
      fun d hd => List.mem_append_left _ ((h.changed change hchange).2 d hd)⟩
  distinct := by
    rw [List.map_append]
    exact h.distinct.append (List.nodup_singleton _) (List.disjoint_singleton.mpr hnew)

/-- Later credentials change nothing about the order of the earlier ones. -/
theorem newer_issued {d e : Credentials} (hc : c ∈ s.issued) (hd : d ∈ s.issued) :
    ({ s with issued := s.issued ++ [e] } : AuthWorld).Newer c d ↔ s.Newer c d := by
  unfold Newer
  rw [List.idxOf_append_of_mem hc, List.idxOf_append_of_mem hd]

/-! ## The property -/

structure Safe (s : AuthWorld) : Prop where
  /-- Every refresh request presented the token in the file. -/
  presented : ∀ request ∈ s.requests, request.2.map (·.refreshToken) = some request.1
  /-- No file was overwritten or deleted by the holder of older credentials. -/
  kept : ∀ change ∈ s.changes, ∀ c d, change.held = some c → change.before = some d →
    ¬ s.Newer c d
  /-- No refresh wrote a disconnected account. -/
  unrestored : ∀ write ∈ s.refreshWrites, write.1.accountId ∉ write.2

/-- A refresh finds in the file the credentials it was called with, or others that it
takes over. A login and a disconnection find none that are newer than their own. -/
def FileCurrent (s : AuthWorld) : AuthOp → Prop
  | .lockRefresh p now => s.fileLock = none → ∀ current caller,
      (s.processes p).activity = .waitLock current caller →
      s.file = some current ∨ ∃ reloaded, s.file = some reloaded ∧ reloaded ≠ current ∧
        reloaded.expiresAt > now + refreshEarlySeconds
  | .writeLogin p => s.fileLock = none → ∀ c d, (s.processes p).login = some (.granted c) →
      s.file = some d → ¬ s.Newer c d
  | .deleteCredentials p => s.fileLock = none → (s.processes p).activity = .disconnecting →
      ∀ c d, (s.processes p).credentials = some c → s.file = some d → ¬ s.Newer c d
  | _ => True

/-- States of a run whose steps find the file so. -/
structure Settled (s : AuthWorld) : Prop where
  known : s.Known
  /-- A refresh has the lock, and the file is what its process had cached. -/
  refreshing : ∀ p current caller, (s.processes p).activity = .refreshing current caller →
    s.fileLock = some p ∧ s.file = some current
  registered : ∀ c, s.file = some c → c.accountId ∉ s.disconnected
  safe : s.Safe

theorem Settled.init : Settled {} where
  known := .init
  refreshing _ _ _ h := nomatch h
  registered _ h := nomatch h
  safe := ⟨(fun _ h => nomatch h), (fun _ h => nomatch h), (fun _ h => nomatch h)⟩

/-- A process changes that sends no request. -/
theorem Settled.of_setProcess (h : s.Settled) {m : OpenAIAuthManager}
    (hheld : ∀ c, m.Holds c → c ∈ s.issued)
    (hactivity : ∀ current caller, m.activity = .refreshing current caller →
      (s.processes p).activity = .refreshing current caller) :
    (s.setProcess p m).Settled where
  known := h.known.of_setProcess hheld
  refreshing := by
    intro q current caller hq
    simp only [setProcess, Function.update_apply] at hq
    split_ifs at hq with hqp
    · exact hqp ▸ h.refreshing p current caller (hactivity current caller hq)
    · exact h.refreshing q current caller hq
  registered := h.registered
  safe := ⟨h.safe.presented, h.safe.kept, h.safe.unrestored⟩

theorem Settled.of_idle (h : s.Settled) {m : OpenAIAuthManager}
    (hheld : ∀ c, m.Holds c → c ∈ s.issued) (hidle : m.activity = .idle) :
    (s.setProcess p m).Settled := by
  refine h.of_setProcess hheld fun current caller hm => ?_
  rw [hidle] at hm
  cases hm

/-- No refresh is under way when the lock is free. -/
theorem Settled.not_refreshing (h : s.Settled) (hfree : s.fileLock = none) (q : ℕ)
    (current : Credentials) (caller : RefreshCaller) :
    (s.processes q).activity ≠ .refreshing current caller := by
  intro hq
  have hlock := (h.refreshing q current caller hq).1
  rw [hfree] at hlock
  cases hlock

/-- The refresh that had the lock is over. -/
theorem Settled.of_answer (h : s.Settled) {s' : AuthWorld} {m : OpenAIAuthManager}
    {current : Credentials} {caller : RefreshCaller}
    (hp : (s.processes p).activity = .refreshing current caller)
    (hprocesses : s'.processes = Function.update s.processes p m) (hidle : m.activity = .idle)
    (hknown : s'.Known) (hregistered : ∀ c, s'.file = some c → c.accountId ∉ s'.disconnected)
    (hsafe : s'.Safe) : s'.Settled where
  known := hknown
  refreshing := by
    intro q current' caller' hq
    rw [hprocesses, Function.update_apply] at hq
    split_ifs at hq with hqp
    · rw [hidle] at hq
      cases hq
    · have hlock := (h.refreshing q current' caller' hq).1
      rw [(h.refreshing p current caller hp).1] at hlock
      exact absurd (Option.some.inj hlock).symm hqp
  registered := hregistered
  safe := hsafe

theorem Safe.of_issued (h : s.Safe) (hknown : s.Known) (c : Credentials) :
    { s with issued := s.issued ++ [c] }.Safe where
  presented := h.presented
  kept change hchange d e hd he hnewer := by
    have hin := hknown.changed change hchange
    rw [newer_issued (hin.1 d hd) (hin.2 e he)] at hnewer
    exact h.kept change hchange d e hd he hnewer
  unrestored := h.unrestored

theorem Safe.of_deleteFile (h : s.Safe) {held : Option Credentials}
    (hkept : ∀ c d, held = some c → s.file = some d → ¬ s.Newer c d) :
    (s.deleteFile held).Safe where
  presented := h.presented
  kept change hchange := by
    rcases List.mem_append.mp hchange with hold | hnew
    · exact h.kept change hold
    · rw [List.mem_singleton.mp hnew]
      exact hkept
  unrestored := h.unrestored

/-! ## Calls -/

theorem Settled.of_start (h : s.Settled) : (s.start p).Settled := by
  have hset : (s.setProcess p (.create s.file)).Settled := by
    refine h.of_idle (fun c hc => ?_) rfl
    rcases hc.of_idle rfl with hc | hc | hc
    · exact h.known.file c hc
    · cases hc
    · cases hc
  refine ⟨hset.known.congr rfl rfl rfl rfl, ?_, hset.registered,
    ⟨hset.safe.presented, hset.safe.kept, hset.safe.unrestored⟩⟩
  intro q current caller hq
  obtain ⟨hlock, hfile⟩ := hset.refreshing q current caller hq
  refine ⟨?_, hfile⟩
  have hqp : q ≠ p := by
    rintro rfl
    simp [start, setProcess, create] at hq
  change s.fileLock = some q at hlock
  simp [start, hlock, hqp]

theorem Settled.of_access (h : s.Settled) (now : ℤ) (forceRefresh : Bool) :
    (s.access p now forceRefresh).Settled := by
  have hheld := h.known.held p
  have hwait : ∀ credentials caller, (s.processes p).credentials = some credentials →
      (s.setProcess p { s.processes p with activity := .waitLock credentials caller }).Settled := by
    intro credentials caller hcredentials
    refine h.of_setProcess (fun c hc => ?_) (fun _ _ hm => nomatch hm)
    rcases hc with hc | hc | hc | hc | hc
    · exact hheld c (.cached hc)
    · cases hc
      exact hheld credentials (.cached hcredentials)
    · cases hc
    · exact hheld c (.granted hc)
    · exact hheld c (.written hc)
  have hfinish : ∀ outcome, (s.setProcess p ((s.processes p).finish outcome)).Settled :=
    fun outcome => h.of_idle (fun c hc => hheld c hc.of_finish) rfl
  unfold access
  dsimp only
  split_ifs
  · exact h
  · exact hfinish _
  · split
    · exact hfinish _
    · rename_i credentials hcredentials
      exact hwait credentials .forced hcredentials
  · split
    · exact hfinish _
    · rename_i credentials hcredentials
      split_ifs
      · exact hwait credentials .access hcredentials
      · exact hfinish _

theorem Settled.of_recoverUnauthorized (h : s.Settled) (rejectedToken : String) :
    (s.recoverUnauthorized p rejectedToken).Settled := by
  have hheld := h.known.held p
  have hcurrent : ∀ c, (s.processes p).reloaded s.file = some c → c ∈ s.issued := by
    intro c hc
    unfold reloaded at hc
    split at hc
    · rename_i reloaded current hfile hcredentials
      split_ifs at hc
      · exact h.known.file c (hfile.trans hc)
      · exact hheld c (.cached (hcredentials.trans hc))
    · rename_i hfile _
      exact h.known.file c (hfile.trans hc)
    · exact hheld c (.cached hc)
  unfold recoverUnauthorized
  dsimp only
  split_ifs with hactivity
  · exact h
  push Not at hactivity
  have hadopt : ∀ c, ({ s.processes p with
      credentials := (s.processes p).reloaded s.file } : OpenAIAuthManager).Holds c →
      c ∈ s.issued := by
    intro c hc
    rcases hc.of_idle hactivity with hc | hc | hc
    · exact hcurrent c hc
    · exact hheld c (.granted hc)
    · exact hheld c (.written hc)
  have hfinish : ∀ outcome, (s.setProcess p (finish { s.processes p with
      credentials := (s.processes p).reloaded s.file } outcome)).Settled :=
    fun outcome => h.of_idle (fun c hc => hadopt c hc.of_finish) rfl
  split
  · exact hfinish _
  · rename_i current hreloaded
    split_ifs
    · exact hfinish _
    · refine h.of_setProcess (fun c hc => ?_) (fun _ _ hm => nomatch hm)
      rcases hc with hc | hc | hc | hc | hc
      · exact hcurrent c hc
      · cases hc
        exact hcurrent current hreloaded
      · cases hc
      · exact hheld c (.granted hc)
      · exact hheld c (.written hc)

theorem Settled.of_lockTimeout (h : s.Settled) : (s.lockTimeout p).Settled := by
  have hheld := h.known.held p
  unfold lockTimeout
  dsimp only
  split
  · exact h.of_idle (fun c hc => hheld c hc.of_refreshFails) (activity_refreshFails _ _ _)
  · exact h.of_idle (fun c hc => hheld c hc.of_finish) rfl
  · exact h

/-! ## Refreshes -/

/-- The request is sent with the token in the file. -/
theorem Settled.of_request (h : s.Settled) {current : Credentials} {caller : RefreshCaller}
    (hfree : s.fileLock = none) (hp : (s.processes p).activity = .waitLock current caller)
    (hfile : s.file = some current) :
    { s.setProcess p { s.processes p with activity := .refreshing current caller } with
      fileLock := some p
      requests := s.requests ++ [(current.refreshToken, s.file)] }.Settled where
  known := by
    have hset : (s.setProcess p
        { s.processes p with activity := .refreshing current caller }).Known := by
      refine h.known.of_setProcess fun c hc => ?_
      rcases hc with hc | hc | hc | hc | hc
      · exact h.known.held p c (.cached hc)
      · cases hc
      · cases hc
        exact h.known.held p current (.waiting hp)
      · exact h.known.held p c (.granted hc)
      · exact h.known.held p c (.written hc)
    exact hset.congr rfl rfl rfl rfl
  refreshing := by
    intro q current' caller' hq
    simp only [setProcess, Function.update_apply] at hq
    split_ifs at hq with hqp
    · cases hq
      exact ⟨by rw [hqp], hfile⟩
    · exact absurd hq (h.not_refreshing hfree q current' caller')
  registered := h.registered
  safe := by
    refine ⟨fun request hrequest => ?_, h.safe.kept, h.safe.unrestored⟩
    rcases List.mem_append.mp hrequest with hold | hnew
    · exact h.safe.presented request hold
    · rw [List.mem_singleton.mp hnew, hfile]
      rfl

theorem Settled.of_lockRefresh (h : s.Settled) {now : ℤ}
    (hcurrent : s.FileCurrent (.lockRefresh p now)) : (s.lockRefresh p now).Settled := by
  unfold lockRefresh
  dsimp only
  split
  · rename_i current caller hp
    split_ifs with hlock
    · exact h
    push Not at hlock
    rcases hcurrent hlock current caller hp with hfile | ⟨reloaded, hfile, hfresh⟩
    · have hrequest := h.of_request hlock hp hfile
      rw [hfile] at hrequest ⊢
      simpa using hrequest
    · rw [hfile]
      dsimp only
      rw [if_pos hfresh]
      refine h.of_idle (fun c hc => ?_) rfl
      rcases hc.of_idle rfl with hc | hc | hc
      · exact h.known.file c (hfile.trans hc)
      · exact h.known.held p c (.granted hc)
      · exact h.known.held p c (.written hc)
  · exact h

theorem Settled.of_respond {jwtClaims : String → Except String Json} (h : s.Settled) {now : ℤ}
    {response : TokenResponse} {consumed : Bool}
    (hproper : (AuthOp.respond p now response consumed).Proper jwtClaims s) :
    (s.respond jwtClaims p now response consumed).Settled := by
  unfold respond
  dsimp only
  split
  swap
  · exact h
  rename_i current caller hp
  generalize (if consumed then current.refreshToken :: s.used else s.used) = used
  have hfile := (h.refreshing p current caller hp).2
  have hheld := h.known.held p
  have hcurrent : ∀ c, some current = some c → c ∈ s.issued := fun c hc =>
    hheld c (.refreshing (Option.some.inj hc ▸ hp))
  have hsame : ∀ (w : AuthWorld) c d, some current = some c → s.file = some d →
      ¬ w.Newer c d := by
    intro w c d hc hd
    rw [hfile, hc] at hd
    exact Option.some.inj hd ▸ lt_irrefl _
  have hknown : { s with fileLock := none, used := used }.Known := h.known.congr rfl rfl rfl rfl
  -- The call fails and the file stays.
  have hfails : ∀ error, ({ s with fileLock := none, used := used }.setProcess p
      ((s.processes p).refreshFails current caller error)).Settled := fun error =>
    h.of_answer hp rfl (activity_refreshFails _ _ _)
      (hknown.of_setProcess fun c hc => hheld c hc.of_refreshFails) h.registered
      ⟨h.safe.presented, h.safe.kept, h.safe.unrestored⟩
  split
  · exact hfails _
  rename_i code payload
  split_ifs with hrejected hsuccess
  · -- Rejected credentials are what the file holds.
    have hsafe := h.safe.of_deleteFile (hsame s)
    refine h.of_answer hp rfl rfl ?_ (fun _ hc => nomatch hc)
      ⟨hsafe.presented, hsafe.kept, hsafe.unrestored⟩
    refine (hknown.of_deleteFile hcurrent).of_setProcess fun c hc => ?_
    rcases hc.of_idle rfl with hc | hc | hc
    · cases hc
    · exact hheld c (.granted hc)
    · exact hheld c (.written hc)
  swap
  · exact hfails _
  split
  · exact hfails _
  split
  · exact hfails _
  rename_i payload refreshed hrefreshed
  obtain ⟨-, -, hnew, haccount⟩ :=
    hproper current caller refreshed hp hsuccess hrefreshed
  have hregistered : refreshed.accountId ∉ s.disconnected := by
    rw [haccount]
    exact h.registered current hfile
  have hmem : refreshed ∈ s.issued ++ [refreshed] :=
    List.mem_append_right _ (List.mem_singleton_self _)
  have hsafe := (h.safe.of_issued h.known refreshed).of_deleteFile (hsame _)
  refine h.of_answer hp rfl rfl ?_ ?_ ⟨hsafe.presented, hsafe.kept, ?_⟩
  · have hissued := hknown.of_issued hnew
    have hwritten := hissued.of_writeFile
      (fun c hc => List.mem_append_left _ (hcurrent c hc)) hmem
    refine (hwritten.of_setProcess fun c hc => ?_).congr rfl rfl rfl rfl
    rcases hc.of_idle rfl with hc | hc | hc
    · exact Option.some.inj hc ▸ hmem
    · exact List.mem_append_left _ (hheld c (.granted hc))
    · exact List.mem_append_left _ (hheld c (.written hc))
  · intro c hc
    exact Option.some.inj hc ▸ hregistered
  · intro write hwrite
    rcases List.mem_append.mp hwrite with hold | hlast
    · exact h.safe.unrestored write hold
    · rw [List.mem_singleton.mp hlast]
      exact hregistered

/-! ## Logins and disconnections -/

theorem Settled.of_close (h : s.Settled) : (s.close p).Settled := by
  unfold close
  dsimp only
  split_ifs with hidle
  · refine h.of_idle (fun c hc => ?_) hidle
    rcases hc.of_idle hidle with hc | hc | hc
    · exact h.known.held p c (.cached hc)
    · cases hc
    · cases hc
  · exact h

theorem Settled.of_cancelLogin (h : s.Settled) : (s.cancelLogin p).Settled := by
  refine h.of_setProcess (fun c hc => ?_) (fun _ _ hm => hm)
  rcases hc with hc | hc | hc | hc | hc
  · exact h.known.held p c (.cached hc)
  · exact h.known.held p c (.waiting hc)
  · exact h.known.held p c (.refreshing hc)
  · cases hc
  · cases hc

theorem Settled.of_adoptLogin (h : s.Settled) : (s.adoptLogin p).Settled := by
  unfold adoptLogin
  dsimp only
  split
  · rename_i credentials hlogin
    split_ifs with hactivity
    · exact h
    push Not at hactivity
    refine h.of_idle (fun c hc => ?_) hactivity
    rcases hc.of_idle hactivity with hc | hc | hc
    · cases hc
      exact h.known.held p credentials (.written hlogin)
    · cases hc
    · cases hc
  · exact h

theorem Settled.of_exchangeCode {jwtClaims : String → Except String Json} (h : s.Settled) {now : ℤ}
    {payload : Json} (hproper : (AuthOp.exchangeCode p now payload).Proper jwtClaims s) :
    (s.exchangeCode jwtClaims p now payload).Settled := by
  have hheld := h.known.held p
  unfold exchangeCode
  dsimp only
  split_ifs
  · exact h
  split
  · refine h.of_setProcess (fun c hc => ?_) (fun _ _ hm => hm)
    rcases hc with hc | hc | hc | hc | hc
    · exact hheld c (.cached hc)
    · exact hheld c (.waiting hc)
    · exact hheld c (.refreshing hc)
    · exact hheld c (.granted hc)
    · exact hheld c (.written hc)
  · rename_i credentials hcredentials
    have hsafe := h.safe.of_issued h.known credentials
    have hissued : { s with issued := s.issued ++ [credentials] }.Settled :=
      ⟨h.known.of_issued (hproper credentials hcredentials), h.refreshing, h.registered, hsafe⟩
    have hset : ({ s with issued := s.issued ++ [credentials] }.setProcess p
        { s.processes p with login := some (.granted credentials) }).Settled := by
      refine hissued.of_setProcess (fun c hc => ?_) (fun _ _ hm => hm)
      rcases hc with hc | hc | hc | hc | hc
      · exact List.mem_append_left _ (hheld c (.cached hc))
      · exact List.mem_append_left _ (hheld c (.waiting hc))
      · exact List.mem_append_left _ (hheld c (.refreshing hc))
      · cases hc
        exact List.mem_append_right _ (List.mem_singleton_self _)
      · cases hc
    exact hset

theorem Settled.of_writeLogin (h : s.Settled) (hcurrent : s.FileCurrent (.writeLogin p)) :
    (s.writeLogin p).Settled := by
  unfold writeLogin
  dsimp only
  split
  · rename_i credentials hlogin
    split_ifs with hlock
    · exact h
    push Not at hlock
    have hissued := h.known.held p credentials (.granted hlogin)
    have hheld : ∀ c, some credentials = some c → c ∈ s.issued := fun c hc =>
      Option.some.inj hc ▸ hissued
    have hsafe := h.safe.of_deleteFile fun c d hc hd =>
      hcurrent hlock c d (hlogin.trans (congrArg _ (congrArg _ (Option.some.inj hc)))) hd
    refine ⟨?_, ?_, ?_, ⟨hsafe.presented, hsafe.kept, hsafe.unrestored⟩⟩
    · have hwritten := (h.known.of_writeFile hheld hissued).of_setProcess (p := p)
        (m := { s.processes p with login := some (.written credentials) }) (fun c hc => by
          rcases hc with hc | hc | hc | hc | hc
          · exact h.known.held p c (.cached hc)
          · exact h.known.held p c (.waiting hc)
          · exact h.known.held p c (.refreshing hc)
          · cases hc
          · cases hc
            exact hissued)
      exact hwritten.congr rfl rfl rfl rfl
    · intro q current caller hq
      simp only [setProcess, writeFile, Function.update_apply] at hq
      split_ifs at hq
      · exact absurd hq (h.not_refreshing hlock p current caller)
      · exact absurd hq (h.not_refreshing hlock q current caller)
    · intro c hc
      cases hc
      simp
  · exact h

theorem Settled.of_disconnect (h : s.Settled) (revoked : Bool) :
    (s.disconnect p revoked).Settled := by
  have hheld := h.known.held p
  unfold disconnect
  dsimp only
  split_ifs
  · exact h
  · exact h.of_idle (fun c hc => hheld c hc.of_finish) rfl
  all_goals
    have hset : (s.setProcess p
        { s.processes p with activity := .disconnecting, login := none }).Settled := by
      refine h.of_setProcess (fun c hc => ?_) (fun _ _ hm => nomatch hm)
      rcases hc.of_calm (fun _ hm => nomatch hm) (fun _ hm => nomatch hm) with hc | hc | hc
      · exact hheld c (.cached hc)
      · cases hc
      · cases hc
    exact ⟨hset.known.congr rfl rfl rfl rfl, hset.refreshing, hset.registered,
      ⟨hset.safe.presented, hset.safe.kept, hset.safe.unrestored⟩⟩

theorem Settled.of_deleteCredentials (h : s.Settled)
    (hcurrent : s.FileCurrent (.deleteCredentials p)) : (s.deleteCredentials p).Settled := by
  unfold deleteCredentials
  dsimp only
  split_ifs with hdue
  · obtain ⟨hactivity, hlock⟩ := hdue
    have hsafe := h.safe.of_deleteFile (hcurrent hlock hactivity)
    refine ⟨?_, ?_, (fun _ hc => nomatch hc), ⟨hsafe.presented, hsafe.kept, hsafe.unrestored⟩⟩
    · have hdeleted := h.known.of_deleteFile fun c hc => h.known.held p c (.cached hc)
      refine (hdeleted.of_setProcess fun c hc => ?_).congr rfl rfl rfl rfl
      rcases hc.of_idle rfl with hc | hc | hc
      · cases hc
      · exact h.known.held p c (.granted hc)
      · exact h.known.held p c (.written hc)
    · intro q current caller hq
      simp only [setProcess, deleteFile, Function.update_apply] at hq
      split_ifs at hq
      exact absurd hq (h.not_refreshing hlock q current caller)
  · exact h

/-! ## Runs -/

theorem Settled.step {jwtClaims : String → Except String Json} (h : s.Settled) {op : AuthOp}
    (hproper : op.Proper jwtClaims s) (hcurrent : s.FileCurrent op) :
    (op.apply jwtClaims s).Settled := by
  cases op with
  | start p => exact h.of_start
  | close p => exact h.of_close
  | access p now forceRefresh => exact h.of_access now forceRefresh
  | recoverUnauthorized p rejectedToken => exact h.of_recoverUnauthorized rejectedToken
  | lockRefresh p now => exact h.of_lockRefresh hcurrent
  | lockTimeout p => exact h.of_lockTimeout
  | respond p now response consumed => exact h.of_respond hproper
  | exchangeCode p now payload => exact h.of_exchangeCode hproper
  | writeLogin p => exact h.of_writeLogin hcurrent
  | adoptLogin p => exact h.of_adoptLogin
  | cancelLogin p => exact h.of_cancelLogin
  | disconnect p revoked => exact h.of_disconnect revoked
  | deleteCredentials p => exact h.of_deleteCredentials hcurrent

theorem settled_of_reach {jwtClaims : String → Except String Json}
    (h : (authSystem jwtClaims).Reach FileCurrent s) : s.Settled := by
  refine System.Reach.invariant ?_ ?_ h
  · rintro _ rfl
    exact .init
  · rintro s op _ _ hs hcurrent ⟨hproper, rfl⟩
    exact hs.step hproper hcurrent

/-! ## Steps that find another file -/

/-- A refresh that finds other credentials, or none, presents a token that is not there. -/
theorem Settled.fileCurrent_of_lockRefresh (h : s.Settled) {now : ℤ}
    (hsafe : (s.lockRefresh p now).Safe) : s.FileCurrent (.lockRefresh p now) := by
  intro hlock current caller hp
  have hmem : (s.lockRefresh p now).requests = s.requests ++ [(current.refreshToken, s.file)] →
      s.file = some current := by
    intro hrequests
    have hpresented := hsafe.presented (current.refreshToken, s.file) (by
      rw [hrequests]
      exact List.mem_append_right _ (List.mem_singleton_self _))
    obtain ⟨d, hd, heq⟩ := Option.map_eq_some_iff.mp hpresented
    have hsame := h.known.eq_of_refreshToken (h.known.file d hd)
      (h.known.held p current (.waiting hp)) heq
    exact hd.trans (congrArg some hsame)
  unfold lockRefresh at hmem
  dsimp only at hmem
  rw [hp] at hmem
  dsimp only at hmem
  rw [if_neg (fun hne => hne hlock)] at hmem
  cases hfile : s.file with
  | none =>
    simp only [hfile] at hmem
    exact nomatch hmem trivial
  | some reloaded =>
    simp only [hfile] at hmem
    by_cases hfresh : reloaded ≠ current ∧ reloaded.expiresAt > now + refreshEarlySeconds
    · exact Or.inr ⟨reloaded, rfl, hfresh⟩
    · rw [if_neg hfresh] at hmem
      exact Or.inl (hmem rfl)

theorem fileCurrent_of_writeLogin (hsafe : (s.writeLogin p).Safe) :
    s.FileCurrent (.writeLogin p) := by
  intro hlock c d hlogin hd hnewer
  unfold writeLogin at hsafe
  dsimp only at hsafe
  rw [hlogin] at hsafe
  dsimp only at hsafe
  rw [if_neg (fun hne => hne hlock)] at hsafe
  exact hsafe.kept ⟨some c, s.file⟩ (List.mem_append_right _ (List.mem_singleton_self _)) c d rfl
    hd hnewer

theorem fileCurrent_of_deleteCredentials (hsafe : (s.deleteCredentials p).Safe) :
    s.FileCurrent (.deleteCredentials p) := by
  intro hlock hactivity c d hc hd hnewer
  unfold deleteCredentials at hsafe
  dsimp only at hsafe
  rw [if_pos ⟨hactivity, hlock⟩] at hsafe
  exact hsafe.kept ⟨(s.processes p).credentials, s.file⟩
    (List.mem_append_right _ (List.mem_singleton_self _)) c d hc hd hnewer

theorem Settled.fileCurrent {jwtClaims : String → Except String Json} (h : s.Settled) {op : AuthOp}
    (hsafe : (op.apply jwtClaims s).Safe) : s.FileCurrent op := by
  cases op with
  | lockRefresh p now => exact h.fileCurrent_of_lockRefresh hsafe
  | writeLogin p => exact fileCurrent_of_writeLogin hsafe
  | deleteCredentials p => exact fileCurrent_of_deleteCredentials hsafe
  | start _ | close _ | access _ _ _ | recoverUnauthorized _ _ | lockTimeout _ | respond _ _ _ _
  | exchangeCode _ _ _ | adoptLogin _ | cancelLogin _ | disconnect _ _ => trivial

end AuthWorld

/-- In a run where every refresh finds the cached credentials in the file, or others that
it takes over, and every login and disconnection finds no newer ones, each refresh
presents the token in the file, nobody overwrites or deletes newer credentials, and no
refresh brings back a disconnected account. Any other step breaks one of these. -/
theorem credentials_across_processes {jwtClaims : String → Except String Json} {s : AuthWorld}
    (h : (authSystem jwtClaims).Reach AuthWorld.FileCurrent s) :
    s.Safe ∧ ∀ op : AuthOp, op.Proper jwtClaims s →
      ((op.apply jwtClaims s).Safe ↔ s.FileCurrent op) := by
  have hsettled := AuthWorld.settled_of_reach h
  refine ⟨hsettled.safe, fun op hproper => ⟨hsettled.fileCurrent, fun hcurrent => ?_⟩⟩
  exact (hsettled.step hproper hcurrent).safe

section Example

/-- An identity token with an account and nothing else. -/
def sampleIdToken : String :=
  "e30.eyJodHRwczovL2FwaS5vcGVuYWkuY29tL2F1dGgiOnsiY2hhdGdwdF9hY2NvdW50X2lkIjoiYWNjdCJ9fQ.x"

/-- Claims of that token; the access tokens here are opaque. -/
def sampleClaims (token : String) : Except String Json :=
  if token = sampleIdToken then
    .ok (.obj [("https://api.openai.com/auth", .obj [("chatgpt_account_id", .str "acct")])])
  else .error "OpenAI returned an invalid identity token."

def samplePayload (access refresh : String) : Json :=
  .obj [("access_token", .str access), ("refresh_token", .str refresh),
    ("id_token", .str sampleIdToken)]

def sampleCredentials (access refresh : String) (expiresAt : ℤ) : Credentials :=
  ⟨access, refresh, sampleIdToken, "acct", none, expiresAt, false⟩

/-- An answer with new tokens of the same account. -/
theorem proper_respond {s : AuthWorld} {p : ℕ} {now : ℤ} {payload : Json}
    (current refreshed : Credentials) (caller : RefreshCaller)
    (hactivity : (s.processes p).activity = .refreshing current caller)
    (hrefreshed : credentialsFromTokenResponse sampleClaims now payload (some current) =
      .ok refreshed)
    (hfresh : current.refreshToken ∉ s.used ∧
      refreshed.refreshToken ∉ s.issued.map (·.refreshToken) ∧
      refreshed.accountId = current.accountId) :
    (AuthOp.respond p now (.status 200 (some payload)) true).Proper sampleClaims s := by
  intro current' caller' refreshed' hactivity' _ hrefreshed'
  rw [hactivity] at hactivity'
  cases hactivity'
  rw [hrefreshed] at hrefreshed'
  cases hrefreshed'
  exact ⟨rfl, hfresh⟩

/-- One process signs in and two others start. The first one refreshes. When these
credentials are near their expiry the second process presents the ones it still has, and
what it is answered makes it delete the file. The first process disconnects, and the
third one, which has the credentials of the file, refreshes them. -/
def staleRefreshes : List AuthOp :=
  [.exchangeCode 1 0 (samplePayload "a1" "r1"), .writeLogin 1, .adoptLogin 1, .start 2,
    .access 1 691000 false, .lockRefresh 1 691000,
    .respond 1 691000 (.status 200 (some (samplePayload "a2" "r2"))) true, .start 3,
    .access 2 1382100 false, .lockRefresh 2 1382100, .respond 2 1382100 (.status 400 none) false,
    .disconnect 1 false, .deleteCredentials 1, .access 3 1382100 false, .lockRefresh 3 1382100,
    .respond 3 1382100 (.status 200 (some (samplePayload "a3" "r3"))) true]

def sampleWorld (n : ℕ) : AuthWorld :=
  (staleRefreshes.take n).foldl (fun s op => op.apply sampleClaims s) {}

theorem sampleWorld_step {C : AuthWorld → AuthOp → Prop} {n : ℕ} {op : AuthOp}
    (h : (authSystem sampleClaims).Reach C (sampleWorld n)) (hop : staleRefreshes[n]? = some op)
    (hproper : op.Proper sampleClaims (sampleWorld n)) (hcurrent : C (sampleWorld n) op) :
    (authSystem sampleClaims).Reach C (sampleWorld (n + 1)) := by
  refine h.next hcurrent ⟨hproper, ?_⟩
  unfold sampleWorld
  rw [List.take_add_one, hop, List.foldl_append]
  rfl

/-- The steps up to the answer of the first refresh. -/
theorem sampleWorld_refreshed {C : AuthWorld → AuthOp → Prop}
    (hC : ∀ n < 7, ∀ op ∈ staleRefreshes[n]?, C (sampleWorld n) op) :
    (authSystem sampleClaims).Reach C (sampleWorld 7) := by
  have h0 : (authSystem sampleClaims).Reach C (sampleWorld 0) := .start rfl
  have h1 := sampleWorld_step h0 rfl (fun _ _ => List.not_mem_nil) (hC 0 (by omega) _ rfl)
  have h2 := sampleWorld_step h1 rfl trivial (hC 1 (by omega) _ rfl)
  have h3 := sampleWorld_step h2 rfl trivial (hC 2 (by omega) _ rfl)
  have h4 := sampleWorld_step h3 rfl trivial (hC 3 (by omega) _ rfl)
  have h5 := sampleWorld_step h4 rfl trivial (hC 4 (by omega) _ rfl)
  have h6 := sampleWorld_step h5 rfl trivial (hC 5 (by omega) _ rfl)
  refine sampleWorld_step h6 rfl ?_ (hC 6 (by omega) _ rfl)
  exact proper_respond (sampleCredentials "a1" "r1" 691200) (sampleCredentials "a2" "r2" 1382200)
    .access (by decide +kernel) rfl (by decide +kernel)

theorem sampleWorld_reachable : (authSystem sampleClaims).Reachable (sampleWorld 16) := by
  have h7 : (authSystem sampleClaims).Reachable (sampleWorld 7) :=
    sampleWorld_refreshed fun _ _ _ _ => trivial
  have h8 := sampleWorld_step h7 rfl trivial trivial
  have h9 := sampleWorld_step h8 rfl trivial trivial
  have h10 := sampleWorld_step h9 rfl trivial trivial
  have h11 := sampleWorld_step h10 rfl trivial trivial
  have h12 := sampleWorld_step h11 rfl trivial trivial
  have h13 := sampleWorld_step h12 rfl trivial trivial
  have h14 := sampleWorld_step h13 rfl trivial trivial
  have h15 := sampleWorld_step h14 rfl trivial trivial
  refine sampleWorld_step h15 rfl ?_ trivial
  exact proper_respond (sampleCredentials "a2" "r2" 1382200) (sampleCredentials "a3" "r3" 2073300)
    .access (by decide +kernel) rfl (by decide +kernel)

/-- A refresh presents a token that is not in the file, a process deletes credentials that
are newer than its own, and a refresh writes a disconnected account. -/
theorem stale_refreshes : ∃ s, (authSystem sampleClaims).Reachable s ∧
    (∃ request ∈ s.requests, request.2.map (·.refreshToken) ≠ some request.1) ∧
    (∃ change ∈ s.changes, ∃ c d, change.held = some c ∧ change.before = some d ∧ s.Newer c d) ∧
    ∃ write ∈ s.refreshWrites, write.1.accountId ∈ write.2 := by
  refine ⟨_, sampleWorld_reachable, ?_, ?_, ?_⟩
  · exact ⟨("r1", some (sampleCredentials "a2" "r2" 1382200)), by decide +kernel, by decide⟩
  · exact ⟨⟨some (sampleCredentials "a1" "r1" 691200), some (sampleCredentials "a2" "r2" 1382200)⟩,
      by decide +kernel, _, _, rfl, rfl, by decide +kernel⟩
  · exact ⟨(sampleCredentials "a3" "r3" 2073300, ["acct"]), by decide +kernel, by decide⟩

/-- The first refresh finds the file as it should be. -/
theorem credentials_across_processes_sample :
    (sampleWorld 7).Safe ∧ (sampleWorld 7).requests.length = 1 ∧
      (sampleWorld 7).refreshWrites.length = 1 := by
  have hcurrent : ∀ n < 7, ∀ op ∈ staleRefreshes[n]?, (sampleWorld n).FileCurrent op := by
    intro n hn op hop
    interval_cases n
    all_goals cases hop
    · trivial
    · intro _ c d _ hd
      cases hd
    · trivial
    · trivial
    · trivial
    · intro _ current caller hactivity
      have hwaits : ((sampleWorld 5).processes 1).activity =
          .waitLock (sampleCredentials "a1" "r1" 691200) .access := by decide +kernel
      rw [hwaits] at hactivity
      cases hactivity
      exact Or.inl (by decide +kernel)
    · trivial
  exact ⟨(credentials_across_processes (sampleWorld_refreshed hcurrent)).1, by decide +kernel,
    by decide +kernel⟩

end Example

end Switchboard.Providers
