import Switchboard.Library.RecentDict
import Switchboard.Library.Run
import Switchboard.Library.Text

/-!
# Parent routes

The registry of `application/routing.py` with the calls of its requests, each under a lock.
A request gives the generation that it is leased on; the current generation is the newest.
What was told to the registry is kept beside it.
-/

namespace Switchboard.Application

/-- `_ParentRouteEntry`. The type `ρ` stands for a resolved model. -/
structure ParentRouteEntry (ρ : Type*) where
  generationId : Option ℕ
  resolved : ρ
deriving DecidableEq

structure ParentRouteRegistry (ρ : Type*) (maxEntries : ℕ) where
  entries : RecentDict String (ParentRouteEntry ρ) maxEntries := ∅
  probeEntries : RecentDict String (ParentRouteEntry ρ) maxEntries := ∅

/-- `_session_key`, with `sha256` as a parameter. -/
def sessionKey (digest : String → String) (sessionId : Option String) : Option String :=
  match sessionId with
  | none => none
  | some sessionId =>
    let normalized := Text.strip Text.isSpace sessionId
    if normalized = "" ∨ 512 < normalized.length then none else some (digest normalized)

section Entries

variable {ρ : Type*} {maxEntries : ℕ}

/-- Whether an entry was stored under another generation than a call gives. -/
def otherGeneration (entry : ParentRouteEntry ρ) (generationId : Option ℕ) : Prop :=
  generationId ≠ none ∧ entry.generationId ≠ none ∧ entry.generationId ≠ generationId

instance (entry : ParentRouteEntry ρ) (generationId : Option ℕ) :
    Decidable (otherGeneration entry generationId) :=
  inferInstanceAs (Decidable (_ ∧ _ ∧ _))

/-- `_lookup_entry` -/
def lookupEntry (entries : RecentDict String (ParentRouteEntry ρ) maxEntries) (key : String)
    (generationId : Option ℕ) :
    Option ρ × RecentDict String (ParentRouteEntry ρ) maxEntries :=
  match entries.get? key with
  | none => (none, entries)
  | some entry =>
    if otherGeneration entry generationId then (none, entries.erase key)
    else (some entry.resolved, entries.touch key)

/-- Whether a call finds an entry that it keeps. -/
def kept (entries : RecentDict String (ParentRouteEntry ρ) maxEntries) (key : String)
    (generationId : Option ℕ) : Bool :=
  (entries.get? key).any fun entry =>
    generationId = none || decide (entry.generationId = generationId)

/-- Keep the entry of a key, or store a new one. -/
def rememberEntry (entries : RecentDict String (ParentRouteEntry ρ) maxEntries) (key : String)
    (resolved : ρ) (generationId : Option ℕ) :
    RecentDict String (ParentRouteEntry ρ) maxEntries :=
  if kept entries key generationId then entries.touch key
  else entries.insert key ⟨generationId, resolved⟩

end Entries

namespace ParentRouteRegistry

variable {ρ : Type*} {maxEntries : ℕ} (r : ParentRouteRegistry ρ maxEntries)

def lookup (key : String) (generationId : Option ℕ) :
    Option ρ × ParentRouteRegistry ρ maxEntries :=
  let (found, entries) := lookupEntry r.entries key generationId
  (found, { r with entries := entries })

def lookupProbe (key : String) (generationId : Option ℕ) :
    Option ρ × ParentRouteRegistry ρ maxEntries :=
  match lookupEntry r.entries key generationId with
  | (some committed, entries) => (some committed, { r with entries := entries })
  | (none, entries) =>
    let (hint, probeEntries) := lookupEntry r.probeEntries key generationId
    (hint, { entries := entries, probeEntries := probeEntries })

def remember (key : String) (resolved : ρ) (generationId : Option ℕ) :
    ParentRouteRegistry ρ maxEntries where
  entries := rememberEntry r.entries key resolved generationId
  probeEntries := r.probeEntries.erase key

def rememberProbe (key : String) (resolved : ρ) (generationId : Option ℕ) :
    ParentRouteRegistry ρ maxEntries :=
  if kept r.entries key generationId then r
  else { r with probeEntries := rememberEntry r.probeEntries key resolved generationId }

end ParentRouteRegistry

/-! ## Requests -/

inductive RouteCall (ρ : Type*) where
  | lookup
  | lookupProbe
  | remember (resolved : ρ)
  | rememberProbe (resolved : ρ)

/-- Whether a call may change the accepted routes. A hint does not. -/
def RouteCall.usesEntries {ρ : Type*} : RouteCall ρ → Prop
  | .rememberProbe _ => False
  | _ => True

inductive RouteOp (ρ : Type*) where
  /-- A request on a generation that is not newer than the current one. -/
  | call (sessionId : Option String) (generationId : ℕ) (request : RouteCall ρ)
  | clear
  | replaceGeneration

/-- The registry of a server. -/
structure RouteWorld (ρ : Type*) (maxEntries : ℕ) where
  registry : ParentRouteRegistry ρ maxEntries := {}
  current : ℕ
  /-- The first route of each session under the current generation, since it was last evicted
  or cleared. -/
  first : String → Option ρ := fun _ => none
  /-- The calls of `remember` and of `remember_probe` so far. -/
  remembered : List (String × ℕ × ρ) := []
  hinted : List (String × ℕ × ρ) := []

namespace RouteWorld

variable {ρ : Type*} {maxEntries : ℕ}

/-- The first route of a session, unless the call has evicted it. -/
def noteFirst (w : RouteWorld ρ maxEntries) (key : String) (g : ℕ) (resolved : ρ)
    (entries : RecentDict String (ParentRouteEntry ρ) maxEntries) (k : String) : Option ρ :=
  if k = key then (w.first key).or (if g = w.current then some resolved else none)
  else if entries.get? k = none then none
  else w.first k

def callOn (w : RouteWorld ρ maxEntries) (key : String) (g : ℕ) :
    RouteCall ρ → RouteWorld ρ maxEntries
  | .lookup => { w with registry := (w.registry.lookup key (some g)).2 }
  | .lookupProbe => { w with registry := (w.registry.lookupProbe key (some g)).2 }
  | .remember resolved =>
    let registry := w.registry.remember key resolved (some g)
    { w with
      registry := registry
      first := w.noteFirst key g resolved registry.entries
      remembered := (key, g, resolved) :: w.remembered }
  | .rememberProbe resolved =>
    { w with
      registry := w.registry.rememberProbe key resolved (some g)
      hinted := (key, g, resolved) :: w.hinted }

end RouteWorld

section System

variable {ρ : Type*} {maxEntries : ℕ} (digest : String → String)

def RouteOp.apply (op : RouteOp ρ) (w : RouteWorld ρ maxEntries) : RouteWorld ρ maxEntries :=
  match op with
  | .call sessionId g request =>
    match sessionKey digest sessionId with
    | none => w
    | some key => if w.current < g then w else w.callOn key g request
  | .clear => { w with registry := {}, first := fun _ => none }
  | .replaceGeneration => { w with current := w.current + 1, first := fun _ => none }

/-- Runs of a registry from its construction, which checks that it may hold something. -/
def routeSystem (ρ : Type*) (maxEntries : ℕ) : System (RouteWorld ρ maxEntries) (RouteOp ρ) where
  init w := 1 ≤ maxEntries ∧ ∃ g, w = { current := g }
  step w op w' := w' = op.apply digest w

end System

/-! ## Generations -/

section Entries

variable {ρ : Type*} {maxEntries : ℕ} {key k : String} {g : ℕ} {resolved : ρ}
  {entries : RecentDict String (ParentRouteEntry ρ) maxEntries} {entry : ParentRouteEntry ρ}

theorem lookupEntry_of_same (h : entries.get? key = some ⟨some g, resolved⟩) :
    lookupEntry entries key (some g) = (some resolved, entries.touch key) := by
  have hsame : ¬ otherGeneration ⟨some g, resolved⟩ (some g) := fun hother => hother.2.2 rfl
  simp only [lookupEntry, h, if_neg hsame]

/-- A lookup keeps each entry or lets it go. -/
theorem get?_lookupEntry (h : (lookupEntry entries key (some g)).2.get? k = some entry) :
    entries.get? k = some entry := by
  unfold lookupEntry at h
  split at h
  · exact h
  · split_ifs at h
    · rw [RecentDict.get?_erase] at h
      split_ifs at h
      exact h
    · rwa [RecentDict.get?_touch] at h

/-- A lookup lets only an entry of another generation go. -/
theorem get?_lookupEntry_of_same
    (hsame : ∀ e, entries.get? key = some e → e.generationId = some g) (k : String) :
    (lookupEntry entries key (some g)).2.get? k = entries.get? k := by
  unfold lookupEntry
  cases hk : entries.get? key with
  | none => rfl
  | some e =>
    have hother : ¬ otherGeneration e (some g) := fun hother => hother.2.2 (hsame e hk)
    simp only [if_neg hother, RecentDict.get?_touch]

theorem get?_lookupEntry_of_ne (hk : k ≠ key) :
    (lookupEntry entries key (some g)).2.get? k = entries.get? k := by
  unfold lookupEntry
  cases entries.get? key with
  | none => rfl
  | some e =>
    dsimp only
    split_ifs
    · rw [RecentDict.get?_erase, if_neg hk]
    · rw [RecentDict.get?_touch]

theorem lookupEntry_some {found : ρ} (h : (lookupEntry entries key (some g)).1 = some found)
    (hgiven : ∀ e, entries.get? key = some e → e.generationId ≠ none) :
    entries.get? key = some ⟨some g, found⟩ := by
  unfold lookupEntry at h
  cases hk : entries.get? key with
  | none =>
    rw [hk] at h
    cases h
  | some e =>
    rw [hk] at h
    dsimp only at h
    split_ifs at h with hother
    cases h
    have hg : e.generationId = some g := by
      by_contra hne
      exact hother ⟨by simp, hgiven e hk, hne⟩
    rw [← hg]

theorem kept_iff : kept entries key (some g) = true ↔ ∃ resolved,
    entries.get? key = some ⟨some g, resolved⟩ := by
  unfold kept
  cases entries.get? key with
  | none => simp
  | some e =>
    obtain ⟨generationId, found⟩ := e
    simp

theorem get?_rememberEntry
    (h : (rememberEntry entries key resolved (some g)).get? k = some entry) :
    entries.get? k = some entry ∨ k = key ∧ entry = ⟨some g, resolved⟩ := by
  unfold rememberEntry at h
  split_ifs at h
  · exact Or.inl (by rwa [RecentDict.get?_touch] at h)
  · rcases RecentDict.get?_insert h with ⟨hk, he⟩ | ⟨-, he⟩
    · exact Or.inr ⟨hk, he⟩
    · exact Or.inl he

end Entries

namespace RouteWorld

variable {ρ : Type*} {maxEntries : ℕ} {w : RouteWorld ρ maxEntries} {key : String} {g : ℕ}
  {resolved : ρ}

theorem entries_lookupProbe (r : ParentRouteRegistry ρ maxEntries) (key : String) (g : ℕ) :
    (r.lookupProbe key (some g)).2.entries = (lookupEntry r.entries key (some g)).2 := by
  unfold ParentRouteRegistry.lookupProbe
  split
  · rename_i heq
    rw [heq]
  · rename_i heq
    rw [heq]

/-- A call that keeps or lets go what it finds. -/
theorem probeEntries_lookupProbe {r : ParentRouteRegistry ρ maxEntries} {k : String}
    {entry : ParentRouteEntry ρ}
    (h : (r.lookupProbe key (some g)).2.probeEntries.get? k = some entry) :
    r.probeEntries.get? k = some entry := by
  unfold ParentRouteRegistry.lookupProbe at h
  split at h
  · exact h
  · exact get?_lookupEntry h

/-! ## What the registry knows -/

/-- Every entry comes from a call that gave its generation. -/
structure Recorded (w : RouteWorld ρ maxEntries) : Prop where
  entries : ∀ {k e}, w.registry.entries.get? k = some e →
    ∃ g, e.generationId = some g ∧ (k, g, e.resolved) ∈ w.remembered
  probes : ∀ {k e}, w.registry.probeEntries.get? k = some e →
    ∃ g, e.generationId = some g ∧ (k, g, e.resolved) ∈ w.hinted

theorem Recorded.callOn (h : w.Recorded) (key : String) (g : ℕ) (request : RouteCall ρ) :
    (w.callOn key g request).Recorded := by
  cases request with
  | lookup => exact ⟨fun he => h.entries (get?_lookupEntry he), h.probes⟩
  | lookupProbe =>
    refine ⟨fun he => ?_, fun he => h.probes (probeEntries_lookupProbe he)⟩
    have he : (w.registry.lookupProbe key (some g)).2.entries.get? _ = _ := he
    rw [entries_lookupProbe] at he
    exact h.entries (get?_lookupEntry he)
  | remember resolved =>
    constructor
    · intro k e he
      rcases get?_rememberEntry he with he | ⟨rfl, rfl⟩
      · obtain ⟨g', hg', hmem⟩ := h.entries he
        exact ⟨g', hg', List.mem_cons_of_mem _ hmem⟩
      · exact ⟨g, rfl, List.mem_cons_self⟩
    · intro k e he
      have he : (w.registry.probeEntries.erase key).get? k = some e := he
      rw [RecentDict.get?_erase] at he
      split_ifs at he
      exact h.probes he
  | rememberProbe resolved =>
    have hhinted : ∀ {k e}, w.registry.probeEntries.get? k = some e → ∃ g',
        e.generationId = some g' ∧ (k, g', e.resolved) ∈ (key, g, resolved) :: w.hinted := by
      intro k e he
      obtain ⟨g', hg', hmem⟩ := h.probes he
      exact ⟨g', hg', List.mem_cons_of_mem _ hmem⟩
    simp only [RouteWorld.callOn, ParentRouteRegistry.rememberProbe]
    split_ifs
    · exact ⟨h.entries, hhinted⟩
    · refine ⟨h.entries, fun he => ?_⟩
      rcases get?_rememberEntry he with he | ⟨rfl, rfl⟩
      · exact hhinted he
      · exact ⟨g, rfl, List.mem_cons_self⟩

theorem Recorded.lookup (h : w.Recorded) {found : ρ}
    (hfound : (w.registry.lookup key (some g)).1 = some found) :
    (key, g, found) ∈ w.remembered := by
  have hentry := lookupEntry_some hfound fun e he => by
    obtain ⟨g', hg', -⟩ := h.entries he
    simp [hg']
  obtain ⟨g', hg', hmem⟩ := h.entries hentry
  cases hg'
  exact hmem

theorem Recorded.lookupProbe (h : w.Recorded) {found : ρ}
    (hfound : (w.registry.lookupProbe key (some g)).1 = some found) :
    (key, g, found) ∈ w.remembered ∨ (key, g, found) ∈ w.hinted := by
  unfold ParentRouteRegistry.lookupProbe at hfound
  split at hfound
  · rename_i committed _ hlookup
    cases hfound
    refine Or.inl (h.lookup ?_)
    rw [ParentRouteRegistry.lookup, hlookup]
  · have hentry := lookupEntry_some hfound fun e he => by
      obtain ⟨g', hg', -⟩ := h.probes he
      simp [hg']
    obtain ⟨g', hg', hmem⟩ := h.probes hentry
    cases hg'
    exact Or.inr hmem

/-! ## First routes -/

structure KeepsFirst (w : RouteWorld ρ maxEntries) : Prop where
  capacity : 1 ≤ maxEntries
  first : ∀ {k r}, w.first k = some r →
    w.registry.entries.get? k = some ⟨some w.current, r⟩
  entries : ∀ {k g r}, w.registry.entries.get? k = some ⟨some g, r⟩ →
    g ≤ w.current ∧ (g = w.current → w.first k = some r)

/-- A call of an older generation finds no route of the current one. -/
def Spares (w : RouteWorld ρ maxEntries) (key : String) (g : ℕ) : Prop :=
  ∀ r, w.registry.entries.get? key = some ⟨some w.current, r⟩ → g = w.current

theorem KeepsFirst.of_lookupEntry (h : w.KeepsFirst) (hspares : w.Spares key g)
    {registry : ParentRouteRegistry ρ maxEntries}
    (hentries : registry.entries = (lookupEntry w.registry.entries key (some g)).2) :
    { w with registry := registry }.KeepsFirst := by
  refine ⟨h.capacity, ?_, ?_⟩
  · intro k r hfirst
    have hentry := h.first hfirst
    change registry.entries.get? k = _
    rw [hentries]
    by_cases hk : k = key
    · subst hk
      rw [get?_lookupEntry_of_same _ k]
      · exact hentry
      · intro e he
        rw [hentry] at he
        cases he
        rw [hspares r hentry]
    · rw [get?_lookupEntry_of_ne hk]
      exact hentry
  · intro k g' r he
    have he : registry.entries.get? k = some ⟨some g', r⟩ := he
    rw [hentries] at he
    exact h.entries (get?_lookupEntry he)

theorem KeepsFirst.remember (h : w.KeepsFirst) (hspares : w.Spares key g)
    (hg : g ≤ w.current) (resolved : ρ) : (w.callOn key g (.remember resolved)).KeepsFirst := by
  have hother : ∀ {k}, k ≠ key →
      w.noteFirst key g resolved (w.registry.remember key resolved (some g)).entries k =
        if (w.registry.remember key resolved (some g)).entries.get? k = none then none
        else w.first k := fun hk => by rw [noteFirst, if_neg hk]
  have hself : w.noteFirst key g resolved (w.registry.remember key resolved (some g)).entries key =
      (w.first key).or (if g = w.current then some resolved else none) := by
    rw [noteFirst, if_pos rfl]
  by_cases hkept : kept w.registry.entries key (some g) = true
  · have hentries : ∀ k, (w.registry.remember key resolved (some g)).entries.get? k =
        w.registry.entries.get? k := by
      intro k
      simp only [ParentRouteRegistry.remember, rememberEntry, if_pos hkept, RecentDict.get?_touch]
    obtain ⟨r₀, hr₀⟩ := kept_iff.mp hkept
    refine ⟨h.capacity, ?_, ?_⟩
    · intro k r hfirst
      refine (hentries k).trans ?_
      by_cases hk : k = key
      · subst hk
        have hfirst := hself.symm.trans hfirst
        cases hold : w.first k with
        | some r₁ =>
          rw [hold, Option.some_or] at hfirst
          cases hfirst
          exact h.first hold
        | none =>
          rw [hold, Option.none_or] at hfirst
          split_ifs at hfirst with hcurrent
          rw [(h.entries hr₀).2 hcurrent] at hold
          cases hold
      · have hfirst := (hother hk).symm.trans hfirst
        split_ifs at hfirst
        exact h.first hfirst
    · intro k g' r he
      have he := (hentries k).symm.trans he
      refine ⟨(h.entries he).1, fun hcurrent => ?_⟩
      have hold := (h.entries he).2 hcurrent
      by_cases hk : k = key
      · subst hk
        exact hself.trans (by rw [hold, Option.some_or])
      · refine (hother hk).trans ?_
        rw [hentries, he, if_neg (by simp), hold]
  · have hentries : (w.registry.remember key resolved (some g)).entries =
        w.registry.entries.insert key ⟨some g, resolved⟩ := by
      simp only [ParentRouteRegistry.remember, rememberEntry, if_neg hkept]
    have hnone : w.first key = none := by
      cases hold : w.first key with
      | none => rfl
      | some r₁ =>
        have hentry := h.first hold
        obtain rfl := hspares r₁ hentry
        exact absurd (kept_iff.mpr ⟨r₁, hentry⟩) hkept
    rw [hnone, Option.none_or] at hself
    refine ⟨h.capacity, ?_, ?_⟩
    · intro k r hfirst
      by_cases hk : k = key
      · subst hk
        have hfirst := hself.symm.trans hfirst
        split_ifs at hfirst with hcurrent
        cases hfirst
        refine Eq.trans ?_ (RecentDict.get?_insert_self h.capacity w.registry.entries k
          ⟨some w.current, resolved⟩)
        rw [← hcurrent]
        exact congrArg (fun entries => RecentDict.get? entries k) hentries
      · have hfirst := (hother hk).symm.trans hfirst
        split_ifs at hfirst with hgone
        obtain ⟨e, he⟩ := Option.ne_none_iff_exists'.mp hgone
        refine he.trans ?_
        rw [hentries] at he
        rw [← RecentDict.get?_insert_of_ne hk he, h.first hfirst]
        rfl
    · intro k g' r he
      have he : (w.registry.remember key resolved (some g)).entries.get? k = _ := he
      have hstays : (w.registry.remember key resolved (some g)).entries.get? k ≠ none := by
        simp [he]
      rw [hentries] at he
      rcases RecentDict.get?_insert he with ⟨rfl, heq⟩ | ⟨hk, he⟩
      · cases heq
        exact ⟨hg, fun hcurrent => hself.trans (if_pos hcurrent)⟩
      · refine ⟨(h.entries he).1, fun hcurrent => (hother hk).trans ?_⟩
        rw [if_neg hstays, (h.entries he).2 hcurrent]

theorem KeepsFirst.callOn (h : w.KeepsFirst) (hg : g ≤ w.current) {request : RouteCall ρ}
    (hspares : request.usesEntries → w.Spares key g) :
    (w.callOn key g request).KeepsFirst := by
  cases request with
  | lookup => exact h.of_lookupEntry (hspares trivial) rfl
  | lookupProbe => exact h.of_lookupEntry (hspares trivial) (entries_lookupProbe _ _ _)
  | remember resolved => exact h.remember (hspares trivial) hg resolved
  | rememberProbe resolved =>
    have hentries : (w.registry.rememberProbe key resolved (some g)).entries =
        w.registry.entries := by
      unfold ParentRouteRegistry.rememberProbe
      split_ifs
      · rfl
      · rfl
    refine ⟨h.capacity, fun hfirst => ?_, fun he => h.entries ?_⟩
    · exact (congrArg (fun entries => RecentDict.get? entries _) hentries).trans (h.first hfirst)
    · exact (congrArg (fun entries => RecentDict.get? entries _) hentries).symm.trans he

/-! ## Runs -/

/-- The first route of a session is found until it is evicted or cleared, a lookup finds only
what was remembered under its own generation, and no namespace is too large. -/
structure Scoped (w : RouteWorld ρ maxEntries) : Prop where
  first : ∀ {key r}, w.first key = some r →
    (w.registry.lookup key (some w.current)).1 = some r ∧
      (w.registry.lookupProbe key (some w.current)).1 = some r
  lookup : ∀ {key g r}, (w.registry.lookup key (some g)).1 = some r → (key, g, r) ∈ w.remembered
  lookupProbe : ∀ {key g r}, (w.registry.lookupProbe key (some g)).1 = some r →
    (key, g, r) ∈ w.remembered ∨ (key, g, r) ∈ w.hinted
  entries_le : w.registry.entries.dict.entries.length ≤ maxEntries
  probeEntries_le : w.registry.probeEntries.dict.entries.length ≤ maxEntries

theorem Recorded.scoped (h : w.Recorded) (hfirst : w.KeepsFirst) : w.Scoped where
  first := by
    intro key r hr
    have hlookup := lookupEntry_of_same (hfirst.first hr)
    refine ⟨congrArg Prod.fst hlookup, ?_⟩
    rw [ParentRouteRegistry.lookupProbe, hlookup]
  lookup := h.lookup
  lookupProbe := h.lookupProbe
  entries_le := w.registry.entries.bounded
  probeEntries_le := w.registry.probeEntries.bounded

end RouteWorld

section System

variable {ρ : Type*} {maxEntries : ℕ} {digest : String → String} {w : RouteWorld ρ maxEntries}

variable (digest) in
/-- No lookup and no `remember` of an older generation finds a route of the current one. -/
def RouteWorld.Separate (w : RouteWorld ρ maxEntries) : RouteOp ρ → Prop
  | .call sessionId g request => request.usesEntries → g ≤ w.current →
      ∀ key, sessionKey digest sessionId = some key → w.Spares key g
  | _ => True

namespace RouteWorld

theorem Recorded.apply (h : w.Recorded) (op : RouteOp ρ) : (op.apply digest w).Recorded := by
  cases op with
  | call sessionId g request =>
    simp only [RouteOp.apply]
    split
    · exact h
    · split_ifs
      · exact h
      · exact h.callOn _ g request
  | clear => exact ⟨fun he => (nomatch he), fun he => (nomatch he)⟩
  | replaceGeneration => exact ⟨h.entries, h.probes⟩

theorem KeepsFirst.apply (h : w.KeepsFirst) {op : RouteOp ρ} (hop : w.Separate digest op) :
    (op.apply digest w).KeepsFirst := by
  cases op with
  | call sessionId g request =>
    simp only [RouteOp.apply]
    split
    · exact h
    · rename_i key hkey
      split_ifs with hg
      · exact h
      · have hg := not_lt.mp hg
        exact h.callOn hg fun huses => hop huses hg key hkey
  | clear => exact ⟨h.capacity, fun hfirst => (nomatch hfirst), fun he => (nomatch he)⟩
  | replaceGeneration =>
    refine ⟨h.capacity, fun hfirst => (nomatch hfirst), fun he => ?_⟩
    have hg := (h.entries he).1
    refine ⟨Nat.le_succ_of_le hg, fun hcurrent => ?_⟩
    rw [hcurrent] at hg
    exact absurd hg (Nat.not_succ_le_self _)

theorem recorded_of_reachable (h : (routeSystem digest ρ maxEntries).Reachable w) :
    w.Recorded := by
  refine System.Reachable.invariant ?_ ?_ h
  · rintro _ ⟨-, g, rfl⟩
    exact ⟨fun he => (nomatch he), fun he => (nomatch he)⟩
  · rintro w op _ _ hw rfl
    exact hw.apply op

theorem keepsFirst_of_reach
    (h : (routeSystem digest ρ maxEntries).Reach (Separate digest) w) : w.KeepsFirst := by
  refine System.Reach.invariant ?_ ?_ h
  · rintro _ ⟨hcapacity, g, rfl⟩
    exact ⟨hcapacity, fun hfirst => (nomatch hfirst), fun he => (nomatch he)⟩
  · rintro w op _ _ hw hop rfl
    exact hw.apply hop

end RouteWorld

end System

open RouteWorld

section Example

/-- A session gets its route under the second generation. -/
def firstRoute : List (RouteOp String) :=
  [.replaceGeneration, .call (some "s") 2 (.remember "new")]

/-- Then a request that is leased on the first generation looks its own route up. -/
def staleLookup : List (RouteOp String) := firstRoute ++ [.call (some "s") 1 .lookup]

def routesAfter (ops : List (RouteOp String)) : RouteWorld String 256 :=
  ops.foldl (fun w op => op.apply id w) { current := 1 }

end Example

end Switchboard.Application
