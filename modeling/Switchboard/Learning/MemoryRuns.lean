import Mathlib.Logic.Relation
import Switchboard.Learning.Memories

/-!
# Runs of the memory store

In every run the history tells what is live, each fingerprint is that of its own row, and no call
for one project touches a memory of another. What a call can do is said once, and each property
is derived from that.
-/

namespace Switchboard.Learning

inductive MemoryOp where
  | add (scope : String) (projectKey : ProjectKey) (text : String) (confidence : ℚ)
      (source reason : String) (now : ℚ)
  | replace (memoryId : ℕ) (projectKey : ProjectKey) (scope text : String) (confidence : ℚ)
      (source reason evidence : String) (now : ℚ)
  | remove (memoryId : ℕ) (projectKey : Option ProjectKey) (reason evidence : String) (now : ℚ)
  | evict (olderThanDays : ℚ) (limit : ℤ) (now : ℚ)

/-- What an event says is live after it: scope, project and text. -/
def MemoryVersion.told (version : MemoryVersion) : String × String × String :=
  (version.scope, version.projectKey, version.text)

def MemoryEvent.replay (live : Dict ℕ (String × String × String)) (event : MemoryEvent) :
    Dict ℕ (String × String × String) :=
  match event.new with
  | some version => live.set event.memoryId version.told
  | none => live.erase event.memoryId

namespace MemoryStore

/-- A call that raises leaves the store as it was. -/
def step (functions : TextFunctions) (s : MemoryStore) : MemoryOp → MemoryStore
  | .add scope projectKey text confidence source reason now =>
    match s.addMemory functions scope projectKey text confidence source reason now with
    | .ok made => made.2
    | .error _ => s
  | .replace memoryId projectKey scope text confidence source reason evidence now =>
    match s.replaceMemory functions memoryId projectKey scope text confidence source reason
      evidence now with
    | .ok made => made.2
    | .error _ => s
  | .remove memoryId projectKey reason evidence now =>
    (s.removeMemory memoryId projectKey reason evidence now).2
  | .evict olderThanDays limit now => (s.evictStaleMemories olderThanDays limit now).2

def run (functions : TextFunctions) (ops : List MemoryOp) : MemoryStore :=
  ops.foldl (step functions) {}

end MemoryStore

/-- What is hashed for a row. -/
def MemoryRow.hashed (functions : TextFunctions) (row : MemoryRow) : String :=
  fingerprintText functions row.scope row.projectKey row.text

/-- What a call hashes, if it looks for a fingerprint. -/
def MemoryOp.hashed (functions : TextFunctions) : MemoryOp → Option String
  | .add scope projectKey text .. | .replace _ projectKey scope text .. =>
    some (fingerprintText functions scope (effectiveProject scope projectKey) (normalize text))
  | _ => none

/-- No two texts that the calls hash have the same digest. -/
def CollisionFree (functions : TextFunctions) (ops : List MemoryOp) : Prop :=
  ∀ a ∈ ops.filterMap (MemoryOp.hashed functions), ∀ b ∈ ops.filterMap (MemoryOp.hashed functions),
    functions.sha256 a = functions.sha256 b → a = b

/-! ## What a call can do -/

/-- A row that is global, or in a project. -/
structure MemoryRow.WellScoped (row : MemoryRow) : Prop where
  scope : row.scope = "global" ∨ row.scope = "project"
  noNul : '\x00' ∉ row.projectKey.toList

/-- Where a project can get at a row. -/
def MemoryRow.accessible (projectKey : ProjectKey) (row : MemoryRow) : Prop :=
  row.scope = "project" → row.projectKey = projectKey.path

/-- The rows that a call may touch. -/
def MemoryOp.may : MemoryOp → MemoryRow → Prop
  | .add _ projectKey .., row | .replace _ projectKey .., row => row.accessible projectKey
  | .remove _ projectKey .., row => row.scope = "project" →
      ∃ key ∈ projectKey, row.projectKey = key.path
  | .evict .., row => row.pinned = false ∧ row.confidence < 9 / 10

namespace MemoryStore

variable {functions : TextFunctions} {hashed : String → Prop} {may : MemoryRow → Prop}
  {s t : MemoryStore}

/-- One change of the tables. The rows that it touches satisfy `may`, and what it hashes satisfies
`hashed`. -/
inductive Changed (functions : TextFunctions) (hashed : String → Prop) (may : MemoryRow → Prop)
    (s : MemoryStore) : MemoryStore → Prop
  | refresh {id row row'} : s.memories.get? id = some row → may row → may row' →
      row'.version.told = row.version.told → row'.fingerprint = row.fingerprint →
      Changed functions hashed may s { s with memories := s.memories.set id row' }
  | write {id row lastId event} : (∀ old, s.memories.get? id = some old → may old) → may row →
      row.WellScoped → hashed (row.hashed functions) →
      row.fingerprint = functions.sha256 (row.hashed functions) →
      (∀ j other, s.memories.get? j = some other → j ≠ id →
        other.fingerprint ≠ row.fingerprint) →
      0 < id → id ≤ lastId → s.lastId ≤ lastId →
      event.memoryId = id → event.new = some row.version →
      Changed functions hashed may s
        { memories := s.memories.set id row, history := s.history ++ [event], lastId := lastId }
  | delete {id event} : (∀ old, s.memories.get? id = some old → may old) →
      event.memoryId = id → event.new = none →
      Changed functions hashed may s
        { s with memories := s.memories.erase id, history := s.history ++ [event] }

/-- No two rows have the same fingerprint. -/
def Distinct (memories : Dict ℕ MemoryRow) : Prop :=
  ∀ i j row other, memories.get? i = some row → memories.get? j = some other →
    row.fingerprint = other.fingerprint → i = j

/-- What holds of the store in every run. -/
structure Kept (functions : TextFunctions) (hashed : String → Prop) (s : MemoryStore) : Prop where
  ids : ∀ id row, s.memories.get? id = some row → 0 < id ∧ id ≤ s.lastId
  wellScoped : ∀ id row, s.memories.get? id = some row → row.WellScoped
  hashes : ∀ id row, s.memories.get? id = some row → hashed (row.hashed functions)
  own : ∀ id row, s.memories.get? id = some row →
    row.fingerprint = functions.sha256 (row.hashed functions)
  distinct : Distinct s.memories
  replayed : ∀ id, (s.history.foldl MemoryEvent.replay .empty).get? id =
    (s.memories.get? id).map fun row => row.version.told

theorem kept_new : Kept functions hashed {} :=
  have hnone : ∀ id row, ({} : MemoryStore).memories.get? id ≠ some row := fun _ _ h => by cases h
  ⟨fun _ _ h => absurd h (hnone _ _), fun _ _ h => absurd h (hnone _ _),
    fun _ _ h => absurd h (hnone _ _), fun _ _ h => absurd h (hnone _ _),
    fun _ _ _ _ h => absurd h (hnone _ _), fun _ => rfl⟩

theorem hashed_of_told {row row' : MemoryRow} (h : row'.version.told = row.version.told) :
    row'.hashed functions = row.hashed functions := by
  simp only [MemoryVersion.told, MemoryRow.version, Prod.mk.injEq] at h
  rw [MemoryRow.hashed, MemoryRow.hashed, h.1, h.2.1, h.2.2]

theorem wellScoped_of_told {row row' : MemoryRow} (h : row'.version.told = row.version.told)
    (hrow : row.WellScoped) : row'.WellScoped := by
  simp only [MemoryVersion.told, MemoryRow.version, Prod.mk.injEq] at h
  exact ⟨by rw [h.1]; exact hrow.scope, by rw [h.2.1]; exact hrow.noNul⟩

/-- A write of a row, as far as the rows are concerned. -/
theorem forall_set {P : ℕ → MemoryRow → Prop} {memories : Dict ℕ MemoryRow} {id : ℕ}
    {row : MemoryRow} (hrow : P id row)
    (h : ∀ j other, memories.get? j = some other → P j other) :
    ∀ j other, (memories.set id row).get? j = some other → P j other := by
  intro j other hj
  rw [Dict.get?_set] at hj
  split_ifs at hj with heq
  · cases hj
    rwa [heq]
  · exact h j other hj

theorem forall_erase {P : ℕ → MemoryRow → Prop} {memories : Dict ℕ MemoryRow} (id : ℕ)
    (h : ∀ j other, memories.get? j = some other → P j other) :
    ∀ j other, (memories.erase id).get? j = some other → P j other := by
  intro j other hj
  rw [Dict.get?_erase] at hj
  split_ifs at hj with heq
  exact h j other hj

theorem Distinct.set {memories : Dict ℕ MemoryRow} (h : Distinct memories) {id : ℕ}
    {row : MemoryRow} (hfresh : ∀ j other, memories.get? j = some other → j ≠ id →
      other.fingerprint ≠ row.fingerprint) : Distinct (memories.set id row) := by
  intro i j old other hi hj hsame
  rw [Dict.get?_set] at hi hj
  split_ifs at hi hj with hid hjd hjd
  · rw [hid, hjd]
  · cases hi
    exact absurd hsame.symm (hfresh j other hj hjd)
  · cases hj
    exact absurd hsame (hfresh i old hi hid)
  · exact h i j old other hi hj hsame

theorem Distinct.erase {memories : Dict ℕ MemoryRow} (h : Distinct memories) (id : ℕ) :
    Distinct (memories.erase id) := by
  intro i j old other hi hj hsame
  rw [Dict.get?_erase] at hi hj
  split_ifs at hi hj
  exact h i j old other hi hj hsame

theorem Kept.changed (hs : Kept functions hashed s) (h : Changed functions hashed may s t) :
    Kept functions hashed t := by
  cases h with
  | @refresh id row row' hrow _ _ htold hfingerprint =>
    have hsame : row'.hashed functions = row.hashed functions := hashed_of_told htold
    refine ⟨forall_set (hs.ids id row hrow) hs.ids,
      forall_set (wellScoped_of_told htold (hs.wellScoped id row hrow)) hs.wellScoped,
      forall_set (by rw [hsame]; exact hs.hashes id row hrow) hs.hashes,
      forall_set (by rw [hsame, hfingerprint]; exact hs.own id row hrow) hs.own, ?_, ?_⟩
    · refine hs.distinct.set fun j other hj hne hsame => hne ?_
      rw [hfingerprint] at hsame
      exact hs.distinct j id other row hj hrow hsame
    · intro j
      rw [hs.replayed, Dict.get?_set]
      split_ifs with heq
      · rw [heq, hrow, Option.map_some, Option.map_some, htold]
      · rfl
  | @write id row lastId event _ _ hscoped hhashed hown hfresh hpos hle hlast hevent hnew =>
    refine ⟨forall_set ⟨hpos, hle⟩ fun j other hj => ?_, forall_set hscoped hs.wellScoped,
      forall_set hhashed hs.hashes, forall_set hown hs.own, ?_, ?_⟩
    · have hids := hs.ids j other hj
      exact ⟨hids.1, hids.2.trans hlast⟩
    · exact hs.distinct.set hfresh
    · intro j
      rw [List.foldl_append, List.foldl_cons, List.foldl_nil, MemoryEvent.replay, hnew, hevent]
      simp only [Dict.get?_set, hs.replayed]
      split_ifs <;> rfl
  | @delete id event _ hevent hnew =>
    refine ⟨forall_erase id hs.ids, forall_erase id hs.wellScoped, forall_erase id hs.hashes,
      forall_erase id hs.own, ?_, ?_⟩
    · exact hs.distinct.erase id
    · intro j
      rw [List.foldl_append, List.foldl_cons, List.foldl_nil, MemoryEvent.replay, hnew, hevent]
      simp only [Dict.get?_erase, hs.replayed]
      split_ifs <;> rfl

/-- Several changes, one after the other. -/
def Changes (functions : TextFunctions) (hashed : String → Prop) (may : MemoryRow → Prop) :
    MemoryStore → MemoryStore → Prop :=
  Relation.ReflTransGen (Changed functions hashed may)

theorem Kept.changes (hs : Kept functions hashed s) (h : Changes functions hashed may s t) :
    Kept functions hashed t := by
  induction h with
  | refl => exact hs
  | tail _ hstep ih => exact ih.changed hstep

/-- A row that may not be touched is there after a change exactly if it was there before. -/
theorem Changed.frame (h : Changed functions hashed may s t) {id : ℕ} {row : MemoryRow}
    (hnot : ¬ may row) : t.memories.get? id = some row ↔ s.memories.get? id = some row := by
  cases h with
  | @refresh target old row' hold hmay hmay' =>
    rw [Dict.get?_set]
    split_ifs with heq
    · subst heq
      refine ⟨fun h => ?_, fun h => ?_⟩
      · cases h
        exact absurd hmay' hnot
      · rw [hold] at h
        cases h
        exact absurd hmay hnot
    · rfl
  | @write target row' lastId event hold hmay =>
    rw [Dict.get?_set]
    split_ifs with heq
    · subst heq
      refine ⟨fun h => ?_, fun h => absurd (hold row h) hnot⟩
      cases h
      exact absurd hmay hnot
    · rfl
  | @delete target event hold =>
    simp only [Dict.get?_erase]
    split_ifs with heq
    · subst heq
      exact ⟨fun h => (by cases h), fun h => absurd (hold row h) hnot⟩
    · rfl

theorem Changes.frame (h : Changes functions hashed may s t) {id : ℕ} {row : MemoryRow}
    (hnot : ¬ may row) : t.memories.get? id = some row ↔ s.memories.get? id = some row := by
  induction h with
  | refl => rfl
  | tail _ hstep ih => rw [hstep.frame hnot, ih]

/-! ## What the calls do -/

theorem validateScope_ok {scope : String} (h : validateScope scope = .ok ()) :
    scope = "global" ∨ scope = "project" := by
  rw [validateScope] at h
  split_ifs at h with hscope
  exact hscope

theorem byFingerprint_some {fingerprint : String} {existing : ℕ × MemoryRow}
    (h : s.byFingerprint fingerprint = some existing) :
    s.memories.get? existing.1 = some existing.2 ∧ existing.2.fingerprint = fingerprint := by
  have hfingerprint := List.find?_some h
  exact ⟨Dict.get?_eq_some.mpr (List.mem_of_find?_eq_some h), by simpa using hfingerprint⟩

theorem byFingerprint_none {fingerprint : String} (h : s.byFingerprint fingerprint = none) :
    ∀ id row, s.memories.get? id = some row → row.fingerprint ≠ fingerprint := by
  intro id row hrow
  have hnot := List.find?_eq_none.mp h _ (Dict.get?_eq_some.mp hrow)
  simpa using hnot

theorem scope_noNul {scope : String} (h : scope = "global" ∨ scope = "project") :
    '\x00' ∉ scope.toList := by
  rcases h with rfl | rfl <;> decide

theorem effectiveProject_noNul (scope : String) (projectKey : ProjectKey) :
    '\x00' ∉ (effectiveProject scope projectKey).toList := by
  rw [effectiveProject]
  split_ifs
  · exact projectKey.noNul
  · decide

/-- What stands before the first of a separator, and what after it. -/
theorem append_cons_inj {α : Type*} {a : α} : ∀ {x x' z z' : List α}, a ∉ x → a ∉ x' →
    x ++ a :: z = x' ++ a :: z' → x = x' ∧ z = z'
  | [], [], _, _, _, _, h => ⟨rfl, (List.cons.inj h).2⟩
  | [], _ :: _, _, _, _, hx', h => absurd (List.mem_cons.mpr (.inl (List.cons.inj h).1)) hx'
  | _ :: _, [], _, _, hx, _, h => absurd (List.mem_cons.mpr (.inl (List.cons.inj h).1.symm)) hx
  | b :: x, c :: x', z, z', hx, hx', h => by
    obtain ⟨hhead, htail⟩ := List.cons.inj h
    have hrest := append_cons_inj (fun hmem => hx (List.mem_cons_of_mem b hmem))
      (fun hmem => hx' (List.mem_cons_of_mem c hmem)) htail
    exact ⟨by rw [hhead, hrest.1], hrest.2⟩

/-- The text that is hashed tells the scope and the project: neither of them has a NUL in it. -/
theorem fingerprintText_inj {scope scope' projectKey projectKey' text text' : String}
    (hscope : '\x00' ∉ scope.toList) (hscope' : '\x00' ∉ scope'.toList)
    (hkey : '\x00' ∉ projectKey.toList) (hkey' : '\x00' ∉ projectKey'.toList)
    (h : fingerprintText functions scope projectKey text =
      fingerprintText functions scope' projectKey' text') :
    scope = scope' ∧ projectKey = projectKey' := by
  have hlist := congrArg String.toList h
  have hnul : "\x00".toList = ['\x00'] := rfl
  simp only [fingerprintText, toString, String.toList_append, hnul, List.append_assoc,
    List.singleton_append] at hlist
  obtain ⟨hscopes, hrest⟩ := append_cons_inj hscope hscope' hlist
  obtain ⟨hkeys, -⟩ := append_cons_inj hkey hkey' hrest
  exact ⟨String.toList_inj.mp hscopes, String.toList_inj.mp hkeys⟩

/-- What `add_memory` returns and does: nothing, the refresh of a row, or a new row. -/
theorem addMemory_cases {scope : String} {projectKey : ProjectKey} {text : String}
    {confidence : ℚ} {source reason : String} {now : ℚ} {made : (ℕ × Bool) × MemoryStore}
    (h : s.addMemory functions scope projectKey text confidence source reason now = .ok made) :
    (scope = "global" ∨ scope = "project") ∧
    (made = ((0, false), s) ∨
    (∃ existing row', s.byFingerprint (memoryFingerprint functions scope
        (effectiveProject scope projectKey) (normalize text)) = some existing ∧
      row'.version.told = existing.2.version.told ∧
      row'.fingerprint = existing.2.fingerprint ∧
      made = ((existing.1, false), { s with memories := s.memories.set existing.1 row' })) ∨
    (s.byFingerprint (memoryFingerprint functions scope (effectiveProject scope projectKey)
        (normalize text)) = none ∧
      ∃ row event, row.scope = scope ∧ row.projectKey = effectiveProject scope projectKey ∧
        row.text = normalize text ∧
        row.fingerprint = memoryFingerprint functions scope (effectiveProject scope projectKey)
          (normalize text) ∧
        event.memoryId = s.lastId + 1 ∧ event.new = some row.version ∧
        made = ((s.lastId + 1, true),
          { memories := s.memories.set (s.lastId + 1) row, history := s.history ++ [event]
            lastId := s.lastId + 1 }))) := by
  cases hscope : validateScope scope with
  | error e => simp [addMemory, hscope, bind, Except.bind] at h
  | ok u =>
    cases hconfidence : validateConfidence confidence with
    | error e => simp [addMemory, hscope, hconfidence, bind, Except.bind] at h
    | ok u =>
      refine ⟨validateScope_ok hscope, ?_⟩
      simp only [addMemory, hscope, hconfidence, bind, Except.bind] at h
      split_ifs at h with hclean
      · cases h
        exact .inl rfl
      · split at h
        · cases h
          refine .inr (.inl ⟨_, _, ‹_›, ?_, ?_, rfl⟩) <;> rfl
        · cases h
          refine .inr (.inr ⟨‹_›, _, _, ?_, ?_, ?_, ?_, ?_, ?_, rfl⟩) <;> rfl

theorem Kept.absent (hs : Kept functions hashed s) : s.memories.get? (s.lastId + 1) = none := by
  cases hget : s.memories.get? (s.lastId + 1) with
  | none => rfl
  | some row =>
    have hle := (hs.ids _ _ hget).2
    omega

/-- A row with the fingerprint of a scope and a project is in that project. -/
theorem Kept.accessible_of_fingerprint (hs : Kept functions hashed s)
    (hfree : ∀ a b, hashed a → hashed b → functions.sha256 a = functions.sha256 b → a = b)
    {scope : String} {projectKey : ProjectKey} {text : String}
    (hscope : scope = "global" ∨ scope = "project")
    (hhashed : hashed (fingerprintText functions scope (effectiveProject scope projectKey) text))
    {id : ℕ} {row : MemoryRow} (hrow : s.memories.get? id = some row)
    (hfingerprint : row.fingerprint = memoryFingerprint functions scope
      (effectiveProject scope projectKey) text) : row.accessible projectKey := by
  rw [hs.own id row hrow] at hfingerprint
  have htext := hfree _ _ (hs.hashes id row hrow) hhashed hfingerprint
  have hscoped := hs.wellScoped id row hrow
  obtain ⟨hsame, hkey⟩ := fingerprintText_inj (scope_noNul hscoped.scope) (scope_noNul hscope)
    hscoped.noNul (effectiveProject_noNul scope projectKey) htext
  intro hproject
  rw [hkey, effectiveProject, if_pos (by rw [← hsame, hproject])]

theorem accessible_of_told {row row' : MemoryRow} {projectKey : ProjectKey}
    (h : row'.version.told = row.version.told) (hrow : row.accessible projectKey) :
    row'.accessible projectKey := by
  simp only [MemoryVersion.told, MemoryRow.version, Prod.mk.injEq] at h
  intro hproject
  rw [h.2.1]
  exact hrow (by rw [← h.1, hproject])

theorem accessible_effectiveProject {row : MemoryRow} {scope : String} {projectKey : ProjectKey}
    (hscope : row.scope = scope) (hkey : row.projectKey = effectiveProject scope projectKey) :
    row.accessible projectKey := by
  intro hproject
  rw [hkey, effectiveProject, if_pos (by rw [← hscope, hproject])]

/-- What `add_memory` does, and whose row its id is. -/
theorem Kept.add (hs : Kept functions hashed s)
    (hfree : ∀ a b, hashed a → hashed b → functions.sha256 a = functions.sha256 b → a = b)
    {scope : String} {projectKey : ProjectKey} {text : String} {confidence : ℚ}
    {source reason : String} {now : ℚ} {made : (ℕ × Bool) × MemoryStore}
    (hhashed : hashed (fingerprintText functions scope (effectiveProject scope projectKey)
      (normalize text)))
    (h : s.addMemory functions scope projectKey text confidence source reason now = .ok made) :
    Changes functions hashed (MemoryRow.accessible projectKey) s made.2 ∧
      ∀ row, made.2.memories.get? made.1.1 = some row → row.accessible projectKey := by
  obtain ⟨hscope, rfl | ⟨existing, row', hfound, htold, hsame, rfl⟩ |
    ⟨habsent, row, event, hrow, hkey, htext, hfingerprint, hevent, hnew, rfl⟩⟩ :=
      addMemory_cases h
  · refine ⟨.refl, fun row hrow => ?_⟩
    have hpos := (hs.ids 0 row hrow).1
    omega
  · obtain ⟨hget, hfingerprint⟩ := byFingerprint_some hfound
    have hmay := hs.accessible_of_fingerprint hfree hscope hhashed hget hfingerprint
    have hmay' := accessible_of_told htold hmay
    refine ⟨.single (.refresh hget hmay hmay' htold hsame), fun row hrow => ?_⟩
    simp only [Dict.get?_set, if_pos] at hrow
    cases hrow
    exact hmay'
  · have hmay := accessible_effectiveProject hrow hkey
    have hrowHashed : row.hashed functions = fingerprintText functions scope
        (effectiveProject scope projectKey) (normalize text) := by
      rw [MemoryRow.hashed, hrow, hkey, htext]
    refine ⟨.single (.write ?_ hmay ?_ ?_ ?_ ?_ (by omega) le_rfl (by omega) hevent hnew),
      fun row' hrow' => ?_⟩
    · intro old hold
      rw [hs.absent] at hold
      cases hold
    · exact ⟨by rw [hrow]; exact hscope, by rw [hkey]; exact effectiveProject_noNul _ _⟩
    · rwa [hrowHashed]
    · rw [hfingerprint, hrowHashed, memoryFingerprint]
    · intro j other hj _
      rw [hfingerprint]
      exact byFingerprint_none habsent j other hj
    · simp only [Dict.get?_set, if_pos] at hrow'
      cases hrow'
      exact hmay

theorem accessibleMemory_some {memoryId : ℕ} {projectKey : Option ProjectKey} {row : MemoryRow}
    (h : s.accessibleMemory memoryId projectKey = some row) :
    s.memories.get? memoryId = some row ∧
      (row.scope = "project" → ∃ key ∈ projectKey, row.projectKey = key.path) := by
  obtain ⟨hget, hallowed⟩ := Option.filter_eq_some_iff.mp h
  refine ⟨hget, fun hproject => ?_⟩
  cases projectKey with
  | none => simp [hproject] at hallowed
  | some key => exact ⟨key, rfl, by simpa [hproject] using hallowed⟩

theorem accessible_of_accessibleMemory {memoryId : ℕ} {projectKey : ProjectKey} {row : MemoryRow}
    (h : s.accessibleMemory memoryId (some projectKey) = some row) : row.accessible projectKey := by
  intro hproject
  obtain ⟨key, hkey, hpath⟩ := (accessibleMemory_some h).2 hproject
  cases hkey
  exact hpath

/-- What `replace_memory` returns and does: nothing, or another text in a row. -/
theorem replaceMemory_cases {memoryId : ℕ} {projectKey : ProjectKey} {scope text : String}
    {confidence : ℚ} {source reason evidence : String} {now : ℚ} {made : Bool × MemoryStore}
    (h : s.replaceMemory functions memoryId projectKey scope text confidence source reason evidence
      now = .ok made) :
    made = (false, s) ∨
    (scope = "global" ∨ scope = "project") ∧
      ∃ old row event, s.accessibleMemory memoryId (some projectKey) = some old ∧
        (∀ entry ∈ s.memories.entries, entry.2.fingerprint = row.fingerprint →
          entry.1 = memoryId) ∧
        row.scope = scope ∧ row.projectKey = effectiveProject scope projectKey ∧
        row.text = normalize text ∧
        row.fingerprint = memoryFingerprint functions scope (effectiveProject scope projectKey)
          (normalize text) ∧
        event.memoryId = memoryId ∧ event.new = some row.version ∧
        made = (true, { s with
          memories := s.memories.set memoryId row, history := s.history ++ [event] }) := by
  cases hscope : validateScope scope with
  | error e => simp [replaceMemory, hscope, bind, Except.bind] at h
  | ok u =>
    cases hconfidence : validateConfidence confidence with
    | error e => simp [replaceMemory, hscope, hconfidence, bind, Except.bind] at h
    | ok u =>
      simp only [replaceMemory, hscope, hconfidence, bind, Except.bind] at h
      by_cases hclean : normalize text = ""
      · rw [if_pos hclean] at h
        cases h
        exact .inl rfl
      rw [if_neg hclean] at h
      cases hold : s.accessibleMemory memoryId (some projectKey) with
      | none =>
        rw [hold] at h
        cases h
        exact .inl rfl
      | some old =>
        rw [hold] at h
        simp only at h
        split_ifs at h with hmoved hduplicate
        · cases h
          exact .inl rfl
        · cases h
          exact .inl rfl
        · cases h
          refine .inr ⟨validateScope_ok hscope, old, _, _, rfl, ?_, ?_, ?_, ?_, ?_, ?_, ?_, rfl⟩
          · simpa using hduplicate
          all_goals rfl

/-- What `replace_memory` does. -/
theorem Kept.replace (hs : Kept functions hashed s) {memoryId : ℕ} {projectKey : ProjectKey}
    {scope text : String} {confidence : ℚ} {source reason evidence : String} {now : ℚ}
    {made : Bool × MemoryStore}
    (hhashed : hashed (fingerprintText functions scope (effectiveProject scope projectKey)
      (normalize text)))
    (h : s.replaceMemory functions memoryId projectKey scope text confidence source reason evidence
      now = .ok made) :
    Changes functions hashed (MemoryRow.accessible projectKey) s made.2 := by
  obtain rfl | ⟨hscope, old, row, event, hold, hunique, hrow, hkey, htext, hfingerprint, hevent,
    hnew, rfl⟩ := replaceMemory_cases h
  · exact .refl
  · have hget := (accessibleMemory_some hold).1
    have hids := hs.ids memoryId old hget
    have hrowHashed : row.hashed functions = fingerprintText functions scope
        (effectiveProject scope projectKey) (normalize text) := by
      rw [MemoryRow.hashed, hrow, hkey, htext]
    refine .single (.write ?_ (accessible_effectiveProject hrow hkey) ?_ ?_ ?_ ?_ hids.1 hids.2
      le_rfl hevent hnew)
    · intro other hother
      rw [hget] at hother
      cases hother
      exact accessible_of_accessibleMemory hold
    · exact ⟨by rw [hrow]; exact hscope, by rw [hkey]; exact effectiveProject_noNul _ _⟩
    · rwa [hrowHashed]
    · rw [hfingerprint, hrowHashed, memoryFingerprint]
    · intro j other hj hne hsame
      exact hne (hunique (j, other) (Dict.get?_eq_some.mp hj) hsame)

/-- What `remove_memory` does. -/
theorem removeMemory_changes (memoryId : ℕ) (projectKey : Option ProjectKey)
    (reason evidence : String) (now : ℚ) :
    Changes functions hashed (MemoryOp.remove memoryId projectKey reason evidence now).may s
      (s.removeMemory memoryId projectKey reason evidence now).2 := by
  rw [removeMemory]
  cases hrow : s.accessibleMemory memoryId projectKey with
  | none => exact .refl
  | some row =>
    refine .single (.delete ?_ rfl rfl)
    intro old hold
    obtain ⟨hget, hallowed⟩ := accessibleMemory_some hrow
    rw [hget] at hold
    cases hold
    exact hallowed

/-- The deletion of rows that are live, if they still are. -/
theorem delete_changes (action reason evidence : String) (now : ℚ) (rows : List (ℕ × MemoryRow))
    (h : ∀ entry ∈ rows, ∀ old, s.memories.get? entry.1 = some old → may old) :
    Changes functions hashed may s
      (rows.foldl (fun t row => t.delete row.1 row.2 action reason evidence now) s) := by
  induction rows generalizing s with
  | nil => exact .refl
  | cons entry rows ih =>
    refine Relation.ReflTransGen.head (.delete (h entry List.mem_cons_self) rfl rfl) (ih ?_)
    intro later hlater old hold
    rw [Dict.get?_erase] at hold
    split_ifs at hold
    exact h later (List.mem_cons_of_mem entry hlater) old hold

/-- What `evict_stale_memories` does. -/
theorem evictStaleMemories_changes (olderThanDays : ℚ) (limit : ℤ) (now : ℚ) :
    Changes functions hashed (MemoryOp.evict olderThanDays limit now).may s
      (s.evictStaleMemories olderThanDays limit now).2 := by
  refine delete_changes _ _ _ _ _ fun entry hentry old hold => ?_
  have hmem := (List.mergeSort_perm _ _).mem_iff.mp (List.mem_of_mem_take hentry)
  obtain ⟨hlive, hstale⟩ := List.mem_filter.mp hmem
  rw [Dict.get?_eq_some.mpr hlive] at hold
  cases hold
  simp only [stale, Bool.and_eq_true, Bool.not_eq_true', decide_eq_true_eq] at hstale
  exact hstale.1.1

/-! ## Runs -/

/-- A call changes no row but those that it may touch. -/
theorem Kept.step (hs : Kept functions hashed s)
    (hfree : ∀ a b, hashed a → hashed b → functions.sha256 a = functions.sha256 b → a = b)
    (op : MemoryOp) (hhashed : ∀ text ∈ op.hashed functions, hashed text) :
    Changes functions hashed op.may s (s.step functions op) := by
  cases op with
  | add scope projectKey text confidence source reason now =>
    rw [MemoryStore.step]
    split
    · exact (hs.add hfree (hhashed _ rfl) ‹_›).1
    · exact .refl
  | replace memoryId projectKey scope text confidence source reason evidence now =>
    rw [MemoryStore.step]
    split
    · exact hs.replace (hhashed _ rfl) ‹_›
    · exact .refl
  | remove memoryId projectKey reason evidence now =>
    exact removeMemory_changes memoryId projectKey reason evidence now
  | evict olderThanDays limit now => exact evictStaleMemories_changes olderThanDays limit now

theorem kept_run {ops : List MemoryOp}
    (hfree : ∀ a b, hashed a → hashed b → functions.sha256 a = functions.sha256 b → a = b)
    (hhashed : ∀ op ∈ ops, ∀ text ∈ op.hashed functions, hashed text) :
    Kept functions hashed (run functions ops) := by
  induction ops using List.reverseRecOn with
  | nil => exact kept_new
  | append_singleton ops op ih =>
    have hs := ih fun op hop => hhashed op (List.mem_append_left _ hop)
    rw [run, List.foldl_append]
    exact hs.changes (hs.step hfree op (hhashed op (by simp)))

/-- What `list_memories` returns is what passes its clauses. -/
theorem mem_listMemories {projectKey : Option ProjectKey} {scope : Option String}
    {search : String} {limit : ℤ} {rows : List (ℕ × MemoryRow)}
    (h : s.listMemories functions projectKey scope search limit = .ok rows)
    {entry : ℕ × MemoryRow} (hentry : entry ∈ rows) :
    entry ∈ s.memories.entries ∧
      ∀ key ∈ projectKey, entry.2.scope = "global" ∨ entry.2.projectKey = key.path := by
  have hpassed : ∀ {p : ℕ × MemoryRow → Bool},
      entry ∈ ((s.memories.entries.filter p).mergeSort listedBefore).take limit.toNat →
        entry ∈ s.memories.entries ∧ p entry = true := fun hmem =>
    List.mem_filter.mp ((List.mergeSort_perm _ _).mem_iff.mp (List.mem_of_mem_take hmem))
  have hrows : entry ∈ s.memories.entries ∧ (projectKey.all fun key =>
      entry.2.scope = "global" || entry.2.projectKey = key.path) = true := by
    cases scope with
    | none =>
      cases h
      obtain ⟨hlive, hall⟩ := hpassed hentry
      simp only [Bool.and_eq_true] at hall
      exact ⟨hlive, hall.1.1⟩
    | some scope =>
      cases hscope : validateScope scope with
      | error e => simp [listMemories, hscope, bind, Except.bind] at h
      | ok u =>
        simp only [listMemories, hscope, bind, Except.bind] at h
        cases h
        obtain ⟨hlive, hall⟩ := hpassed hentry
        simp only [Bool.and_eq_true] at hall
        exact ⟨hlive, hall.1.1⟩
  refine ⟨hrows.1, fun key hkey => ?_⟩
  cases hkey
  simpa using hrows.2

end MemoryStore

/-- The project that a call is for. -/
def MemoryOp.project : MemoryOp → Option ProjectKey
  | .add _ projectKey .. | .replace _ projectKey .. => some projectKey
  | .remove _ projectKey .. => projectKey
  | .evict .. => none

/-- A row of another project. -/
def MemoryRow.foreign (projectKey : ProjectKey) (row : MemoryRow) : Prop :=
  row.scope = "project" ∧ row.projectKey ≠ projectKey.path

theorem MemoryRow.not_foreign {projectKey : ProjectKey} {row : MemoryRow}
    (h : row.accessible projectKey) : ¬ row.foreign projectKey :=
  fun hforeign => hforeign.2 (h hforeign.1)

theorem MemoryOp.not_may_of_foreign {op : MemoryOp} {key : ProjectKey}
    (hproject : op.project = some key) {row : MemoryRow} (hforeign : row.foreign key) :
    ¬ op.may row := by
  intro hmay
  cases op with
  | add | replace =>
    cases hproject
    exact hforeign.2 (hmay hforeign.1)
  | remove =>
    cases hproject
    obtain ⟨key', hkey', hpath⟩ := hmay hforeign.1
    cases hkey'
    exact hforeign.2 hpath
  | evict => cases hproject

namespace MemoryStore

variable {functions : TextFunctions}

/-- What a call leaves alone, and whose row it returns. -/
structure Isolated (functions : TextFunctions) (s : MemoryStore) (op : MemoryOp) : Prop where
  /-- A call for a project adds, changes and removes no row of another project. -/
  frame : ∀ key, op.project = some key → ∀ id row, row.foreign key →
    ((s.step functions op).memories.get? id = some row ↔ s.memories.get? id = some row)
  /-- The id that an `add_memory` returns is not that of a row of another project. -/
  returned : ∀ scope key text confidence source reason now made,
    op = .add scope key text confidence source reason now →
    s.addMemory functions scope key text confidence source reason now = .ok made →
    ∀ row, made.2.memories.get? made.1.1 = some row → ¬ row.foreign key
  /-- An eviction removes no row that is pinned, or of much confidence. -/
  retained : ∀ olderThanDays limit now, op = .evict olderThanDays limit now → ∀ id row,
    row.pinned = true ∨ 9 / 10 ≤ row.confidence → s.memories.get? id = some row →
      (s.step functions op).memories.get? id = some row

/-- In every run, with no two of the texts that are hashed in it having the same digest, the
history tells what is live, the fingerprints are the rows' own and differ, and each call and
each reading keeps to its project. -/
theorem memories_of_run (functions : TextFunctions) (ops : List MemoryOp)
    (hfree : CollisionFree functions ops) :
    (∀ id, ((run functions ops).history.foldl MemoryEvent.replay .empty).get? id =
      ((run functions ops).memories.get? id).map fun row =>
        (row.scope, row.projectKey, row.text)) ∧
    (∀ id row, (run functions ops).memories.get? id = some row →
      row.fingerprint = memoryFingerprint functions row.scope row.projectKey row.text) ∧
    (∀ id id' row row', (run functions ops).memories.get? id = some row →
      (run functions ops).memories.get? id' = some row' →
      row.fingerprint = row'.fingerprint → id = id') ∧
    (∀ before op after, ops = before ++ op :: after →
      (run functions before).Isolated functions op) ∧
    (∀ key id row, (run functions ops).getMemory id (some key) = some row → ¬ row.foreign key) ∧
    (∀ key scope search limit rows,
      (run functions ops).listMemories functions (some key) scope search limit = .ok rows →
      ∀ entry ∈ rows, ¬ entry.2.foreign key) := by
  have hfree' : ∀ a b, a ∈ ops.filterMap (MemoryOp.hashed functions) →
      b ∈ ops.filterMap (MemoryOp.hashed functions) → functions.sha256 a = functions.sha256 b →
      a = b := fun a b ha hb => hfree a ha b hb
  have hhashed : ∀ op ∈ ops, ∀ text ∈ op.hashed functions,
      text ∈ ops.filterMap (MemoryOp.hashed functions) := fun op hop text htext =>
    List.mem_filterMap.mpr ⟨op, hop, htext⟩
  have hkept := kept_run hfree' hhashed
  refine ⟨hkept.replayed, hkept.own, hkept.distinct, ?_, ?_, ?_⟩
  · intro before op after hops
    have hmem : op ∈ ops := by simp [hops]
    have hbefore : ∀ earlier ∈ before, earlier ∈ ops := fun earlier hearlier => by
      simp [hops, hearlier]
    have hs := kept_run hfree' fun earlier hearlier => hhashed earlier (hbefore earlier hearlier)
    have hstep := hs.step hfree' op (hhashed op hmem)
    refine ⟨fun key hproject id row hforeign => ?_, ?_, ?_⟩
    · exact hstep.frame (MemoryOp.not_may_of_foreign hproject hforeign)
    · rintro scope key text confidence source reason now made rfl hmade row hrow
      have hadd := hs.add hfree' (hhashed _ hmem _ rfl) hmade
      exact MemoryRow.not_foreign (hadd.2 row hrow)
    · rintro olderThanDays limit now rfl id row hworth hrow
      refine (hstep.frame fun hmay => ?_).mpr hrow
      rcases hworth with hpinned | hconfidence
      · exact absurd hpinned (by rw [hmay.1]; decide)
      · exact absurd hmay.2 (not_lt.mpr hconfidence)
  · intro key id row hrow
    exact MemoryRow.not_foreign (accessible_of_accessibleMemory hrow)
  · intro key scope search limit rows hrows entry hentry hforeign
    rcases (mem_listMemories hrows hentry).2 key rfl with hglobal | hkey
    · exact absurd (hforeign.1.symm.trans hglobal) (by decide)
    · exact hforeign.2 hkey

/-- The functions, as they are on the texts of the run below. -/
def exampleFunctions : TextFunctions where
  casefold := id
  sha256 text :=
    if text = "project\x00/work/a\x00use tabs" then
      "d317b0ed020ded356fcf9cc28dc6ed149bbf7b7498c22775661c730d7c747c5f"
    else if text = "global\x00\x00be brief" then
      "426b6efd3f2686ac74c068ebfa4f6ea44ab5dd4be06eac5cd4c3f5b64c194740"
    else if text = "project\x00/work/b\x00be brief" then
      "478ecb0479145c5f52b155b999c11c99d55f74aaf8772df78b36bcdff948ee46"
    else ""
  like pattern text :=
    text.toList.tails.any fun rest => (pattern.toList.drop 1).dropLast.isPrefixOf rest

def exampleOps : List MemoryOp :=
  let key : ProjectKey := ⟨"/work/a", by decide⟩
  [.add "project" key "use  tabs" (1 / 2) "reflection" "" 10,
    .add "global" key "be brief" 1 "user_explicit" "" 20,
    .replace 1 ⟨"/work/b", by decide⟩ "project" "be brief" 1 "reflection" "" "" 30,
    .evict 0 100 40]

theorem memories_of_run_evicted :
    CollisionFree exampleFunctions exampleOps ∧
    (run exampleFunctions exampleOps).memories.get? 1 = none ∧
    ((run exampleFunctions exampleOps).history.foldl MemoryEvent.replay .empty).get? 2 =
      some ("global", "", "be brief") := by
  have hfree : CollisionFree exampleFunctions exampleOps := by
    rw [CollisionFree]
    decide +kernel
  have h := memories_of_run exampleFunctions exampleOps hfree
  refine ⟨hfree, by decide +kernel, ?_⟩
  rw [h.1 2]
  decide +kernel

end MemoryStore

end Switchboard.Learning
