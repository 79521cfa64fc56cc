import Mathlib.Data.Finset.Card
import Mathlib.Data.List.Nodup
import Mathlib.Logic.Relation
import Mathlib.Tactic

/-!
# Exploring a forest with an explicit stack

`explore` pops a vertex, records it and pushes its children. The head of the
stack list is its top. On a forest (no vertex is the child of two vertices, and
the start is a child of none of its descendants) the loop visits every
descendant of the start exactly once, hence stops within as many rounds as there
are vertices.
-/

namespace Switchboard

variable {α : Type*}

/-- At most `fuel` rounds of the stack loop; `none` when the stack is still not
empty after them. -/
def explore (children : α → List α) : ℕ → List α → Option (List α)
  | _, [] => some []
  | 0, _ :: _ => none
  | fuel + 1, v :: stack =>
      (explore children fuel ((children v).reverse ++ stack)).map (v :: ·)

/-- `w` is reached from `v` by going from vertices to their children. -/
def Descends (children : α → List α) : α → α → Prop :=
  Relation.ReflTransGen fun v w => w ∈ children v

variable {children : α → List α}

@[simp] theorem explore_nil (fuel : ℕ) : explore children fuel [] = some [] := by
  cases fuel <;> rfl

theorem explore_cons_eq_some {fuel : ℕ} {v : α} {stack l : List α}
    (h : explore children fuel (v :: stack) = some l) :
    ∃ m k, fuel = m + 1 ∧ l = v :: k ∧
      explore children m ((children v).reverse ++ stack) = some k := by
  cases fuel with
  | zero => simp [explore] at h
  | succ m =>
    rw [explore, Option.map_eq_some_iff] at h
    obtain ⟨k, hk, rfl⟩ := h
    exact ⟨m, k, rfl, rfl, hk⟩

/-- The visited list holds the stack and is closed under children. -/
theorem explore_closed {fuel : ℕ} {stack l : List α}
    (h : explore children fuel stack = some l) :
    (∀ v ∈ stack, v ∈ l) ∧ ∀ v ∈ l, ∀ c ∈ children v, c ∈ l := by
  induction fuel generalizing stack l with
  | zero => cases stack with
    | nil => cases h; simp
    | cons v stack => simp [explore] at h
  | succ m ih => cases stack with
    | nil => cases h; simp
    | cons v stack =>
      obtain ⟨n, k, hn, rfl, hk⟩ := explore_cons_eq_some h
      cases Nat.succ_injective hn
      obtain ⟨hin, hcl⟩ := ih hk
      refine ⟨?_, ?_⟩
      · intro w hw
        rcases List.mem_cons.mp hw with rfl | hw
        · exact List.mem_cons_self
        · exact List.mem_cons_of_mem _ (hin w (List.mem_append_right _ hw))
      · intro w hw c hc
        rcases List.mem_cons.mp hw with rfl | hw
        · exact List.mem_cons_of_mem _
            (hin c (List.mem_append_left _ (List.mem_reverse.mpr hc)))
        · exact List.mem_cons_of_mem _ (hcl w hw c hc)

/-- Each visited vertex was on the stack or is the child of one visited before. -/
theorem explore_origin {fuel : ℕ} {stack l : List α}
    (h : explore children fuel stack = some l) {p s : List α} {w : α} (hl : l = p ++ w :: s) :
    w ∈ stack ∨ ∃ v ∈ p, w ∈ children v := by
  induction fuel generalizing stack l p with
  | zero => cases stack with
    | nil => cases h; simp at hl
    | cons v stack => simp [explore] at h
  | succ m ih => cases stack with
    | nil => cases h; simp at hl
    | cons v stack =>
      obtain ⟨n, k, hn, rfl, hk⟩ := explore_cons_eq_some h
      cases Nat.succ_injective hn
      cases p with
      | nil =>
        cases hl
        exact Or.inl List.mem_cons_self
      | cons u p =>
        rw [List.cons_append, List.cons.injEq] at hl
        obtain ⟨rfl, hl⟩ := hl
        rcases ih hk hl with hw | ⟨x, hx, hw⟩
        · rcases List.mem_append.mp hw with hw | hw
          · exact Or.inr ⟨v, List.mem_cons_self, List.mem_reverse.mp hw⟩
          · exact Or.inl (List.mem_cons_of_mem _ hw)
        · exact Or.inr ⟨x, List.mem_cons_of_mem _ hx, hw⟩

theorem explore_sound {fuel : ℕ} {start : α} {l : List α}
    (h : explore children fuel [start] = some l) {w : α} (hw : w ∈ l) :
    Descends children start w := by
  -- strong induction on the place of `w`: its parent was visited before it
  obtain ⟨p, s, hl⟩ := List.append_of_mem hw
  induction hn : p.length using Nat.strong_induction_on generalizing p s w with
  | _ n ih =>
    rcases explore_origin h hl with hw | ⟨v, hv, hw⟩
    · rw [List.mem_singleton.mp hw]
      exact .refl
    · obtain ⟨p', s', hp⟩ := List.append_of_mem hv
      have hlt : p'.length < n := by rw [← hn, hp]; simp
      have hl' : l = p' ++ v :: (s' ++ w :: s) := by rw [hl, hp]; simp
      have hvl : v ∈ l := by rw [hl']; simp
      exact (ih _ hlt hvl p' _ hl' rfl).tail hw

theorem explore_complete {fuel : ℕ} {start : α} {l : List α}
    (h : explore children fuel [start] = some l) {w : α} (hw : Descends children start w) :
    w ∈ l := by
  obtain ⟨hin, hcl⟩ := explore_closed h
  induction hw with
  | refl => exact hin start (by simp)
  | tail _ hc ih => exact hcl _ ih _ hc

/-- A terminating exploration visits exactly the descendants of its start. -/
theorem mem_explore {fuel : ℕ} {start : α} {l : List α}
    (h : explore children fuel [start] = some l) {w : α} :
    w ∈ l ↔ Descends children start w :=
  ⟨explore_sound h, explore_complete h⟩

/-! ## Termination on a forest -/

/-- The part of a child relation an exploration from `start` meets is a tree. -/
structure TreeBelow (children : α → List α) (start : α) : Prop where
  nodup : ∀ v, (children v).Nodup
  parent : ∀ {v w c}, c ∈ children v → c ∈ children w → v = w
  root : ∀ v, Descends children start v → start ∉ children v

/-- What holds between two rounds: visited and pending vertices are distinct, and
each of them is the start or the child of a visited one. -/
structure Frontier (children : α → List α) (start : α) (done stack : List α) : Prop where
  nodup : (done ++ stack).Nodup
  origin : ∀ w ∈ done ++ stack, w = start ∨ ∃ v ∈ done, w ∈ children v
  below : ∀ w ∈ done ++ stack, Descends children start w

theorem Frontier.init (start : α) : Frontier children start [] [start] where
  nodup := by simp
  origin := by simp
  below := by
    intro w hw
    rw [List.mem_singleton.mp hw]
    exact .refl

theorem Frontier.visit {start v : α} {done stack : List α} (ht : TreeBelow children start)
    (h : Frontier children start done (v :: stack)) :
    Frontier children start (done ++ [v]) ((children v).reverse ++ stack) := by
  have hv : Descends children start v := h.below v (by simp)
  have hfresh : ∀ c ∈ children v, c ∉ done ++ v :: stack := by
    intro c hc hmem
    rcases h.origin c hmem with rfl | ⟨u, hu, hcu⟩
    · exact ht.root v hv hc
    · have huv := ht.parent hcu hc
      subst huv
      have hnd := h.nodup
      rw [List.nodup_append] at hnd
      exact hnd.2.2 u hu u (by simp) rfl
  have hperm : (done ++ [v] ++ ((children v).reverse ++ stack)).Perm
      ((children v).reverse ++ (done ++ v :: stack)) := by
    rw [List.append_assoc, List.singleton_append, ← List.append_assoc (children v).reverse]
    refine List.perm_middle.trans ?_
    refine ((List.perm_append_comm_assoc _ _ _).cons v).trans ?_
    rw [← List.append_assoc]
    exact List.perm_middle.symm
  have hmem : ∀ w, w ∈ done ++ [v] ++ ((children v).reverse ++ stack) ↔
      w ∈ children v ∨ w ∈ done ++ v :: stack := by
    intro w
    rw [hperm.mem_iff, List.mem_append, List.mem_reverse]
  refine ⟨?_, ?_, ?_⟩
  · rw [hperm.nodup_iff, List.nodup_append]
    refine ⟨List.nodup_reverse.mpr (ht.nodup v), h.nodup, ?_⟩
    rintro a ha b hb rfl
    exact hfresh a (List.mem_reverse.mp ha) hb
  · intro w hw
    rcases (hmem w).mp hw with hc | hw
    · exact Or.inr ⟨v, by simp, hc⟩
    · rcases h.origin w hw with rfl | ⟨u, hu, hwu⟩
      · exact Or.inl rfl
      · exact Or.inr ⟨u, by simp [hu], hwu⟩
  · intro w hw
    rcases (hmem w).mp hw with hc | hw
    · exact hv.tail hc
    · exact h.below w hw

theorem Frontier.explore [DecidableEq α] {start : α} (ht : TreeBelow children start)
    {V : Finset α} (hV : ∀ w, Descends children start w → w ∈ V) {fuel : ℕ}
    {done stack : List α} (h : Frontier children start done stack)
    (hf : V.card ≤ done.length + fuel) :
    ∃ l, explore children fuel stack = some l ∧ (done ++ l).Nodup := by
  induction fuel generalizing done stack with
  | zero =>
    have hcard : (done ++ stack).length ≤ V.card := by
      rw [← List.toFinset_card_of_nodup h.nodup]
      apply Finset.card_le_card
      intro w hw
      exact hV w (h.below w (List.mem_toFinset.mp hw))
    rw [List.length_append] at hcard
    have hnil : stack = [] := List.eq_nil_of_length_eq_zero (by omega)
    subst hnil
    exact ⟨[], by simp, h.nodup⟩
  | succ m ih => cases stack with
    | nil => exact ⟨[], by simp, h.nodup⟩
    | cons v stack =>
      obtain ⟨l, hl, hnd⟩ := ih (h.visit ht) (by simp; omega)
      exact ⟨v :: l, by simp [Switchboard.explore, hl], by simpa using hnd⟩

/-- On a forest the exploration stops and visits no vertex twice. -/
theorem explore_terminates [DecidableEq α] {start : α} (ht : TreeBelow children start)
    {V : Finset α} (hV : ∀ w, Descends children start w → w ∈ V) {fuel : ℕ}
    (hf : V.card ≤ fuel) :
    ∃ l, explore children fuel [start] = some l ∧ l.Nodup := by
  simpa using (Frontier.init start).explore ht hV (by simpa using hf)

end Switchboard
