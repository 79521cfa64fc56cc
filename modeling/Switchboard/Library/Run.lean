import Mathlib.Logic.Relation
import Mathlib.Tactic

/-!
# Runs of a labelled transition system

A system has initial states and labelled steps. `Reach` collects the states met
by finite runs all of whose steps satisfy a side condition on the state before
the step and its label; the unconditional case is `Reachable`. Each induction
over runs is packaged once, so that a safety proof consists of an initial case
and a step case.
-/

namespace Switchboard

universe u v

/-- Initial states and labelled steps. -/
structure System (σ : Type u) (ι : Type v) where
  init : σ → Prop
  step : σ → ι → σ → Prop

namespace System

variable {σ : Type u} {ι : Type v} (S : System σ ι)

/-- States met by runs whose steps all satisfy `C`. -/
inductive Reach (C : σ → ι → Prop) : σ → Prop
  | start {s} : S.init s → Reach C s
  | next {s l t} : Reach C s → C s l → S.step s l t → Reach C t

/-- States met by arbitrary runs. -/
def Reachable : σ → Prop := S.Reach fun _ _ => True

variable {S}

theorem Reach.mono {C D : σ → ι → Prop} (h : ∀ s l, C s l → D s l) {s : σ}
    (hs : S.Reach C s) : S.Reach D s := by
  induction hs with
  | start h0 => exact .start h0
  | next _ hc hstep ih => exact .next ih (h _ _ hc) hstep

theorem Reach.reachable {C : σ → ι → Prop} {s : σ} (hs : S.Reach C s) : S.Reachable s :=
  hs.mono fun _ _ _ => trivial

theorem Reachable.start {s : σ} (h : S.init s) : S.Reachable s := Reach.start h

theorem Reachable.next {s t : σ} {l : ι} (hs : S.Reachable s) (h : S.step s l t) :
    S.Reachable t :=
  Reach.next hs trivial h

/-- The invariant rule for conditional runs. The step case may use that the
state before the step was itself reached. -/
theorem Reach.invariant {C : σ → ι → Prop} {P : σ → Prop}
    (h0 : ∀ s, S.init s → P s)
    (hstep : ∀ s l t, S.Reach C s → P s → C s l → S.step s l t → P t)
    {s : σ} (hs : S.Reach C s) : P s := by
  induction hs with
  | start h => exact h0 _ h
  | next hr hc hst ih => exact hstep _ _ _ hr ih hc hst

/-- The invariant rule for arbitrary runs. -/
theorem Reachable.invariant {P : σ → Prop}
    (h0 : ∀ s, S.init s → P s)
    (hstep : ∀ s l t, S.Reachable s → P s → S.step s l t → P t)
    {s : σ} (hs : S.Reachable s) : P s :=
  Reach.invariant h0 (fun s l t hr hp _ hst => hstep s l t hr hp hst) hs

/-- A finite run, with the labels taken, oldest first. -/
inductive Run : σ → List ι → σ → Prop
  | nil (s) : Run s [] s
  | cons {s l t ls u} : S.step s l t → Run t ls u → Run s (l :: ls) u

theorem Run.append {s t u : σ} {ls ms : List ι} (h : S.Run s ls t) (k : S.Run t ms u) :
    S.Run s (ls ++ ms) u := by
  induction h with
  | nil => exact k
  | cons hst _ ih => exact .cons hst (ih k)

theorem Run.reachable {s t : σ} {ls : List ι} (hs : S.Reachable s) (h : S.Run s ls t) :
    S.Reachable t := by
  induction h with
  | nil => exact hs
  | cons hst _ ih => exact ih (hs.next hst)

/-- The state after a script of partial steps, if none of them is refused. -/
def replay {κ : Type*} (act : σ → κ → Option σ) : σ → List κ → Option σ
  | s, [] => some s
  | s, l :: script => (act s l).bind fun t => replay act t script

theorem replay_append_singleton {κ : Type*} (act : σ → κ → Option σ) (s : σ) (script : List κ)
    (l : κ) : replay act s (script ++ [l]) = (replay act s script).bind fun t => act t l := by
  induction script generalizing s with
  | nil => simp [replay]
  | cons a script ih =>
    simp only [List.cons_append, replay, Option.bind_assoc]
    congr 1
    funext t
    exact ih t

/-- A script of steps that all satisfy `C` leads to a state of a conditional run. -/
theorem Reach.replay {κ : Type*} {C : σ → ι → Prop} {act : σ → κ → Option σ} {script : List κ}
    {s t : σ} (hact : ∀ s a t, act s a = some t → ∃ l, C s l ∧ S.step s l t)
    (hs : S.Reach C s) (ht : replay act s script = some t) : S.Reach C t := by
  induction script generalizing s with
  | nil =>
    cases ht
    exact hs
  | cons l script ih =>
    obtain ⟨u, hu, ht⟩ := Option.bind_eq_some_iff.mp ht
    obtain ⟨l, hc, hl⟩ := hact s l u hu
    exact ih (hs.next hc hl) ht

theorem Reachable.replay {κ : Type*} {act : σ → κ → Option σ} {script : List κ} {s t : σ}
    (hact : ∀ s a t, act s a = some t → ∃ l, S.step s l t) (hs : S.Reachable s)
    (ht : replay act s script = some t) : S.Reachable t :=
  Reach.replay (fun s a t h => (hact s a t h).imp fun _ hl => ⟨trivial, hl⟩) hs ht

/-- A script of partial steps that is accepted is a run. -/
theorem Run.replay {κ : Type*} {act : σ → κ → Option σ} {label : κ → ι}
    (hact : ∀ s a t, act s a = some t → S.step s (label a) t) (script : List κ) {s t : σ}
    (ht : replay act s script = some t) : S.Run s (script.map label) t := by
  induction script generalizing s with
  | nil =>
    cases ht
    exact .nil _
  | cons a script ih =>
    obtain ⟨u, hu, ht⟩ := Option.bind_eq_some_iff.mp ht
    exact .cons (hact s a u hu) (ih ht)

/-- Where every label leads to one state, a list of labels is a run. -/
theorem Reachable.foldl {f : σ → ι → σ} (hf : ∀ s l, S.step s l (f s l)) (ls : List ι) {s : σ}
    (hs : S.Reachable s) : S.Reachable (ls.foldl f s) := by
  induction ls generalizing s with
  | nil => exact hs
  | cons l ls ih => exact ih (hs.next (hf s l))

/-- A run without an end. -/
def Endless (S : System σ ι) (states : ℕ → σ) (labels : ℕ → ι) : Prop :=
  ∀ n, S.step (states n) (labels n) (states (n + 1))

theorem Endless.reachable {states : ℕ → σ} {labels : ℕ → ι} (h : S.Endless states labels)
    (h0 : S.Reachable (states 0)) (n : ℕ) : S.Reachable (states n) := by
  induction n with
  | zero => exact h0
  | succ n ih => exact ih.next (h n)

/-- A bound that no step raises before `P`, and that falls again and again, leads to `P`. -/
theorem eventually_of_rank {states : ℕ → σ} {P : σ → Prop} (rank : σ → ℕ)
    (hle : ∀ n, ¬ P (states n) → ¬ P (states (n + 1)) → rank (states (n + 1)) ≤ rank (states n))
    (hlt : ∀ n, ¬ P (states n) →
      ∃ m, n ≤ m ∧ (P (states (m + 1)) ∨ rank (states (m + 1)) < rank (states m))) (n : ℕ) :
    ∃ m, n ≤ m ∧ P (states m) := by
  by_contra hnever
  push Not at hnever
  have hmono : ∀ m, n ≤ m → ∀ k, rank (states (m + k)) ≤ rank (states m) := by
    intro m hm k
    induction k with
    | zero => exact le_rfl
    | succ k ih =>
      have hbefore : n ≤ m + k := hm.trans (Nat.le_add_right m k)
      exact (hle _ (hnever _ hbefore) (hnever _ (hbefore.trans (Nat.le_succ _)))).trans ih
  -- the bound falls below every value it has
  have hfalls : ∀ r m, n ≤ m → rank (states m) = r → False := by
    intro r
    induction r using Nat.strong_induction_on with
    | _ r ih =>
      intro m hm hr
      obtain ⟨l, hl, hP | hlower⟩ := hlt m (hnever m hm)
      · exact hnever _ (hm.trans (hl.trans (Nat.le_succ l))) hP
      · have hsame := hmono m hm (l - m)
        rw [Nat.add_sub_cancel' hl, hr] at hsame
        exact ih _ (hlower.trans_le hsame) (l + 1) (hm.trans (hl.trans (Nat.le_succ l))) rfl
  exact hfalls _ n le_rfl rfl

/-- What one step preserves, a whole run preserves. -/
theorem Run.preserves {P : σ → Prop} (hstep : ∀ s l t, P s → S.step s l t → P t)
    {s t : σ} {ls : List ι} (h : S.Run s ls t) (hs : P s) : P t := by
  induction h with
  | nil => exact hs
  | cons hst _ ih => exact ih (hstep _ _ _ hs hst)

end System

end Switchboard
