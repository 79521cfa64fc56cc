import Mathlib.Tactic

/-!
# Machines whose output a monitor watches

A monitor reads events one at a time and fails at the first one that it does not allow. A machine
reads inputs, keeps what it has sent in its state, and may fail. The rules lift what one input does
to what a run does.
-/

namespace Switchboard.Monitor

variable {α ι ε σ ν φ : Type*}

/-- The monitor reads events from a state on. -/
def watch (monitor : σ → ε → Except ν σ) (s : σ) (events : List ε) : Except ν σ :=
  events.foldlM monitor s

section Watch

variable {monitor : σ → ε → Except ν σ}

@[simp] theorem watch_nil (s : σ) : watch monitor s [] = .ok s := rfl

@[simp] theorem watch_cons (s : σ) (event : ε) (events : List ε) :
    watch monitor s (event :: events) =
      (monitor s event).bind fun s' => watch monitor s' events := rfl

/-- Events are allowed together if the later ones are allowed after the earlier ones. -/
theorem watch_append_ok {s s' : σ} {events later : List ε} :
    watch monitor s (events ++ later) = .ok s' ↔
      ∃ t, watch monitor s events = .ok t ∧ watch monitor t later = .ok s' := by
  induction events generalizing s with
  | nil => simp
  | cons event events ih =>
    rw [List.cons_append, watch_cons, watch_cons]
    cases monitor s event with
    | error v => simp [Except.bind]
    | ok t => exact ih

theorem watch_concat_ok {s s' : σ} {events : List ε} {event : ε} :
    watch monitor s (events ++ [event]) = .ok s' ↔
      ∃ t, watch monitor s events = .ok t ∧ monitor t event = .ok s' := by
  rw [watch_append_ok]
  refine exists_congr fun t => and_congr_right fun _ => ?_
  rw [watch_cons]
  cases monitor t event <;> simp [Except.bind]

end Watch

section Run

variable {machine : α → ι → Except φ α}

/-- The machine reads inputs from a state on. -/
def feedAll (machine : α → ι → Except φ α) (a : α) (inputs : List ι) : Except φ α :=
  inputs.foldlM machine a

/-- A condition on every input and the state that meets it, up to a failure. -/
def Along (machine : α → ι → Except φ α) (P : α → ι → Prop) : α → List ι → Prop
  | _, [] => True
  | a, i :: is => P a i ∧ ∀ a', machine a i = .ok a' → Along machine P a' is

theorem feedAll_cons_ok {a a' : α} {i : ι} {is : List ι} :
    feedAll machine a (i :: is) = .ok a' ↔
      ∃ b, machine a i = .ok b ∧ feedAll machine b is = .ok a' := by
  change (machine a i).bind (fun b => feedAll machine b is) = .ok a' ↔ _
  cases machine a i <;> simp [Except.bind]

variable {P : α → ι → Prop} {I Q : α → Prop}

/-- What each input keeps is kept by a run whose inputs all meet the condition. -/
theorem run_keeps (hstep : ∀ a i a', P a i → machine a i = .ok a' → I a → I a') {a a' : α}
    {is : List ι} (hall : Along machine P a is) (hrun : feedAll machine a is = .ok a')
    (ha : I a) : I a' := by
  induction is generalizing a with
  | nil =>
    cases hrun
    exact ha
  | cons i is ih =>
    obtain ⟨b, hi, hrest⟩ := feedAll_cons_ok.mp hrun
    exact ih (hall.2 b hi) hrest (hstep a i b hall.1 hi ha)

theorem along_true (a : α) (is : List ι) : Along machine (fun _ _ => True) a is := by
  induction is generalizing a with
  | nil => trivial
  | cons i is ih => exact ⟨trivial, fun b _ => ih b⟩

/-- What every input keeps is kept by every run. -/
theorem run_keeps_always (hstep : ∀ a i a', machine a i = .ok a' → I a → I a') {a a' : α}
    {is : List ι} (hrun : feedAll machine a is = .ok a') (ha : I a) : I a' :=
  run_keeps (P := fun _ _ => True) (fun a i a' _ => hstep a i a') (along_true a is) hrun ha

/-- A property that an input breaks for good just where it does not meet the condition holds
after a run just when all inputs meet it. -/
theorem run_iff (hstep : ∀ a i a', P a i → machine a i = .ok a' → I a → I a')
    (hfail : ∀ a i a', ¬ P a i → machine a i = .ok a' → I a → ¬ Q a')
    (hlost : ∀ a i a', machine a i = .ok a' → ¬ Q a → ¬ Q a') (hkept : ∀ a, I a → Q a)
    {a a' : α} {is : List ι} (hrun : feedAll machine a is = .ok a') (ha : I a) :
    Q a' ↔ Along machine P a is := by
  constructor
  · intro hQ
    induction is generalizing a with
    | nil => trivial
    | cons i is ih =>
      obtain ⟨b, hi, hrest⟩ := feedAll_cons_ok.mp hrun
      have hP : P a i := by
        by_contra hnot
        exact run_keeps_always hlost hrest (hfail a i b hnot hi ha) hQ
      refine ⟨hP, fun b' hi' => ?_⟩
      rw [hi] at hi'
      cases hi'
      exact ih hrest (hstep a i b hP hi ha)
  · exact fun hall => hkept a' (run_keeps hstep hall hrun ha)

end Run

end Switchboard.Monitor
