import Mathlib.Tactic

/-!
# Computations that may fail

Inversion of a successful bind, the invariant rules for two kinds of loop
whose rounds may fail (one gives up its state on failure, the other changes a
state in place and leaves what it did before it failed), and the steps whose
value does not depend on the state they carry.
-/

namespace Switchboard

universe u v

variable {ε : Type u} {α β : Type v}

instance decidableEqExcept [DecidableEq ε] [DecidableEq α] : DecidableEq (Except ε α)
  | .ok a, .ok b => decidable_of_iff (a = b) ⟨congrArg _, Except.ok.inj⟩
  | .error a, .error b => decidable_of_iff (a = b) ⟨congrArg _, Except.error.inj⟩
  | .ok _, .error _ => isFalse nofun
  | .error _, .ok _ => isFalse nofun

theorem bind_eq_ok {x : Except ε α} {f : α → Except ε β} {b : β} :
    x >>= f = .ok b ↔ ∃ a, x = .ok a ∧ f a = .ok b := by
  constructor
  · intro h
    cases x with
    | error e => cases h
    | ok a => exact ⟨a, rfl, h⟩
  · rintro ⟨a, rfl, hf⟩
    exact hf

/-- A guard that throws is passed exactly when its condition is false. -/
theorem guard_eq_ok {c : Prop} [Decidable c] {e : ε} {k : α → Except ε β} {x : Except ε β}
    {b : β} : (if c then (throw e : Except ε α) >>= k else x) = .ok b ↔ ¬ c ∧ x = .ok b := by
  by_cases hc : c
  · simp [hc, throw, throwThe, MonadExceptOf.throw, bind, Except.bind]
  · simp [hc]

/-- What holds before the loop and is kept by each round that succeeds holds
after a loop that succeeds; the invariant may speak of the items done so far. -/
theorem foldlM_ok_invariant {γ : Type*} {f : β → γ → Except ε β} {P : List γ → β → Prop}
    (hstep : ∀ done c s t, P done s → f s c = .ok t → P (done ++ [c]) t)
    {l : List γ} {s t : β} (h0 : P [] s) (h : l.foldlM f s = .ok t) : P l t := by
  have general : ∀ (l done : List γ) (s : β), P done s → l.foldlM f s = .ok t →
      P (done ++ l) t := by
    intro l
    induction l with
    | nil =>
      intro done s hs hl
      cases hl
      rwa [List.append_nil]
    | cons c l ih =>
      intro done s hs hl
      rw [List.foldlM_cons] at hl
      obtain ⟨s', hc, hl⟩ := bind_eq_ok.mp hl
      rw [List.append_cons]
      exact ih _ _ (hstep done c s s' hs hc) hl
  exact general l [] s h0 h

/-- A loop whose rounds all succeed, whatever the state, succeeds. -/
theorem foldlM_returns {γ : Type*} {f : β → γ → Except ε β} {l : List γ}
    (hstep : ∀ s c, c ∈ l → ∃ t, f s c = .ok t) (s : β) : ∃ t, l.foldlM f s = .ok t := by
  induction l generalizing s with
  | nil => exact ⟨s, rfl⟩
  | cons c l ih =>
    obtain ⟨s', hs'⟩ := hstep s c List.mem_cons_self
    obtain ⟨t, ht⟩ := ih (fun u d hd => hstep u d (List.mem_cons_of_mem _ hd)) s'
    refine ⟨t, ?_⟩
    rw [List.foldlM_cons]
    exact bind_eq_ok.mpr ⟨s', hs', ht⟩

/-- A loop each of whose rounds succeeds or not whatever the state succeeds exactly where all
of them do. -/
theorem foldlM_returns_iff {γ : Type*} {f : β → γ → Except ε β} {Passes : γ → Prop}
    (hstep : ∀ s c, (∃ t, f s c = .ok t) ↔ Passes c) (l : List γ) (s : β) :
    (∃ t, l.foldlM f s = .ok t) ↔ ∀ c ∈ l, Passes c := by
  induction l generalizing s with
  | nil => simp [pure, Except.pure]
  | cons c l ih =>
    rw [List.forall_mem_cons, ← hstep s c]
    simp only [List.foldlM_cons, bind_eq_ok]
    constructor
    · rintro ⟨last, next, hnext, hlast⟩
      exact ⟨⟨next, hnext⟩, (ih next).mp ⟨last, hlast⟩⟩
    · rintro ⟨⟨next, hnext⟩, hl⟩
      obtain ⟨last, hlast⟩ := (ih next).mpr hl
      exact ⟨last, next, hnext, hlast⟩

/-- A loop whose rounds succeed as long as the invariant holds succeeds; the
invariant may speak of the items done so far. -/
theorem foldlM_builds {γ : Type*} {f : β → γ → Except ε β} {P : List γ → β → Prop} {l : List γ}
    (hstep : ∀ done c s, done ++ [c] <+: l → P done s → ∃ t, f s c = .ok t ∧ P (done ++ [c]) t)
    {s : β} (h0 : P [] s) : ∃ t, l.foldlM f s = .ok t ∧ P l t := by
  have general : ∀ (rest done : List γ) (s : β), done ++ rest = l → P done s →
      ∃ t, rest.foldlM f s = .ok t ∧ P l t := by
    intro rest
    induction rest with
    | nil =>
      intro done s hl hs
      rw [List.append_nil] at hl
      exact ⟨s, rfl, hl ▸ hs⟩
    | cons c rest ih =>
      intro done s hl hs
      rw [List.append_cons] at hl
      obtain ⟨s', hs', hP⟩ := hstep done c s ⟨rest, hl⟩ hs
      obtain ⟨t, ht, hPt⟩ := ih _ s' hl hP
      refine ⟨t, ?_, hPt⟩
      rw [List.foldlM_cons]
      exact bind_eq_ok.mpr ⟨s', hs', ht⟩
  exact general l [] s rfl h0

/-! ## What a computation may raise -/

/-- Every error of the computation satisfies `Q`. -/
def RaisesOnly (Q : ε → Prop) (x : Except ε α) : Prop := ∀ e, x = .error e → Q e

namespace RaisesOnly

variable {Q : ε → Prop}

theorem ok (a : α) : RaisesOnly Q (.ok a : Except ε α) := fun _ h => nomatch h

theorem error {e : ε} (he : Q e) : RaisesOnly Q (.error e : Except ε α) := by
  intro e' h
  cases h
  exact he

theorem bind {x : Except ε α} {f : α → Except ε β} (hx : RaisesOnly Q x)
    (hf : ∀ a, x = .ok a → RaisesOnly Q (f a)) : RaisesOnly Q (x >>= f) := by
  intro e h
  cases x with
  | error e' =>
    cases h
    exact hx e rfl
  | ok a => exact hf a rfl e h

/-- A guard that throws what `Q` allows. -/
theorem guard {c : Prop} [Decidable c] {e : ε} {k : α → Except ε β} {x : Except ε β} (he : Q e)
    (hx : ¬ c → RaisesOnly Q x) :
    RaisesOnly Q (if c then (throw e : Except ε α) >>= k else x) := by
  split_ifs with hc
  · exact error he
  · exact hx hc

theorem foldlM {γ : Type*} {f : β → γ → Except ε β} {l : List γ}
    (hf : ∀ s, ∀ c ∈ l, RaisesOnly Q (f s c)) (s : β) : RaisesOnly Q (l.foldlM f s) := by
  induction l generalizing s with
  | nil => exact ok s
  | cons c l ih =>
    rw [List.foldlM_cons]
    refine bind (hf s c List.mem_cons_self) fun t _ => ?_
    exact ih (fun s d hd => hf s d (List.mem_cons_of_mem _ hd)) t

theorem cases {x : Except ε α} (hx : RaisesOnly Q x) :
    (∃ e, x = .error e ∧ Q e) ∨ ∃ a, x = .ok a := by
  cases x with
  | error e => exact Or.inl ⟨e, rfl, hx e rfl⟩
  | ok a => exact Or.inr ⟨a, rfl⟩

end RaisesOnly

/-! ## Loops that change a state in place -/

variable {σ γ : Type*}

/-- A loop over a list whose rounds change a state and may raise. A raise ends
the loop; the changes made until then stay. -/
def raisingLoop (f : σ → γ → Except ε Unit × σ) : List γ → σ → Except ε Unit × σ
  | [], s => (.ok (), s)
  | c :: l, s => match f s c with
    | (.ok _, t) => raisingLoop f l t
    | (.error e, t) => (.error e, t)

variable {f : σ → γ → Except ε Unit × σ}

/-- What every round keeps, whether it raises or not, the loop keeps. -/
theorem raisingLoop_preserves {P : σ → Prop} {l : List γ}
    (hstep : ∀ c ∈ l, ∀ s, P s → P (f s c).2) {s : σ} (hs : P s) : P (raisingLoop f l s).2 := by
  induction l generalizing s with
  | nil => exact hs
  | cons c l ih =>
    have hc : P (f s c).2 := hstep c List.mem_cons_self s hs
    rw [raisingLoop]
    split
    · next t hf =>
      rw [hf] at hc
      exact ih (fun d hd => hstep d (List.mem_cons_of_mem _ hd)) hc
    · next hf =>
      rw [hf] at hc
      exact hc

/-- If each round either goes on, with an invariant that may speak of the items
done so far, or raises with `Q`, then so does the loop. -/
theorem raisingLoop_cases {P : List γ → σ → Prop} {Q : γ → σ → Prop} {l : List γ}
    (hstep : ∀ done c s, done ++ [c] <+: l → P done s →
      (∃ t, f s c = (.ok (), t) ∧ P (done ++ [c]) t) ∨ ∃ e t, f s c = (.error e, t) ∧ Q c t)
    {s : σ} (hs : P [] s) :
    (∃ t, raisingLoop f l s = (.ok (), t) ∧ P l t) ∨
      ∃ c ∈ l, ∃ e t, raisingLoop f l s = (.error e, t) ∧ Q c t := by
  have general : ∀ (rest done : List γ) (s : σ), done ++ rest = l → P done s →
      (∃ t, raisingLoop f rest s = (.ok (), t) ∧ P l t) ∨
        ∃ c ∈ rest, ∃ e t, raisingLoop f rest s = (.error e, t) ∧ Q c t := by
    intro rest
    induction rest with
    | nil =>
      intro done s hl hs
      rw [List.append_nil] at hl
      exact Or.inl ⟨s, rfl, hl ▸ hs⟩
    | cons c rest ih =>
      intro done s hl hs
      rw [List.append_cons] at hl
      rcases hstep done c s ⟨rest, hl⟩ hs with ⟨t, hf, ht⟩ | ⟨e, t, hf, ht⟩
      · rw [raisingLoop, hf]
        refine (ih _ t hl ht).imp_right ?_
        rintro ⟨d, hd, h⟩
        exact ⟨d, List.mem_cons_of_mem _ hd, h⟩
      · refine Or.inr ⟨c, List.mem_cons_self, e, t, ?_, ht⟩
        rw [raisingLoop, hf]
  exact general l [] s rfl hs

/-- A loop none of whose rounds raises returns. -/
theorem raisingLoop_returns {P : List γ → σ → Prop} {l : List γ}
    (hstep : ∀ done c s, done ++ [c] <+: l → P done s →
      ∃ t, f s c = (.ok (), t) ∧ P (done ++ [c]) t)
    {s : σ} (hs : P [] s) : ∃ t, raisingLoop f l s = (.ok (), t) ∧ P l t := by
  rcases raisingLoop_cases (Q := fun _ _ => False)
    (fun done c s hc hd => Or.inl (hstep done c s hc hd)) hs with
    h | ⟨_, _, _, _, _, h⟩
  · exact h
  · exact h.elim

/-! ## Steps that carry a state -/

section Steady

variable {σ γ δ : Type v}

/-- The value does not depend on the state, where the step succeeds. -/
def Steady (step : σ → Except ε (γ × σ)) : Prop :=
  ∀ ⦃s t s' t' a b⦄, step s = .ok (a, s') → step t = .ok (b, t') → a = b

theorem Steady.value (a : γ) : Steady (ε := ε) fun s : σ => .ok (a, s) := by
  intro s t s' t' b c h h'
  cases h
  cases h'
  rfl

theorem Steady.raises (e : ε) : Steady fun _ : σ => (.error e : Except ε (γ × σ)) := by
  intro s t s' t' a b h
  cases h

theorem Steady.stored {f : σ → Except ε σ} (a : γ) : Steady fun s => (f s).map (a, ·) := by
  intro s t s' t' b c h h'
  dsimp only at h h'
  cases hs : f s with
  | error e =>
    rw [hs] at h
    cases h
  | ok u =>
    cases ht : f t with
    | error e =>
      rw [ht] at h'
      cases h'
    | ok v =>
      rw [hs] at h
      rw [ht] at h'
      cases h
      cases h'
      rfl

theorem Steady.bind {f : σ → Except ε (γ × σ)} {g : γ × σ → Except ε (δ × σ)} (hf : Steady f)
    (hg : ∀ a, Steady fun s => g (a, s)) : Steady fun s => f s >>= g := by
  intro s t s' t' a b h h'
  obtain ⟨⟨c, u⟩, hc, h⟩ := bind_eq_ok.mp h
  obtain ⟨⟨d, v⟩, hd, h'⟩ := bind_eq_ok.mp h'
  cases hf hc hd
  exact hg c h h'

theorem Steady.after {x : Except ε γ} {g : γ → σ → Except ε (δ × σ)} (hg : ∀ a, Steady (g a)) :
    Steady fun s => x >>= fun a => g a s := by
  intro s t s' t' a b h h'
  obtain ⟨c, hc, h⟩ := bind_eq_ok.mp h
  obtain ⟨d, hd, h'⟩ := bind_eq_ok.mp h'
  cases hc.symm.trans hd
  exact hg c h h'

end Steady

end Switchboard
