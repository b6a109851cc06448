import Mathlib.Init

/-!
# Fallible programs over a state

A program reads and changes a state, and returns a value or fails with an error. A
failure keeps the state as it was left, because what a program did to the world before
it failed has been done. Contracts say what holds of the state after a program, one way
or the other, and compose along sequencing.
-/

universe u

/-- A program over a state `σ` that returns an `α` or fails with an `ε`. -/
def Fallible (ε σ : Type*) (α : Type u) := σ → Except ε α × σ

namespace Fallible

variable {ε σ : Type*} {α β : Type u}

/-- Run a program from a state. -/
def run (m : Fallible ε σ α) (s : σ) : Except ε α × σ := m s

instance : Monad (Fallible ε σ) where
  pure a := fun s => (.ok a, s)
  bind m f := fun s =>
    match m s with
    | (.ok a, s') => f a s'
    | (.error e, s') => (.error e, s')

/-- Fail. -/
def fail (e : ε) : Fallible ε σ α := fun s => (.error e, s)

/-- The state. -/
def state {σ : Type u} : Fallible ε σ σ := fun s => (.ok s, s)

/-- Change the state. -/
def change (f : σ → σ) : Fallible ε σ PUnit := fun s => (.ok (), f s)

/-- The value of an option, or a failure. -/
def ofOption (e : ε) : Option α → Fallible ε σ α
  | some a => pure a
  | none => fail e

/-- What became of a program, as a value. -/
def attempt (m : Fallible ε σ α) : Fallible ε σ (Except ε α) := fun s =>
  (.ok (m s).1, (m s).2)

/-- The same program, failing with `e` whenever it fails. -/
def failWith (e : ε) (m : Fallible ε σ α) : Fallible ε σ α := fun s =>
  match m s with
  | (.ok a, s') => (.ok a, s')
  | (.error _, s') => (.error e, s')

/-- A program over a part of a larger state. -/
def within {τ : Type*} (part : τ → σ) (put : τ → σ → τ) (m : Fallible ε σ α) :
    Fallible ε τ α := fun t =>
  ((m (part t)).1, put t (m (part t)).2)

@[simp] theorem run_attempt (m : Fallible ε σ α) (s : σ) :
    (attempt m).run s = (.ok (m.run s).1, (m.run s).2) := rfl

@[simp] theorem run_within {τ : Type*} (part : τ → σ) (put : τ → σ → τ) (m : Fallible ε σ α)
    (t : τ) : (within part put m).run t = ((m.run (part t)).1, put t (m.run (part t)).2) := rfl

@[simp] theorem run_pure (a : α) (s : σ) : (pure a : Fallible ε σ α).run s = (.ok a, s) := rfl

@[simp] theorem run_fail (e : ε) (s : σ) : (fail e : Fallible ε σ α).run s = (.error e, s) := rfl

@[simp] theorem run_state {σ : Type u} (s : σ) : (state : Fallible ε σ σ).run s = (.ok s, s) := rfl

@[simp] theorem run_change (f : σ → σ) (s : σ) :
    (change f : Fallible ε σ PUnit).run s = (.ok (), f s) := rfl

@[simp] theorem ofOption_some (e : ε) (a : α) :
    (ofOption e (some a) : Fallible ε σ α) = pure a := rfl

@[simp] theorem ofOption_none (e : ε) : (ofOption e none : Fallible ε σ α) = fail e := rfl

/-- A sequence runs its second part from where the first returned. -/
theorem run_bind (m : Fallible ε σ α) (f : α → Fallible ε σ β) (s : σ) :
    (m >>= f).run s =
      match m.run s with
      | (.ok a, s') => (f a).run s'
      | (.error e, s') => (.error e, s') := rfl

theorem run_bind_ok {m : Fallible ε σ α} {f : α → Fallible ε σ β} {s s' : σ} {a : α}
    (h : m.run s = (.ok a, s')) : (m >>= f).run s = (f a).run s' := by
  rw [run_bind, h]

theorem run_bind_error {m : Fallible ε σ α} {f : α → Fallible ε σ β} {s s' : σ} {e : ε}
    (h : m.run s = (.error e, s')) : (m >>= f).run s = (.error e, s') := by
  rw [run_bind, h]

/-- What a program returned, with where it left the state. -/
theorem run_eq_of_fst {m : Fallible ε σ α} {s : σ} {r : Except ε α} (h : (m.run s).1 = r) :
    m.run s = (r, (m.run s).2) := by
  rw [← h]

/-- A sequence that returns is a first part that returns and a second part that does. -/
theorem bind_returns {m : Fallible ε σ α} {f : α → Fallible ε σ β} {s s' : σ} {b : β}
    (h : (m >>= f).run s = (.ok b, s')) :
    ∃ a s₁, m.run s = (.ok a, s₁) ∧ (f a).run s₁ = (.ok b, s') := by
  rw [run_bind] at h
  rcases hm : m.run s with ⟨e | a, s₁⟩ <;> rw [hm] at h
  · cases h
  · exact ⟨a, s₁, rfl, h⟩

/-- A run that returned ended in `Q`, and one that failed in `E`. -/
def Ends (r : Except ε α × σ) (Q : α → σ → Prop) (E : ε → σ → Prop) : Prop :=
  match r with
  | (.ok a, s) => Q a s
  | (.error e, s) => E e s

/-- The program keeps `P`, whether it returns or fails. -/
def Keeps (P : σ → Prop) (m : Fallible ε σ α) : Prop :=
  ∀ s, P s → P (m.run s).2

namespace Keeps

variable {P : σ → Prop}

protected theorem and {P' : σ → Prop} {m : Fallible ε σ α} (hm : Keeps P m)
    (hm' : Keeps P' m) : Keeps (fun s => P s ∧ P' s) m :=
  fun s hs => ⟨hm s hs.1, hm' s hs.2⟩

protected theorem pure (a : α) : Keeps P (pure a : Fallible ε σ α) := fun _ hs => hs

protected theorem fail (e : ε) : Keeps P (fail e : Fallible ε σ α) := fun _ hs => hs

protected theorem state {σ : Type u} {P : σ → Prop} : Keeps P (state : Fallible ε σ σ) :=
  fun _ hs => hs

protected theorem change {f : σ → σ} (hf : ∀ s, P s → P (f s)) :
    Keeps P (change f : Fallible ε σ PUnit) := fun s hs => hf s hs

protected theorem ofOption (e : ε) (o : Option α) : Keeps P (ofOption e o : Fallible ε σ α) := by
  cases o with
  | none => exact .fail e
  | some a => exact .pure a

protected theorem attempt {m : Fallible ε σ α} (hm : Keeps P m) : Keeps P (attempt m) := hm

protected theorem failWith {e : ε} {m : Fallible ε σ α} (hm : Keeps P m) :
    Keeps P (failWith e m) := by
  intro s hs
  have hend := hm s hs
  change P (failWith e m s).2
  unfold failWith
  rcases hrun : m s with ⟨e' | a, s'⟩ <;> rw [run, hrun] at hend <;> exact hend

/-- Sequencing keeps what both parts keep. -/
protected theorem bind {m : Fallible ε σ α} {f : α → Fallible ε σ β} (hm : Keeps P m)
    (hf : ∀ a, Keeps P (f a)) : Keeps P (m >>= f) := by
  intro s hs
  have hmid := hm s hs
  rw [run_bind]
  rcases hrun : m.run s with ⟨e | a, s'⟩ <;> rw [hrun] at hmid
  · exact hmid
  · exact hf a s' hmid

/-- A choice keeps what both branches keep. -/
protected theorem ite {c : Prop} [Decidable c] {m m' : Fallible ε σ α} (hm : c → Keeps P m)
    (hm' : ¬ c → Keeps P m') : Keeps P (if c then m else m') := by
  by_cases hc : c
  · rw [if_pos hc]
    exact hm hc
  · rw [if_neg hc]
    exact hm' hc

end Keeps

namespace Ends

variable {r : Except ε α × σ} {Q Q' : α → σ → Prop} {R : β → σ → Prop} {E E' : ε → σ → Prop}

@[simp] theorem ok {a : α} {s : σ} : Ends ((.ok a, s) : Except ε α × σ) Q E ↔ Q a s := Iff.rfl

@[simp] theorem error {e : ε} {s : σ} :
    Ends ((.error e, s) : Except ε α × σ) Q E ↔ E e s := Iff.rfl

/-- Weaker ends. -/
protected theorem mono (h : Ends r Q E) (hQ : ∀ a s, r = (.ok a, s) → Q a s → Q' a s)
    (hE : ∀ e s, r = (.error e, s) → E e s → E' e s) : Ends r Q' E' := by
  obtain ⟨e | a, s⟩ := r
  · exact hE e s rfl h
  · exact hQ a s rfl h

/-- What a program keeps holds at either end. -/
theorem of_keeps {m : Fallible ε σ α} {P : σ → Prop} {s : σ} (hm : Keeps P m) (hs : P s) :
    Ends (m.run s) (fun _ s' => P s') (fun _ s' => P s') := by
  have hend := hm s hs
  rcases hrun : m.run s with ⟨e | a, s'⟩ <;> rw [hrun] at hend <;> exact hend

/-- Either end has what the program keeps. -/
protected theorem and_keeps {m : Fallible ε σ α} {P : σ → Prop} {s : σ}
    (h : Ends (m.run s) Q E) (hm : Keeps P m) (hs : P s) :
    Ends (m.run s) (fun a s' => Q a s' ∧ P s') (fun e s' => E e s' ∧ P s') := by
  have hend := hm s hs
  rcases hrun : m.run s with ⟨e | a, s'⟩ <;> rw [hrun] at h hend
  · exact ⟨h, hend⟩
  · exact ⟨h, hend⟩

/-- The second part starts from where the first returned. -/
protected theorem bind {m : Fallible ε σ α} {f : α → Fallible ε σ β} {s : σ}
    (hm : Ends (m.run s) Q E)
    (hf : ∀ a s', m.run s = (.ok a, s') → Q a s' → Ends ((f a).run s') R E) :
    Ends ((m >>= f).run s) R E := by
  rw [run_bind]
  rcases hrun : m.run s with ⟨e | a, s'⟩ <;> rw [hrun] at hm
  · exact hm
  · exact hf a s' hrun hm

end Ends

end Fallible
