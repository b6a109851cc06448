import Mathlib.Data.List.Basic
import Mathlib.Data.List.Infix

/-!
# Reactive machines and partial processes

Two shapes of transition system, over arbitrary state, input and output types. A
`Machine` answers every input with a new state and a list of outputs; a `Process`
may refuse an input, which is how an environment is restricted. Both are driven by
finite lists of inputs, read from left to right, so a property of every step of
every run is a property of every input list.
-/

namespace Reactive

variable {σ ι ω γ : Type*}

/-- A deterministic machine that answers every input with its next state and the
outputs of that step, in order. -/
structure Machine (σ ι ω : Type*) where
  /-- The state before the first input. -/
  start : σ
  /-- The next state, and what the step puts out. -/
  step : σ → ι → σ × List ω

/-- The state a machine is in after a list of inputs. -/
def Machine.after (M : Machine σ ι ω) (inputs : List ι) : σ :=
  inputs.foldl (fun s i => (M.step s i).1) M.start

/-- A record kept beside a run. Each step shows the recorder the state it started
from, its input and its outputs. -/
def Machine.record (M : Machine σ ι ω) (note : γ → σ → ι → List ω → γ) (blank : γ)
    (inputs : List ι) : γ :=
  (inputs.foldl (fun (p : σ × γ) i =>
    ((M.step p.1 i).1, note p.2 p.1 i (M.step p.1 i).2)) (M.start, blank)).2

/-- Everything a run puts out, in order. -/
def Machine.emitted (M : Machine σ ι ω) (inputs : List ι) : List ω :=
  M.record (fun out _ _ new => out ++ new) [] inputs

@[simp] theorem Machine.after_nil (M : Machine σ ι ω) : M.after [] = M.start := rfl

/-- One more input takes one more step. -/
@[simp] theorem Machine.after_snoc (M : Machine σ ι ω) (inputs : List ι) (i : ι) :
    M.after (inputs ++ [i]) = (M.step (M.after inputs) i).1 := by
  simp [Machine.after, List.foldl_append]

private theorem Machine.record_state (M : Machine σ ι ω) (note : γ → σ → ι → List ω → γ)
    (blank : γ) (inputs : List ι) :
    (inputs.foldl (fun (p : σ × γ) i =>
      ((M.step p.1 i).1, note p.2 p.1 i (M.step p.1 i).2)) (M.start, blank)).1 =
      M.after inputs := by
  induction inputs using List.reverseRecOn with
  | nil => rfl
  | append_singleton inputs i ih => simp [List.foldl_append, ih]

@[simp] theorem Machine.record_nil (M : Machine σ ι ω) (note : γ → σ → ι → List ω → γ)
    (blank : γ) : M.record note blank [] = blank := rfl

/-- One more input adds one more note, about the state the run had reached. -/
@[simp] theorem Machine.record_snoc (M : Machine σ ι ω) (note : γ → σ → ι → List ω → γ)
    (blank : γ) (inputs : List ι) (i : ι) :
    M.record note blank (inputs ++ [i]) =
      note (M.record note blank inputs) (M.after inputs) i (M.step (M.after inputs) i).2 := by
  simp [Machine.record, List.foldl_append, Machine.record_state]

@[simp] theorem Machine.emitted_nil (M : Machine σ ι ω) : M.emitted [] = [] := rfl

/-- One more input puts out what its step puts out. -/
@[simp] theorem Machine.emitted_snoc (M : Machine σ ι ω) (inputs : List ι) (i : ι) :
    M.emitted (inputs ++ [i]) = M.emitted inputs ++ (M.step (M.after inputs) i).2 :=
  M.record_snoc _ _ inputs i

/-- A property of the start that every step keeps holds after every list of inputs. -/
theorem Machine.invariant {M : Machine σ ι ω} {Q : σ → Prop} (hstart : Q M.start)
    (hstep : ∀ s i, Q s → Q (M.step s i).1) (inputs : List ι) : Q (M.after inputs) := by
  induction inputs using List.reverseRecOn with
  | nil => exact hstart
  | append_singleton inputs i ih =>
    rw [Machine.after_snoc]
    exact hstep _ i ih

/-- The same for a property that relates the state to a record of the run. -/
theorem Machine.record_invariant {M : Machine σ ι ω} {note : γ → σ → ι → List ω → γ}
    {blank : γ} {Q : σ → γ → Prop} (hstart : Q M.start blank)
    (hstep : ∀ s g i, Q s g → Q (M.step s i).1 (note g s i (M.step s i).2))
    (inputs : List ι) : Q (M.after inputs) (M.record note blank inputs) := by
  induction inputs using List.reverseRecOn with
  | nil => exact hstart
  | append_singleton inputs i ih =>
    rw [Machine.after_snoc, Machine.record_snoc]
    exact hstep _ _ i ih

/-- A deterministic process that may refuse an input. -/
structure Process (σ ι : Type*) where
  /-- The state before the first input. -/
  start : σ
  /-- The next state, or `none` when the input cannot happen now. -/
  step : σ → ι → Option σ

/-- The state after a list of inputs, or `none` when one of them could not happen. -/
def Process.run (P : Process σ ι) (inputs : List ι) : Option σ :=
  inputs.foldlM P.step P.start

@[simp] theorem Process.run_nil (P : Process σ ι) : P.run [] = some P.start := rfl

/-- A run with one more input is a run that the last input can extend. -/
theorem Process.run_snoc {P : Process σ ι} {inputs : List ι} {i : ι} {s' : σ} :
    P.run (inputs ++ [i]) = some s' ↔ ∃ s, P.run inputs = some s ∧ P.step s i = some s' := by
  simp [Process.run, List.foldlM_append, Option.bind_eq_some_iff]

/-- The beginning of a run is a run. -/
theorem Process.run_of_begin {P : Process σ ι} {before inputs : List ι} {s : σ}
    (hbegin : before <+: inputs) (hrun : P.run inputs = some s) :
    ∃ s₀, P.run before = some s₀ := by
  obtain ⟨more, rfl⟩ := hbegin
  simp only [Process.run, List.foldlM_append, Option.bind_eq_bind, Option.bind_eq_some_iff] at hrun
  obtain ⟨s₀, hs₀, _⟩ := hrun
  exact ⟨s₀, hs₀⟩

/-- Every step of the run satisfies `C`, a condition on the state before the step and
on its input. -/
def Process.Along (P : Process σ ι) (C : σ → ι → Prop) (inputs : List ι) : Prop :=
  ∀ before i s, before ++ [i] <+: inputs → P.run before = some s → C s i

/-- Every state the run passes through satisfies `Q`, the first and the last included. -/
def Process.Throughout (P : Process σ ι) (Q : σ → Prop) (inputs : List ι) : Prop :=
  ∀ before s, before <+: inputs → P.run before = some s → Q s

/-- A condition along a run is a condition along its beginning. -/
theorem Process.Along.of_begin {P : Process σ ι} {C : σ → ι → Prop} {before inputs : List ι}
    (h : P.Along C inputs) (hbegin : before <+: inputs) : P.Along C before :=
  fun pre i s hpre hrun => h pre i s (hpre.trans hbegin) hrun

/-- The last step of a run satisfies the condition that holds along it. -/
theorem Process.Along.last {P : Process σ ι} {C : σ → ι → Prop} {inputs : List ι} {i : ι}
    {s : σ} (h : P.Along C (inputs ++ [i])) (hrun : P.run inputs = some s) : C s i :=
  h inputs i s (List.prefix_refl _) hrun

/-- The same condition, read from the front of the inputs and a state. -/
def Process.AlongFrom (P : Process σ ι) (C : σ → ι → Prop) : σ → List ι → Prop
  | _, [] => True
  | s, i :: inputs => C s i ∧ ∀ s', P.step s i = some s' → P.AlongFrom C s' inputs

/-- One more input at the front, with the step it takes. -/
theorem Process.AlongFrom.cons {P : Process σ ι} {C : σ → ι → Prop} {s s' : σ} {i : ι}
    {inputs : List ι} (h : C s i) (hstep : P.step s i = some s')
    (hrest : P.AlongFrom C s' inputs) : P.AlongFrom C s (i :: inputs) := by
  refine ⟨h, fun s'' hstep' => ?_⟩
  obtain rfl := Option.some.inj (hstep.symm.trans hstep')
  exact hrest

/-- A condition read from the front holds along the run. -/
theorem Process.AlongFrom.along {P : Process σ ι} {C : σ → ι → Prop} {inputs : List ι}
    (h : P.AlongFrom C P.start inputs) : P.Along C inputs := by
  intro before i s hbegin hrun
  rw [Process.run] at hrun
  generalize P.start = s₀ at h hrun
  induction inputs generalizing before s₀ with
  | nil => simp at hbegin
  | cons i₀ inputs ih =>
    cases before with
    | nil =>
      obtain ⟨rfl, _⟩ := List.cons_prefix_cons.mp hbegin
      obtain rfl : s₀ = s := by simpa using hrun
      exact h.1
    | cons i₁ before =>
      obtain ⟨rfl, hrest⟩ := List.cons_prefix_cons.mp hbegin
      simp only [List.foldlM_cons, Option.bind_eq_bind, Option.bind_eq_some_iff] at hrun
      obtain ⟨s₁, hstep, hrun⟩ := hrun
      exact ih before hrest s₁ (h.2 s₁ hstep) hrun

/-- A property of the start that every step meeting `C` keeps holds at the end of every
run whose steps all meet `C`. -/
theorem Process.invariant_along {P : Process σ ι} {C : σ → ι → Prop} {Q : σ → Prop}
    (hstart : Q P.start)
    (hstep : ∀ s i s', Q s → C s i → P.step s i = some s' → Q s')
    {inputs : List ι} {s : σ} (hrun : P.run inputs = some s) (hok : P.Along C inputs) :
    Q s := by
  induction inputs using List.reverseRecOn generalizing s with
  | nil =>
    have hs : P.start = s := by simpa using hrun
    exact hs ▸ hstart
  | append_singleton inputs i ih =>
    obtain ⟨s₀, hrun₀, hlast⟩ := Process.run_snoc.mp hrun
    exact hstep s₀ i s (ih hrun₀ (hok.of_begin (List.prefix_append _ _))) (hok.last hrun₀) hlast

/-- What the beginning of a run puts out is the beginning of what the run does. -/
theorem Machine.emitted_of_begin (M : Machine σ ι ω) {before inputs : List ι}
    (h : before <+: inputs) : M.emitted before <+: M.emitted inputs := by
  obtain ⟨more, rfl⟩ := h
  induction more using List.reverseRecOn with
  | nil => rw [List.append_nil]
  | append_singleton more i ih =>
    rw [← List.append_assoc, Machine.emitted_snoc]
    exact ih.trans (List.prefix_append _ _)

/-- A property of the start that every step keeps holds at the end of every run. -/
theorem Process.invariant {P : Process σ ι} {Q : σ → Prop} (hstart : Q P.start)
    (hstep : ∀ s i s', Q s → P.step s i = some s' → Q s')
    {inputs : List ι} {s : σ} (hrun : P.run inputs = some s) : Q s :=
  Process.invariant_along (C := fun _ _ => True) hstart
    (fun s i s' hs _ => hstep s i s' hs) hrun (fun _ _ _ _ _ => trivial)

end Reactive
