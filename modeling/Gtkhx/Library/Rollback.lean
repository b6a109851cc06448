import Gtkhx.Library.Reactive
import Mathlib.Algebra.Ring.Parity
import Mathlib.Data.Nat.Bits

/-!
# A flag changed first and confirmed later

A client flips a flag at once and tells a server, which takes the changes in order and
applies or refuses each. Only the refusal of the newest change is undone, by flipping the
flag back; the refusal of an older one is passed over. The two flags are compared
whenever every change has been answered.

The outcome is a matter of parity: the flags agree again exactly when the changes refused
after the last one applied are none, or odd in number.
-/

namespace Rollback

/-- The two flags and what is on its way between them. -/
structure Flag where
  /-- The client's flag. -/
  shown : Bool
  /-- The server's flag. -/
  held : Bool
  /-- Changes on their way to the server, oldest first. -/
  sent : List Bool := []
  /-- Answers on their way back, oldest first: whether the change was applied. -/
  replies : List Bool := []
  /-- Changes refused since the last one applied, or since the first that found all
  others answered. -/
  refused : ℕ := 0
  /-- Whether a change was applied since then. -/
  applied : Bool := false
  /-- Whether the flags differed before then. -/
  behind : Bool := false

/-- What can happen to the flags. -/
inductive Move
  | change
  | apply
  | refuse
  | answer

namespace Flag

/-- Every change has been answered. -/
def AtRest (f : Flag) : Prop := f.sent = [] ∧ f.replies = []

instance (f : Flag) : Decidable f.AtRest := inferInstanceAs (Decidable (_ ∧ _))

/-- The count of refusals starts afresh when a change finds all others answered. -/
def begin (f : Flag) : Flag :=
  if f.AtRest then
    { f with refused := 0, applied := false, behind := f.shown ^^ f.held }
  else f

/-- One move. -/
def step (f : Flag) : Move → Option Flag
  | .change => some { f.begin with shown := !f.shown, sent := f.sent ++ [!f.shown] }
  | .apply =>
    match f.sent with
    | [] => none
    | v :: sent =>
      some { f with
        held := v, sent := sent, replies := f.replies ++ [true], refused := 0, applied := true }
  | .refuse =>
    match f.sent with
    | [] => none
    | _ :: sent =>
      some { f with sent := sent, replies := f.replies ++ [false], refused := f.refused + 1 }
  | .answer =>
    match f.replies with
    | [] => none
    | applied :: replies =>
      some { f with
        shown := if applied = false ∧ f.sent = [] ∧ replies = [] then !f.shown else f.shown
        replies := replies }

/-- What is left over of a difference when the count of refusals started. -/
def leftover (f : Flag) : Bool := !f.applied && f.behind

/-- The parity that ties the flags together. -/
structure Balanced (f : Flag) : Prop where
  /-- The changes on their way alternate and end in the client's flag. -/
  values : ∀ (i : ℕ) v, f.sent[i]? = some v →
    f.shown = (v ^^ Nat.bodd (f.sent.length - 1 - i))
  /-- While a change is unanswered, the flags differ by what the server has not applied. -/
  busy : ¬f.AtRest → f.shown = (f.held ^^ Nat.bodd (f.sent.length + f.refused) ^^ f.leftover)
  /-- Once all are answered, the newest refusal has been undone. -/
  rest : f.AtRest →
    f.shown = (f.held ^^ (decide (f.refused ≠ 0) && !Nat.bodd f.refused) ^^ f.leftover)
  /-- The newest answer on its way tells how the count of refusals stands. -/
  newest : ∀ applied, f.replies.getLast? = some applied →
    if applied then f.refused = 0 ∧ f.applied = true else f.refused ≠ 0

private theorem Balanced.change {f : Flag} (h : f.Balanced) :
    Balanced { f.begin with shown := !f.shown, sent := f.sent ++ [!f.shown] } := by
  by_cases hrest : f.AtRest
  · obtain ⟨hsent, hreplies⟩ := hrest
    have hbegin : f.begin =
        { f with refused := 0, applied := false, behind := f.shown ^^ f.held } :=
      if_pos ⟨hsent, hreplies⟩
    rw [hbegin]
    refine ⟨?_, fun _ => ?_, by simp [AtRest], by simp [hreplies]⟩
    · intro i v hv
      obtain ⟨rfl, rfl⟩ : i = 0 ∧ v = !f.shown := by
        cases i with
        | zero => simpa [hsent, eq_comm] using hv
        | succ i => simp [hsent] at hv
      simp [hsent]
    · cases hshown : f.shown <;> cases hheld : f.held <;> simp [hsent, leftover]
  · have hbegin : f.begin = f := if_neg hrest
    rw [hbegin]
    refine ⟨?_, fun _ => ?_, by simp [AtRest], h.newest⟩
    · intro i v hv
      by_cases hi : i < f.sent.length
      · rw [List.getElem?_append_left hi] at hv
        have hlen : (f.sent ++ [!f.shown]).length - 1 - i = f.sent.length - 1 - i + 1 := by
          simp only [List.length_append, List.length_singleton]
          omega
        rw [hlen, Nat.bodd_succ, h.values i v hv]
        simp
      · rw [List.getElem?_append_right (by omega)] at hv
        obtain ⟨hlast, hv'⟩ := List.getElem?_eq_some_iff.mp hv
        have hzero : i - f.sent.length = 0 := by simpa using hlast
        have hlen : (f.sent ++ [!f.shown]).length - 1 - i = 0 := by
          simp only [List.length_append, List.length_singleton]
          omega
        rw [hlen]
        simpa [hzero] using hv'
    · have hlen : (f.sent ++ [!f.shown]).length + f.refused = f.sent.length + f.refused + 1 := by
        simp only [List.length_append, List.length_singleton]
        omega
      have hflip : (!f.shown) =
          (f.held ^^ Nat.bodd (f.sent.length + f.refused + 1) ^^ f.leftover) := by
        rw [Nat.bodd_succ, h.busy hrest]
        cases f.held <;> simp
      rwa [← hlen] at hflip

private theorem Balanced.apply {f : Flag} (h : f.Balanced) {v : Bool} {sent : List Bool}
    (hsent : f.sent = v :: sent) :
    Balanced { f with
      held := v, sent := sent, replies := f.replies ++ [true], refused := 0, applied := true } := by
  refine ⟨fun i u hu => ?_, fun _ => ?_, by simp [AtRest], by simp⟩
  · have hvalue := h.values (i + 1) u (by simpa [hsent] using hu)
    have hlen : f.sent.length - 1 - (i + 1) = sent.length - 1 - i := by
      simp only [hsent, List.length_cons]
      omega
    rwa [hlen] at hvalue
  · have hvalue := h.values 0 v (by simp [hsent])
    simpa [hsent, leftover] using hvalue

private theorem Balanced.refuse {f : Flag} (h : f.Balanced) {v : Bool} {sent : List Bool}
    (hsent : f.sent = v :: sent) :
    Balanced { f with
      sent := sent, replies := f.replies ++ [false], refused := f.refused + 1 } := by
  refine ⟨fun i u hu => ?_, fun _ => ?_, by simp [AtRest], by simp⟩
  · have hvalue := h.values (i + 1) u (by simpa [hsent] using hu)
    have hlen : f.sent.length - 1 - (i + 1) = sent.length - 1 - i := by
      simp only [hsent, List.length_cons]
      omega
    rwa [hlen] at hvalue
  · have hbusy := h.busy (by simp [AtRest, hsent])
    have hlen : f.sent.length + f.refused = sent.length + (f.refused + 1) := by
      simp only [hsent, List.length_cons]
      omega
    rwa [hlen] at hbusy

private theorem Balanced.answer {f : Flag} (h : f.Balanced) {applied : Bool}
    {replies : List Bool} (hreplies : f.replies = applied :: replies) :
    Balanced { f with
      shown := if applied = false ∧ f.sent = [] ∧ replies = [] then !f.shown else f.shown
      replies := replies } := by
  have hbusy := h.busy (by simp [AtRest, hreplies])
  by_cases hlast : f.sent = [] ∧ replies = []
  · obtain ⟨hsent, rfl⟩ := hlast
    have hnewest := h.newest applied (by simp [hreplies])
    refine ⟨by simp [hsent], by simp [AtRest, hsent], fun _ => ?_, by simp⟩
    cases applied with
    | true =>
      obtain ⟨hrefused, happlied⟩ : f.refused = 0 ∧ f.applied = true := by simpa using hnewest
      simpa [hsent, hrefused, leftover, happlied] using hbusy
    | false =>
      have hrefused : f.refused ≠ 0 := by simpa using hnewest
      simp only [hsent, List.length_nil, Nat.zero_add, leftover] at hbusy
      simp only [hsent, and_self, if_true, leftover, hbusy]
      cases f.held <;> cases Nat.bodd f.refused <;> simp [hrefused]
  · have hkept : (if applied = false ∧ f.sent = [] ∧ replies = [] then !f.shown else f.shown) =
        f.shown := if_neg (fun hall => hlast hall.2)
    rw [hkept]
    refine ⟨h.values, fun _ => hbusy, fun hrest => absurd hrest hlast, fun b hb => ?_⟩
    refine h.newest b ?_
    rw [hreplies, List.getLast?_cons, hb]
    rfl

/-- Every move keeps the balance. -/
theorem Balanced.step {f f' : Flag} (h : f.Balanced) {move : Move}
    (hstep : f.step move = some f') : f'.Balanced := by
  cases move with
  | change =>
    obtain rfl := Option.some.inj hstep
    exact h.change
  | apply =>
    simp only [Flag.step] at hstep
    split at hstep
    · cases hstep
    · rename_i v sent hsent
      obtain rfl := Option.some.inj hstep
      exact h.apply hsent
  | refuse =>
    simp only [Flag.step] at hstep
    split at hstep
    · cases hstep
    · rename_i v sent hsent
      obtain rfl := Option.some.inj hstep
      exact h.refuse hsent
  | answer =>
    simp only [Flag.step] at hstep
    split at hstep
    · cases hstep
    · rename_i applied replies hreplies
      obtain rfl := Option.some.inj hstep
      exact h.answer hreplies

/-- The flags are equal whenever every change has been answered. -/
def Agrees (f : Flag) : Prop := f.AtRest → f.shown = f.held

/-- Whenever every change has been answered, those refused after the last one applied
are none or odd in number. -/
def Recovered (f : Flag) : Prop := f.AtRest → f.refused = 0 ∨ Odd f.refused

/-- From flags that agreed before, the refusals alone decide whether they agree again. -/
theorem Balanced.agrees_iff_recovered {f : Flag} (h : f.Balanced) (hbehind : f.behind = false) :
    f.Agrees ↔ f.Recovered := by
  refine forall_congr' (fun hrest => ?_)
  have hparity : Nat.bodd f.refused = true ↔ Odd f.refused := by
    rw [Nat.odd_iff, Nat.mod_two_of_bodd]
    cases Nat.bodd f.refused <;> simp
  have hshown := h.rest hrest
  rw [leftover, hbehind, Bool.and_false, Bool.xor_false] at hshown
  rw [hshown, ← hparity]
  by_cases hzero : f.refused = 0
  · simp [hzero]
  · cases f.held <;> cases Nat.bodd f.refused <;> simp [hzero]

/-- A move can leave a difference behind only when it finds one with all answered. -/
private theorem behind_step {f f' : Flag} {move : Move} (hstep : f.step move = some f') :
    f'.behind = f.behind ∨ (f.AtRest ∧ f'.behind = (f.shown ^^ f.held)) := by
  cases move with
  | change =>
    obtain rfl := Option.some.inj hstep
    by_cases hrest : f.AtRest
    · exact Or.inr ⟨hrest, by simp [begin, hrest]⟩
    · exact Or.inl (by simp [begin, hrest])
  | apply | refuse | answer =>
    simp only [Flag.step] at hstep
    split at hstep
    · cases hstep
    · obtain rfl := Option.some.inj hstep
      exact Or.inl rfl

end Flag

variable {σ ι : Type*}

/-- Every step of a run leaves the flags as they are or makes one move on them. -/
def Follows (P : Reactive.Process σ ι) (flag : σ → Flag) (inputs : List ι) : Prop :=
  ∀ before i s s', before ++ [i] <+: inputs → P.run before = some s → P.step s i = some s' →
    flag s' = flag s ∨ ∃ move, (flag s).step move = some (flag s')

section Runs

variable {P : Reactive.Process σ ι} {flag : σ → Flag} {inputs : List ι} {v : Bool}

/-- The flags stay balanced in every run from flags that agree. -/
private theorem balanced_of_run (hstart : flag P.start = { shown := v, held := v })
    (hfollows : Follows P flag inputs) (before : List ι) (s : σ) (hbegin : before <+: inputs)
    (hrun : P.run before = some s) : (flag s).Balanced := by
  induction before using List.reverseRecOn generalizing s with
  | nil =>
    obtain rfl : P.start = s := by simpa using hrun
    rw [hstart]
    exact ⟨by simp, by simp [Flag.AtRest], by simp [Flag.leftover], by simp⟩
  | append_singleton before i ih =>
    obtain ⟨s₀, hrun₀, hstep⟩ := Reactive.Process.run_snoc.mp hrun
    have hbalanced := ih s₀ ((List.prefix_append _ _).trans hbegin) hrun₀
    rcases hfollows before i s₀ s hbegin hrun₀ hstep with hsame | ⟨move, hmove⟩
    · rw [hsame]
      exact hbalanced
    · exact hbalanced.step hmove

/-- No difference is left behind in a run whose flags agree wherever none was. -/
private theorem not_behind_of_run (hstart : flag P.start = { shown := v, held := v })
    (hfollows : Follows P flag inputs)
    (hagrees : ∀ before s, before <+: inputs → P.run before = some s →
      (flag s).behind = false → (flag s).Agrees)
    (before : List ι) (s : σ) (hbegin : before <+: inputs) (hrun : P.run before = some s) :
    (flag s).behind = false := by
  induction before using List.reverseRecOn generalizing s with
  | nil =>
    obtain rfl : P.start = s := by simpa using hrun
    rw [hstart]
  | append_singleton before i ih =>
    obtain ⟨s₀, hrun₀, hstep⟩ := Reactive.Process.run_snoc.mp hrun
    have hbegin₀ := (List.prefix_append before [i]).trans hbegin
    have hbehind := ih s₀ hbegin₀ hrun₀
    rcases hfollows before i s₀ s hbegin hrun₀ hstep with hsame | ⟨move, hmove⟩
    · rw [hsame]
      exact hbehind
    · rcases Flag.behind_step hmove with hkept | ⟨hrest, hnew⟩
      · rw [hkept, hbehind]
      · rw [hnew, hagrees before s₀ hbegin₀ hrun₀ hbehind hrest, Bool.xor_self]

/-- In a run from flags that agree, the flags agree whenever all changes have been
answered, exactly when each time the changes refused after the last one applied are none
or odd in number. -/
theorem throughout_agrees_iff (hstart : flag P.start = { shown := v, held := v })
    (hfollows : Follows P flag inputs) :
    P.Throughout (fun s => (flag s).Agrees) inputs ↔
      P.Throughout (fun s => (flag s).Recovered) inputs := by
  have hbalanced := balanced_of_run hstart hfollows
  constructor
  · intro hagrees before s hbegin hrun
    have hbehind := not_behind_of_run hstart hfollows
      (fun b t hb ht _ => hagrees b t hb ht) before s hbegin hrun
    exact ((hbalanced before s hbegin hrun).agrees_iff_recovered hbehind).mp
      (hagrees before s hbegin hrun)
  · intro hrecovered before s hbegin hrun
    have hbehind := not_behind_of_run hstart hfollows
      (fun b t hb ht hnone => ((hbalanced b t hb ht).agrees_iff_recovered hnone).mpr
        (hrecovered b t hb ht)) before s hbegin hrun
    exact ((hbalanced before s hbegin hrun).agrees_iff_recovered hbehind).mpr
      (hrecovered before s hbegin hrun)

end Runs

end Rollback
