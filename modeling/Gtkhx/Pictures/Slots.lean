import Gtkhx.Library.Ration
import Gtkhx.Library.Reactive

/-!
# The slots of picture decodes

Each decode of a picture is a future that the main loop polls. It takes a slot before it
starts, and there are few of them: a decode that finds none waits in a queue, and is woken when
a slot is handed to it. A decode can be canceled, and its future dropped, at any time.
-/

namespace Gtkhx.Pictures

/-- `MAX_IN_FLIGHT`. -/
def MAX_IN_FLIGHT : ℕ := 4

/-- Where the future of a decode is. -/
inductive Place
  /-- It has not been polled. -/
  | fresh
  /-- In `Acquire`, with a `Waiter`. -/
  | waiting
  /-- It has a slot, and the loader is at work. -/
  | decoding
  /-- The loader's answer was handed on, or dropped; the slot is still to be. -/
  | ending
  /-- It returned, or was dropped. -/
  | finished
  deriving DecidableEq

/-- The decodes and their slots. A decode is a number, and so is its task, which its waker
wakes. -/
structure Decodes where
  /-- `Slots::in_flight`. -/
  inFlight : ℕ := 0
  /-- `Slots::queue`, each waiter named by its decode. -/
  queue : List ℕ := []
  /-- The waiters that were granted a slot and have not looked. -/
  granted : Finset ℕ := ∅
  /-- `Waiter::waker`. -/
  waker : ℕ → Option ℕ := fun _ => none
  /-- How many decodes there have been. -/
  made : ℕ := 0
  place : ℕ → Option Place := fun _ => none
  /-- `DecodeToken::cancelled`. -/
  cancelled : Finset ℕ := ∅
  /-- The tasks that the main loop is to poll. -/
  woken : Finset ℕ := ∅
  /-- The decodes whose callback was called, in order. -/
  called : List ℕ := []
  /-- The decodes that asked for a slot, in order. -/
  asked : List ℕ := []
  /-- The decodes that a slot was given to, in order. -/
  given : List ℕ := []
  /-- The decodes that were dropped while they waited in the queue. -/
  left : Finset ℕ := ∅
  /-- The decodes whose future was dropped. -/
  dropped : Finset ℕ := ∅

/-- What happens. -/
inductive DecodeEvent
  /-- A decode passes the checks of `decode_async`, and is spawned. -/
  | spawned
  /-- The main loop polls a decode, whose loader has not answered. -/
  | polled (n : ℕ)
  /-- The loader answered, or the deadline passed. -/
  | answered (n : ℕ)
  /-- A decode returns after that. -/
  | returned (n : ℕ)
  /-- `inline_media_decode_cancel`. -/
  | cancelled (n : ℕ)
  /-- A decode's future is dropped. -/
  | dropped (n : ℕ)

namespace Decodes

/-- A decode is somewhere else. -/
def setPlace (s : Decodes) (n : ℕ) (p : Place) : Decodes :=
  { s with place := Function.update s.place n (some p) }

/-- `release`: the slot goes to the longest waiter, or is free. -/
def release (s : Decodes) : Decodes :=
  match s.queue with
  | [] => { s with inFlight := s.inFlight - 1 }
  | n :: queue =>
    { s with
      queue := queue
      granted := insert n s.granted
      waker := Function.update s.waker n none
      woken := match s.waker n with
        | some task => insert task s.woken
        | none => s.woken
      given := s.given ++ [n] }

/-- A decode has its slot: one that was canceled meanwhile returns. -/
def admitted (s : Decodes) (n : ℕ) : Decodes :=
  if n ∈ s.cancelled then (s.setPlace n .finished).release else s.setPlace n .decoding

/-- `Acquire::poll`, the first time. -/
def acquire (s : Decodes) (n : ℕ) : Decodes :=
  if s.inFlight < MAX_IN_FLIGHT then
    { s with
      inFlight := s.inFlight + 1
      asked := s.asked ++ [n]
      given := s.given ++ [n] }.admitted n
  else
    { s with
      queue := s.queue ++ [n]
      waker := Function.update s.waker n (some n)
      asked := s.asked ++ [n] }.setPlace n .waiting

/-- `Acquire::poll`, with a waiter. -/
def look (s : Decodes) (n : ℕ) : Decodes :=
  if n ∈ s.granted then { s with granted := s.granted.erase n }.admitted n
  else { s with waker := Function.update s.waker n (some n) }

/-- `Acquire::drop`, with a waiter. -/
def giveUp (s : Decodes) (n : ℕ) : Decodes :=
  if n ∈ s.granted then { s with granted := s.granted.erase n }.release
  else { s with queue := s.queue.filter (· ≠ n), left := insert n s.left }

/-- A decode's future is dropped, its slot apart. -/
def drop (s : Decodes) (n : ℕ) : Decodes :=
  { s with woken := s.woken.erase n, dropped := insert n s.dropped }.setPlace n .finished

/-- One step, if it can happen. -/
def step (s : Decodes) : DecodeEvent → Option Decodes
  | .spawned =>
    some ({ s with made := s.made + 1, woken := insert s.made s.woken }.setPlace s.made .fresh)
  | .polled n =>
    match s.place n with
    | some .fresh => some ({ s with woken := s.woken.erase n }.acquire n)
    | some .waiting => some ({ s with woken := s.woken.erase n }.look n)
    | some .decoding => some { s with woken := s.woken.erase n }
    | _ => none
  | .answered n =>
    if s.place n = some .decoding then
      if n ∈ s.cancelled then some (s.setPlace n .ending)
      else some ({ s with called := s.called ++ [n] }.setPlace n .ending)
    else none
  | .returned n => if s.place n = some .ending then some (s.setPlace n .finished).release else none
  | .cancelled n =>
    if n < s.made then some { s with cancelled := insert n s.cancelled } else none
  | .dropped n =>
    match s.place n with
    | some .fresh => some (s.drop n)
    | some .waiting => some ((s.drop n).giveUp n)
    | some .decoding => some (s.drop n).release
    | _ => none

/-- A decode has a slot, or has been granted one. -/
def Holds (s : Decodes) (n : ℕ) : Prop :=
  s.place n = some .decoding ∨ s.place n = some .ending ∨ n ∈ s.granted

instance (s : Decodes) : DecidablePred s.Holds := fun n => by
  unfold Holds
  infer_instance

/-- The decodes that have a slot. -/
def holders (s : Decodes) : Finset ℕ := (Finset.range s.made).filter s.Holds

end Decodes

/-- The decodes of a program. -/
def decoding : Reactive.Process Decodes DecodeEvent where
  start := {}
  step := Decodes.step

/-- At most `MAX_IN_FLIGHT` decodes have a slot, and one waits only while all slots are out.
Slots are given in the order in which they were asked for, and whoever has one to take up is
about to be polled; so none waits once nothing is left to run. A decode's callback is called
once at most, and unless it was canceled or dropped, by the time it is over. -/
structure Decodes.Rationed (s : Decodes) : Prop where
  counted : s.inFlight = s.holders.card
  limited : s.holders.card ≤ MAX_IN_FLIGHT
  busy : s.queue ≠ [] → s.holders.card = MAX_IN_FLIGHT
  inOrder : s.asked.filter (· ∉ s.left) = s.given ++ s.queue
  queued : ∀ n, n ∈ s.queue ↔ s.place n = some .waiting ∧ n ∉ s.granted
  heard : ∀ n, s.place n = some .fresh ∨ n ∈ s.granted → n ∈ s.woken
  once : s.called.Nodup
  answered : ∀ n, s.place n = some .finished → n ∈ s.called ∨ n ∈ s.cancelled ∨ n ∈ s.dropped
  atRest : s.woken = ∅ → (∀ n, s.place n ≠ some .decoding ∧ s.place n ≠ some .ending) →
    s.inFlight = 0 ∧ ∀ n < s.made, s.place n = some .finished

namespace Decodes

variable {s : Decodes} {hand : Finset ℕ} {n : ℕ}

/-- What holds of the slots while a step has some in its hand: these are counted, and belong to
decodes that are about to start or have ended. -/
structure Sound (hand : Finset ℕ) (s : Decodes) : Prop where
  made : ∀ n, s.place n ≠ none ↔ n < s.made
  inHand : ∀ n ∈ hand, n < s.made ∧ ¬s.Holds n
  fair : Ration.Book.Fair MAX_IN_FLIGHT ⟨s.holders ∪ hand, s.queue, s.asked, s.given, s.left⟩
  count : s.inFlight = (s.holders ∪ hand).card
  queued : ∀ n, n ∉ hand → (n ∈ s.queue ↔ s.place n = some .waiting ∧ n ∉ s.granted)
  granted : ∀ n ∈ s.granted, s.place n = some .waiting
  wakers : ∀ n ∈ s.queue, s.waker n = some n
  heard : ∀ n, n ∉ hand → s.place n = some .fresh ∨ n ∈ s.granted → n ∈ s.woken
  asked : ∀ n, n ∉ hand → n ∈ s.asked → s.place n ≠ none ∧ s.place n ≠ some .fresh

/-- What holds of the callbacks. -/
structure Told (s : Decodes) : Prop where
  once : s.called.Nodup
  called : ∀ n ∈ s.called, s.place n = some .ending ∨ s.place n = some .finished
  ended : ∀ n, s.place n = some .ending → n ∈ s.called ∨ n ∈ s.cancelled
  answered : ∀ n, s.place n = some .finished → n ∈ s.called ∨ n ∈ s.cancelled ∨ n ∈ s.dropped

@[simp] theorem setPlace_self (s : Decodes) (n : ℕ) (p : Place) :
    (s.setPlace n p).place n = some p := Function.update_self ..

@[simp] theorem drop_self (s : Decodes) (n : ℕ) : (s.drop n).place n = some .finished :=
  Function.update_self ..

@[simp] theorem drop_queue (s : Decodes) (n : ℕ) : (s.drop n).queue = s.queue := rfl

@[simp] theorem drop_granted (s : Decodes) (n : ℕ) : (s.drop n).granted = s.granted := rfl

@[simp] theorem setPlace_made (s : Decodes) (n : ℕ) (p : Place) :
    (s.setPlace n p).made = s.made := rfl

@[simp] theorem setPlace_queue (s : Decodes) (n : ℕ) (p : Place) :
    (s.setPlace n p).queue = s.queue := rfl

@[simp] theorem setPlace_granted (s : Decodes) (n : ℕ) (p : Place) :
    (s.setPlace n p).granted = s.granted := rfl

theorem setPlace_of_ne (s : Decodes) {m n : ℕ} (p : Place) (hne : m ≠ n) :
    (s.setPlace n p).place m = s.place m := Function.update_of_ne hne ..

theorem holders_insert {s' : Decodes} (hmade : s'.made = s.made) (hlt : n < s.made)
    (h : ∀ m, s'.Holds m ↔ m = n ∨ s.Holds m) : s'.holders = insert n s.holders := by
  ext m
  simp only [holders, Finset.mem_insert, Finset.mem_filter, Finset.mem_range, hmade, h]
  constructor
  · tauto
  · rintro (rfl | hm)
    · exact ⟨hlt, Or.inl rfl⟩
    · exact ⟨hm.1, Or.inr hm.2⟩

theorem Sound.mem_holders (h : s.Sound hand) : n ∈ s.holders ↔ s.Holds n := by
  unfold holders
  rw [Finset.mem_filter, Finset.mem_range, and_iff_right_iff_imp]
  intro hholds
  refine (h.made n).mp ?_
  rcases hholds with hp | hp | hp
  · simp [hp]
  · simp [hp]
  · simp [h.granted n hp]

/-- The slot in hand is counted beside those of the holders. -/
theorem Sound.count_inHand (h : s.Sound {n}) :
    n ∉ s.holders ∧ s.holders ∪ {n} = insert n s.holders ∧ s.inFlight = s.holders.card + 1 := by
  have hnot : n ∉ s.holders := fun hmem =>
    (h.inHand n (Finset.mem_singleton_self n)).2 (h.mem_holders.mp hmem)
  have hinsert : s.holders ∪ {n} = insert n s.holders := by
    rw [Finset.union_comm, ← Finset.insert_eq]
  refine ⟨hnot, hinsert, ?_⟩
  rw [h.count, hinsert, Finset.card_insert_of_notMem hnot]

/-- Nothing is missed of a decode that is over. -/
theorem Sound.putDown (h : s.Sound {n}) (hover : s.place n = some .finished)
    (hout : n ∉ s.queue) :
    (∀ m, m ∈ s.queue ↔ s.place m = some .waiting ∧ m ∉ s.granted) ∧
      (∀ m, s.place m = some .fresh ∨ m ∈ s.granted → m ∈ s.woken) ∧
      ∀ m ∈ s.asked, s.place m ≠ none ∧ s.place m ≠ some .fresh := by
  have hnot : n ∉ s.granted := fun hmem =>
    (h.inHand n (Finset.mem_singleton_self n)).2 (Or.inr (Or.inr hmem))
  refine ⟨fun m => ?_, fun m hm => ?_, fun m hm => ?_⟩
  · by_cases hmn : m = n
    · subst m
      simp [hover, hout]
    · exact h.queued m (by simpa using hmn)
  · by_cases hmn : m = n
    · subst m
      simp [hover, hnot] at hm
    · exact h.heard m (by simpa using hmn) hm
  · by_cases hmn : m = n
    · subst m
      simp [hover]
    · exact h.asked m (by simpa using hmn) hm

/-- Who has a slot in hand does not wait. -/
theorem Sound.not_mem_queue (h : s.Sound {n}) : n ∉ s.queue := fun hmem =>
  h.fair.not_mem_holding_of_line hmem (by simp)

/-- Nobody waits: the slot is free. -/
theorem release_nil (hqueue : s.queue = []) :
    s.release = { s with inFlight := s.inFlight - 1 } := by
  unfold release
  rw [hqueue]

/-- The longest waiter is granted the slot, and woken. -/
theorem release_cons {next : ℕ} {queue : List ℕ} (hqueue : s.queue = next :: queue)
    (hwaker : s.waker next = some next) :
    s.release = { s with
      queue := queue
      granted := insert next s.granted
      waker := Function.update s.waker next none
      woken := insert next s.woken
      given := s.given ++ [next] } := by
  unfold release
  rw [hqueue]
  dsimp only
  rw [hwaker]

/-- A slot in hand goes to the longest waiter, or is free. -/
theorem Sound.release (h : s.Sound {n}) (hover : s.place n = some .finished) :
    s.release.Sound ∅ := by
  obtain ⟨hnot, hinsert, hcard⟩ := h.count_inHand
  obtain ⟨hqueued, hheard, hasked⟩ := h.putDown hover h.not_mem_queue
  have herase : (s.holders ∪ {n}).erase n = s.holders := by
    rw [hinsert, Finset.erase_insert hnot]
  have hfair := h.fair.giveBack (k := n) (by simp)
  unfold Ration.Book.giveBack at hfair
  cases hqueue : s.queue with
  | nil =>
    simp only [hqueue, herase] at hfair
    rw [release_nil hqueue]
    exact {
      made := h.made
      inHand := by simp
      fair := by
        rw [Finset.union_empty]
        change Ration.Book.Fair _ ⟨s.holders, s.queue, s.asked, s.given, s.left⟩
        rwa [hqueue]
      count := by
        rw [Finset.union_empty]
        change s.inFlight - 1 = s.holders.card
        omega
      queued := fun m _ => hqueued m
      granted := h.granted
      wakers := h.wakers
      heard := fun m _ => hheard m
      asked := fun m _ => hasked m }
  | cons next queue =>
    simp only [hqueue, herase] at hfair
    have hwaits : s.place next = some .waiting ∧ next ∉ s.granted :=
      (hqueued next).mp (by simp [hqueue])
    have hnodup : next ∉ queue := by
      have hall : (next :: queue).Nodup := hqueue ▸ h.fair.nodup.of_append_right
      exact (List.nodup_cons.mp hall).1
    rw [release_cons hqueue (h.wakers next (by simp [hqueue]))]
    have hholders : { s with
        queue := queue
        granted := insert next s.granted
        waker := Function.update s.waker next none
        woken := insert next s.woken
        given := s.given ++ [next] }.holders = insert next s.holders := by
      refine holders_insert rfl ((h.made next).mp (by simp [hwaits.1])) fun m => ?_
      simp only [Holds, Finset.mem_insert]
      tauto
    have hnext : next ∉ s.holders := fun hmem => by
      rcases h.mem_holders.mp hmem with hp | hp | hp
      · simp [hwaits.1] at hp
      · simp [hwaits.1] at hp
      · exact hwaits.2 hp
    exact {
      made := h.made
      inHand := by simp
      fair := by rwa [Finset.union_empty, hholders]
      count := by
        rw [Finset.union_empty, hholders, Finset.card_insert_of_notMem hnext]
        exact hcard
      queued := fun m _ => by
        have hm := hqueued m
        rw [hqueue, List.mem_cons] at hm
        rw [Finset.mem_insert, not_or]
        by_cases hmn : m = next
        · subst m
          simp [hnodup]
        · simp only [hmn, false_or] at hm
          simp [hm, hmn]
      granted := fun m hm => by
        rcases Finset.mem_insert.mp hm with rfl | hm
        · exact hwaits.1
        · exact h.granted m hm
      wakers := fun m hm => by
        have hmn : m ≠ next := fun heq => hnodup (heq ▸ hm)
        change Function.update s.waker next none m = some m
        rw [Function.update_of_ne hmn]
        exact h.wakers m (by simp [hqueue, show m ∈ queue from hm])
      heard := fun m _ hm => by
        change m ∈ insert next s.woken
        rcases hm with hm | hm
        · exact Finset.mem_insert_of_mem (hheard m (Or.inl hm))
        · rcases Finset.mem_insert.mp hm with rfl | hm
          · exact Finset.mem_insert_self ..
          · exact Finset.mem_insert_of_mem (hheard m (Or.inr hm))
      asked := fun m _ => hasked m }

/-- A change bears on one decode only. -/
structure Beside (n : ℕ) (s s' : Decodes) : Prop where
  made : s'.made = s.made
  place : ∀ m ≠ n, s'.place m = s.place m
  granted : ∀ m ≠ n, m ∈ s'.granted ↔ m ∈ s.granted
  queue : ∀ m ≠ n, m ∈ s'.queue ↔ m ∈ s.queue
  waker : ∀ m ≠ n, s'.waker m = s.waker m
  woken : ∀ m ≠ n, m ∈ s.woken → m ∈ s'.woken
  asked : ∀ m ≠ n, m ∈ s'.asked ↔ m ∈ s.asked

/-- What is to hold of that decode. -/
structure Own (n : ℕ) (s : Decodes) (hand : Finset ℕ) : Prop where
  place : s.place n ≠ none
  held : n ∈ hand → ¬s.Holds n
  queued : n ∉ hand → (n ∈ s.queue ↔ s.place n = some .waiting ∧ n ∉ s.granted)
  granted : n ∈ s.granted → s.place n = some .waiting
  waker : n ∈ s.queue → s.waker n = some n
  heard : n ∉ hand → s.place n = some .fresh ∨ n ∈ s.granted → n ∈ s.woken
  asked : n ∉ hand → n ∈ s.asked → s.place n ≠ some .fresh

theorem Beside.holds {s' : Decodes} (h : Beside n s s') {m : ℕ} (hmn : m ≠ n) :
    s'.Holds m ↔ s.Holds m := by
  unfold Holds
  rw [h.place m hmn, h.granted m hmn]

/-- A change that bears on one decode keeps what holds of the others. -/
theorem Sound.step {s' : Decodes} {hand' : Finset ℕ} (h : s.Sound hand) (hbeside : Beside n s s')
    (hlt : n < s.made) (hhand : ∀ m ≠ n, m ∈ hand' ↔ m ∈ hand) (hown : Own n s' hand')
    (hfair : Ration.Book.Fair MAX_IN_FLIGHT
      ⟨s'.holders ∪ hand', s'.queue, s'.asked, s'.given, s'.left⟩)
    (hcount : s'.inFlight = (s'.holders ∪ hand').card) : s'.Sound hand' where
  made m := by
    rw [hbeside.made]
    by_cases hmn : m = n
    · subst m
      exact iff_of_true hown.place hlt
    · rw [hbeside.place m hmn]
      exact h.made m
  inHand m hm := by
    rw [hbeside.made]
    by_cases hmn : m = n
    · subst m
      exact ⟨hlt, hown.held hm⟩
    · rw [hbeside.holds hmn]
      exact h.inHand m ((hhand m hmn).mp hm)
  fair := hfair
  count := hcount
  queued m hm := by
    by_cases hmn : m = n
    · subst m
      exact hown.queued hm
    · rw [hbeside.queue m hmn, hbeside.place m hmn, hbeside.granted m hmn]
      exact h.queued m ((hhand m hmn).not.mp hm)
  granted m hm := by
    by_cases hmn : m = n
    · subst m
      exact hown.granted hm
    · rw [hbeside.place m hmn]
      exact h.granted m ((hbeside.granted m hmn).mp hm)
  wakers m hm := by
    by_cases hmn : m = n
    · subst m
      exact hown.waker hm
    · rw [hbeside.waker m hmn]
      exact h.wakers m ((hbeside.queue m hmn).mp hm)
  heard m hm hnews := by
    by_cases hmn : m = n
    · subst m
      exact hown.heard hm hnews
    · rw [hbeside.place m hmn, hbeside.granted m hmn] at hnews
      exact hbeside.woken m hmn (h.heard m ((hhand m hmn).not.mp hm) hnews)
  asked m hm hasked := by
    by_cases hmn : m = n
    · subst m
      exact ⟨hown.place, hown.asked hm hasked⟩
    · rw [hbeside.place m hmn]
      exact h.asked m ((hhand m hmn).not.mp hm) ((hbeside.asked m hmn).mp hasked)

/-- As many slots are counted if the one decode keeps its own, or has none before and after. -/
theorem Sound.counted {s' : Decodes} (h : s.Sound hand) (hand' : Finset ℕ)
    (hbeside : Beside n s s') (hlt : n < s.made) (hhand : ∀ m ≠ n, m ∈ hand' ↔ m ∈ hand)
    (hsame : s'.Holds n ∨ n ∈ hand' ↔ s.Holds n ∨ n ∈ hand) :
    s'.holders ∪ hand' = s.holders ∪ hand := by
  ext m
  rw [Finset.mem_union, Finset.mem_union, h.mem_holders]
  have hiff : m ∈ s'.holders ↔ m < s.made ∧ s'.Holds m := by
    rw [holders, Finset.mem_filter, Finset.mem_range, hbeside.made]
  rw [hiff]
  by_cases hmn : m = n
  · subst m
    tauto
  · rw [hbeside.holds hmn, hhand m hmn, ← h.mem_holders, holders, Finset.mem_filter,
      Finset.mem_range]
    tauto

theorem beside_setPlace (s : Decodes) (n : ℕ) (p : Place) : Beside n s (s.setPlace n p) where
  made := rfl
  place _ hmn := setPlace_of_ne s p hmn
  granted _ _ := Iff.rfl
  queue _ _ := Iff.rfl
  waker _ _ := rfl
  woken _ _ hm := hm
  asked _ _ := Iff.rfl

/-- A decode with a slot in hand starts, or is over. -/
theorem Sound.start (h : s.Sound {n}) : (s.setPlace n .decoding).Sound ∅ := by
  have hn := h.inHand n (Finset.mem_singleton_self n)
  have hungranted : n ∉ s.granted := fun hmem => hn.2 (Or.inr (Or.inr hmem))
  have hhand : ∀ m ≠ n, m ∈ (∅ : Finset ℕ) ↔ m ∈ ({n} : Finset ℕ) := by simp
  have hsame := h.counted _ (beside_setPlace s n .decoding) hn.1 hhand (by simp [Holds])
  refine h.step (beside_setPlace s n .decoding) hn.1 hhand ?_ (hsame ▸ h.fair) (hsame ▸ h.count)
  exact {
    place := by simp
    held := by simp
    queued := fun _ => by simpa using h.not_mem_queue
    granted := fun hmem => absurd hmem hungranted
    waker := fun hmem => absurd hmem h.not_mem_queue
    heard := fun _ hnews => by simp [hungranted] at hnews
    asked := by simp }

/-- A decode with a slot in hand is over. -/
theorem Sound.finished (h : s.Sound {n}) : (s.setPlace n .finished).Sound {n} := by
  have hn := h.inHand n (Finset.mem_singleton_self n)
  have hungranted : n ∉ s.granted := fun hmem => hn.2 (Or.inr (Or.inr hmem))
  have hsame := h.counted _ (beside_setPlace s n .finished) hn.1 (fun _ _ => Iff.rfl)
    (by simp)
  refine h.step (beside_setPlace s n .finished) hn.1 (fun _ _ => Iff.rfl) ?_ (hsame ▸ h.fair)
    (hsame ▸ h.count)
  exact {
    place := by simp
    held := fun _ => by simp [Holds, hungranted]
    queued := by simp
    granted := fun hmem => absurd hmem hungranted
    waker := fun hmem => absurd hmem h.not_mem_queue
    heard := by simp
    asked := by simp }

/-- A decode that has its slot starts, or gives it back. -/
theorem Sound.admitted (h : s.Sound {n}) : (s.admitted n).Sound ∅ := by
  unfold Decodes.admitted
  split
  · exact h.finished.release (by simp)
  · exact h.start

/-- A decode that has a slot is over, with its slot in hand. -/
theorem Sound.putBack (h : s.Sound ∅) (hheld : s.Holds n) {woken dropped : Finset ℕ}
    (hwoken : ∀ m ≠ n, m ∈ s.woken → m ∈ woken) :
    ({ s with woken := woken, dropped := dropped, granted := s.granted.erase n }.setPlace n
      .finished).Sound {n} := by
  have hlt : n < s.made := (Finset.mem_range.mp (Finset.mem_filter.mp (h.mem_holders.mpr hheld)).1)
  have hqueue : n ∉ s.queue := fun hmem =>
    h.fair.not_mem_holding_of_line hmem (by simpa using h.mem_holders.mpr hheld)
  have hbeside : Beside n s ({ s with
      woken := woken, dropped := dropped, granted := s.granted.erase n }.setPlace n .finished) := {
    beside_setPlace s n .finished with
    granted := fun m hmn => by simp [hmn]
    woken := hwoken }
  have hhand : ∀ m ≠ n, m ∈ ({n} : Finset ℕ) ↔ m ∈ (∅ : Finset ℕ) := by simp
  have hsame := h.counted _ hbeside hlt hhand (by simp [hheld])
  refine h.step hbeside hlt hhand ?_ (hsame ▸ h.fair) (hsame ▸ h.count)
  exact {
    place := by simp
    held := fun _ => by simp [Holds]
    queued := by simp
    granted := by simp
    waker := fun hmem => absurd hmem hqueue
    heard := by simp
    asked := by simp }

theorem Sound.lt_made (h : s.Sound hand) {p : Place} (hplace : s.place n = some p) :
    n < s.made := (h.made n).mp (by simp [hplace])

/-- Who waits or was not polled has no slot. -/
theorem Sound.not_holds (h : s.Sound hand) (hplace : s.place n = some .fresh) : ¬s.Holds n := by
  rintro (hp | hp | hp)
  · simp [hplace] at hp
  · simp [hplace] at hp
  · simp [h.granted n hp] at hplace

/-- A decode that is polled for the first time takes a slot, or waits. -/
theorem Sound.acquire (h : s.Sound ∅) (hfresh : s.place n = some .fresh) :
    ({ s with woken := s.woken.erase n }.acquire n).Sound ∅ := by
  have hlt := h.lt_made hfresh
  have hnot := h.not_holds hfresh
  have hungranted : n ∉ s.granted := fun hmem => hnot (Or.inr (Or.inr hmem))
  have hunasked : n ∉ s.asked := fun hmem => (h.asked n (by simp) hmem).2 hfresh
  have hunqueued : n ∉ s.queue := fun hmem => by
    simp [((h.queued n (by simp)).mp hmem).1] at hfresh
  have hfree : n ∉ s.holders := fun hmem => hnot (h.mem_holders.mp hmem)
  have hcount := h.count
  rw [Finset.union_empty] at hcount
  have hfair := h.fair.ask hunasked
  unfold Ration.Book.ask at hfair
  simp only [Finset.union_empty] at hfair
  unfold Decodes.acquire
  by_cases hroom : s.inFlight < MAX_IN_FLIGHT
  · rw [if_pos (hcount ▸ hroom)] at hfair
    rw [if_pos hroom]
    refine Sound.admitted (h.step (n := n) ?_ hlt (by simp) ?_ ?_ ?_)
    · exact {
        made := rfl
        place := fun _ _ => rfl
        granted := fun _ _ => Iff.rfl
        queue := fun _ _ => Iff.rfl
        waker := fun _ _ => rfl
        woken := fun m hmn hm => Finset.mem_erase.mpr ⟨hmn, hm⟩
        asked := fun m hmn => by simp [hmn] }
    · exact {
        place := by simp [hfresh]
        held := fun _ => hnot
        queued := by simp
        granted := fun hmem => absurd hmem hungranted
        waker := fun hmem => absurd hmem hunqueued
        heard := by simp
        asked := by simp }
    · rw [Finset.union_comm, ← Finset.insert_eq]
      exact hfair
    · rw [Finset.union_comm, ← Finset.insert_eq]
      change s.inFlight + 1 = (insert n s.holders).card
      rw [Finset.card_insert_of_notMem hfree, hcount]
  · rw [if_neg (hcount ▸ hroom)] at hfair
    rw [if_neg hroom]
    have hbeside : Beside n s ({ s with
        queue := s.queue ++ [n]
        waker := Function.update s.waker n (some n)
        asked := s.asked ++ [n]
        woken := s.woken.erase n }.setPlace n .waiting) := {
      beside_setPlace s n .waiting with
      queue := fun m hmn => by simp [hmn]
      waker := fun m hmn => Function.update_of_ne hmn ..
      woken := fun m hmn hm => Finset.mem_erase.mpr ⟨hmn, hm⟩
      asked := fun m hmn => by
        change m ∈ s.asked ++ [n] ↔ _
        simp [hmn] }
    have hsame := h.counted ∅ hbeside hlt (fun _ _ => Iff.rfl)
      (by simp [Holds, hungranted, hfresh])
    rw [Finset.union_empty, Finset.union_empty] at hsame
    refine h.step hbeside hlt (fun _ _ => Iff.rfl) ?_ ?_ ?_
    · exact {
        place := by simp
        held := by simp
        queued := fun _ => by simp [hungranted]
        granted := fun _ => by simp
        waker := fun _ => Function.update_self ..
        heard := fun _ hnews => by simp [hungranted] at hnews
        asked := by simp }
    · rw [Finset.union_empty, hsame]
      exact hfair
    · rw [Finset.union_empty, hsame]
      exact hcount

/-- A decode that waits takes up the slot it was granted, or leaves its waker again. -/
theorem Sound.look (h : s.Sound ∅) (hwaiting : s.place n = some .waiting) :
    ({ s with woken := s.woken.erase n }.look n).Sound ∅ := by
  have hlt := h.lt_made hwaiting
  unfold Decodes.look
  by_cases hgranted : n ∈ s.granted
  · rw [if_pos hgranted]
    have hbeside : Beside n s
        { s with woken := s.woken.erase n, granted := s.granted.erase n } := {
      made := rfl
      place := fun _ _ => rfl
      granted := fun m hmn => by simp [hmn]
      queue := fun _ _ => Iff.rfl
      waker := fun _ _ => rfl
      woken := fun m hmn hm => Finset.mem_erase.mpr ⟨hmn, hm⟩
      asked := fun _ _ => Iff.rfl }
    have hhand : ∀ m ≠ n, m ∈ ({n} : Finset ℕ) ↔ m ∈ (∅ : Finset ℕ) := by simp
    have hheld : s.Holds n := Or.inr (Or.inr hgranted)
    have hsame := h.counted _ hbeside hlt hhand (by simp [hheld])
    refine Sound.admitted (h.step hbeside hlt hhand ?_ (hsame ▸ h.fair) (hsame ▸ h.count))
    exact {
      place := by simp [hwaiting]
      held := fun _ => by simp [Holds, hwaiting]
      queued := by simp
      granted := by simp
      waker := fun hmem => h.wakers n hmem
      heard := by simp
      asked := by simp }
  · rw [if_neg hgranted]
    have hbeside : Beside n s { s with
        woken := s.woken.erase n, waker := Function.update s.waker n (some n) } := {
      made := rfl
      place := fun _ _ => rfl
      granted := fun _ _ => Iff.rfl
      queue := fun _ _ => Iff.rfl
      waker := fun m hmn => Function.update_of_ne hmn ..
      woken := fun m hmn hm => Finset.mem_erase.mpr ⟨hmn, hm⟩
      asked := fun _ _ => Iff.rfl }
    refine h.step hbeside hlt (fun _ _ => Iff.rfl) ?_ h.fair h.count
    exact {
      place := by simp [hwaiting]
      held := by simp
      queued := fun hout => h.queued n hout
      granted := fun hmem => absurd hmem hgranted
      waker := fun _ => Function.update_self ..
      heard := fun _ hnews => by simp [hwaiting, hgranted] at hnews
      asked := fun _ _ => by simp [hwaiting] }

/-- A decode that has its slot returns, or is dropped. -/
theorem Sound.giveBack (h : s.Sound ∅)
    (hplace : s.place n = some .decoding ∨ s.place n = some .ending) (woken dropped : Finset ℕ)
    (hwoken : ∀ m ≠ n, m ∈ s.woken → m ∈ woken) :
    ({ s with woken := woken, dropped := dropped }.setPlace n .finished).release.Sound ∅ := by
  have hungranted : n ∉ s.granted := fun hmem => by
    rw [h.granted n hmem] at hplace
    simp at hplace
  have hheld : s.Holds n := hplace.elim Or.inl fun hp => Or.inr (Or.inl hp)
  have hback : ({ s with
      woken := woken, dropped := dropped, granted := s.granted.erase n }.setPlace n
      .finished).Sound {n} := h.putBack hheld hwoken
  rw [Finset.erase_eq_of_notMem hungranted] at hback
  exact hback.release (setPlace_self s n .finished)

/-- A decode that is dropped while it waits passes on a slot it was granted, or leaves the
queue. -/
theorem Sound.giveUp (h : s.Sound ∅) (hwaiting : s.place n = some .waiting) :
    ((s.drop n).giveUp n).Sound ∅ := by
  have hlt := h.lt_made hwaiting
  unfold Decodes.giveUp
  by_cases hgranted : n ∈ s.granted
  · rw [if_pos (show n ∈ (s.drop n).granted from hgranted)]
    exact (h.putBack (Or.inr (Or.inr hgranted)) fun m hmn hm =>
      Finset.mem_erase.mpr ⟨hmn, hm⟩).release (setPlace_self s n .finished)
  · rw [if_neg (show n ∉ (s.drop n).granted from hgranted)]
    have hfair := h.fair.leave ((h.queued n (by simp)).mpr ⟨hwaiting, hgranted⟩)
    unfold Ration.Book.leave at hfair
    have hbeside : Beside n s ({ s with
        woken := s.woken.erase n
        dropped := insert n s.dropped
        queue := s.queue.filter (· ≠ n)
        left := insert n s.left }.setPlace n .finished) := {
      beside_setPlace s n .finished with
      queue := fun m hmn => by simp [hmn]
      woken := fun m hmn hm => Finset.mem_erase.mpr ⟨hmn, hm⟩ }
    have hsame := h.counted ∅ hbeside hlt (fun _ _ => Iff.rfl)
      (by simp [Holds, hgranted, hwaiting])
    refine h.step hbeside hlt (fun _ _ => Iff.rfl) ?_ (hsame ▸ hfair) (hsame ▸ h.count)
    exact {
      place := by simp
      held := by simp
      queued := fun _ => by simp
      granted := fun hmem => absurd hmem hgranted
      waker := fun hmem => by simp at hmem
      heard := fun _ hnews => by simp [hgranted] at hnews
      asked := by simp }

/-- A decode that was not polled is dropped. -/
theorem Sound.dropFresh (h : s.Sound ∅) (hfresh : s.place n = some .fresh) :
    (s.drop n).Sound ∅ := by
  have hungranted : n ∉ s.granted := fun hmem => h.not_holds hfresh (Or.inr (Or.inr hmem))
  have hunqueued : n ∉ s.queue := fun hmem => by
    simp [((h.queued n (by simp)).mp hmem).1] at hfresh
  have hbeside : Beside n s (s.drop n) := {
    beside_setPlace s n .finished with
    woken := fun m hmn hm => Finset.mem_erase.mpr ⟨hmn, hm⟩ }
  have hsame := h.counted ∅ hbeside (h.lt_made hfresh) (fun _ _ => Iff.rfl)
    (by simp [Holds, hungranted, hfresh])
  refine h.step hbeside (h.lt_made hfresh) (fun _ _ => Iff.rfl) ?_ (hsame ▸ h.fair)
    (hsame ▸ h.count)
  exact {
    place := by simp
    held := by simp
    queued := fun _ => by simpa using hunqueued
    granted := fun hmem => absurd hmem hungranted
    waker := fun hmem => absurd hmem hunqueued
    heard := fun _ hnews => by simp [hungranted] at hnews
    asked := by simp }

/-- The loader of a decode answered: it keeps its slot. -/
theorem Sound.answer (h : s.Sound ∅) (hplace : s.place n = some .decoding) (called : List ℕ) :
    ({ s with called := called }.setPlace n .ending).Sound ∅ := by
  have hungranted : n ∉ s.granted := fun hmem => by simp [h.granted n hmem] at hplace
  have hunqueued : n ∉ s.queue := fun hmem => by
    simp [((h.queued n (by simp)).mp hmem).1] at hplace
  have hbeside : Beside n s ({ s with called := called }.setPlace n .ending) := {
    beside_setPlace s n .ending with }
  have hsame := h.counted ∅ hbeside (h.lt_made hplace) (fun _ _ => Iff.rfl)
    (by simp [Holds, hplace])
  refine h.step hbeside (h.lt_made hplace) (fun _ _ => Iff.rfl) ?_ (hsame ▸ h.fair)
    (hsame ▸ h.count)
  exact {
    place := by simp
    held := by simp
    queued := fun _ => by simpa using hunqueued
    granted := fun hmem => absurd hmem hungranted
    waker := fun hmem => absurd hmem hunqueued
    heard := fun _ hnews => by simp [hungranted] at hnews
    asked := by simp }

/-- A decode whose loader has not answered is polled in vain. -/
theorem Sound.poll (h : s.Sound ∅) (hplace : s.place n = some .decoding) :
    { s with woken := s.woken.erase n }.Sound ∅ := by
  have hungranted : n ∉ s.granted := fun hmem => by simp [h.granted n hmem] at hplace
  refine { h with heard := fun m hm hnews => Finset.mem_erase.mpr ⟨?_, h.heard m hm hnews⟩ }
  rintro rfl
  change s.place m = some .fresh ∨ m ∈ s.granted at hnews
  simp [hplace, hungranted] at hnews

/-- A decode is spawned. -/
theorem Sound.spawn (h : s.Sound ∅) :
    ({ s with made := s.made + 1, woken := insert s.made s.woken }.setPlace s.made
      .fresh).Sound ∅ := by
  set s' : Decodes :=
    { s with made := s.made + 1, woken := insert s.made s.woken }.setPlace s.made .fresh
  have hnone : s.place s.made = none := by
    by_contra hsome
    exact absurd ((h.made _).mp hsome) (lt_irrefl _)
  have hungranted : s.made ∉ s.granted := fun hmem => by simp [h.granted _ hmem] at hnone
  have hplace {m : ℕ} (hm : m ≠ s.made) : s'.place m = s.place m := setPlace_of_ne s _ hm
  have hself : s'.place s.made = some .fresh := setPlace_self ..
  have hholders : s'.holders = s.holders := by
    ext m
    simp only [holders, Finset.mem_filter, Finset.mem_range]
    change m < s.made + 1 ∧ _ ↔ _
    by_cases hm : m = s.made
    · subst m
      simp [Holds, hnone, s', hungranted]
    · have hiff : s'.Holds m ↔ s.Holds m := by
        unfold Holds
        rw [hplace hm]
        rfl
      rw [hiff]
      have : m < s.made + 1 ↔ m < s.made := by omega
      rw [this]
  exact {
    made := fun m => by
      change _ ↔ m < s.made + 1
      by_cases hm : m = s.made
      · subst m
        simp [hself]
      · rw [hplace hm, h.made]
        omega
    inHand := by simp
    fair := by
      rw [hholders]
      exact h.fair
    count := by
      rw [hholders]
      exact h.count
    queued := fun m hmem => by
      by_cases hm : m = s.made
      · subst m
        have hout : s.made ∉ s'.queue := fun hq => by
          simp [((h.queued _ hmem).mp hq).1] at hnone
        simpa [hself] using hout
      · rw [hplace hm]
        exact h.queued m hmem
    granted := fun m hmem => by
      rw [hplace fun heq => hungranted (heq ▸ hmem)]
      exact h.granted m hmem
    wakers := h.wakers
    heard := fun m hm hnews => by
      by_cases hm' : m = s.made
      · exact hm' ▸ Finset.mem_insert_self ..
      · rw [hplace hm'] at hnews
        exact Finset.mem_insert_of_mem (h.heard m hm hnews)
    asked := fun m hm hasked => by
      have hne : m ≠ s.made := fun heq => (h.asked m hm hasked).1 (heq ▸ hnone)
      rw [hplace hne]
      exact h.asked m hm hasked }

/-- Every step keeps what holds of the slots. -/
theorem Sound.next {s' : Decodes} {e : DecodeEvent} (h : s.Sound ∅)
    (hstep : s.step e = some s') : s'.Sound ∅ := by
  cases e with
  | spawned =>
    obtain rfl := Option.some.inj hstep
    exact h.spawn
  | polled n =>
    simp only [Decodes.step] at hstep
    split at hstep
    next hplace =>
      obtain rfl := Option.some.inj hstep
      exact h.acquire hplace
    next hplace =>
      obtain rfl := Option.some.inj hstep
      exact h.look hplace
    next hplace =>
      obtain rfl := Option.some.inj hstep
      exact h.poll hplace
    next => simp at hstep
  | answered n =>
    simp only [Decodes.step] at hstep
    obtain ⟨hplace, hstep⟩ := Option.ite_none_right_eq_some.mp hstep
    split at hstep
    · obtain rfl := Option.some.inj hstep
      exact h.answer hplace s.called
    · obtain rfl := Option.some.inj hstep
      exact h.answer hplace _
  | returned n =>
    obtain ⟨hplace, hstep⟩ := Option.ite_none_right_eq_some.mp hstep
    obtain rfl := Option.some.inj hstep
    exact h.giveBack (Or.inr hplace) s.woken s.dropped fun _ _ hm => hm
  | cancelled n =>
    obtain ⟨-, hstep⟩ := Option.ite_none_right_eq_some.mp hstep
    obtain rfl := Option.some.inj hstep
    exact { h with }
  | dropped n =>
    simp only [Decodes.step] at hstep
    split at hstep
    next hplace =>
      obtain rfl := Option.some.inj hstep
      exact h.dropFresh hplace
    next hplace =>
      obtain rfl := Option.some.inj hstep
      exact h.giveUp hplace
    next hplace =>
      obtain rfl := Option.some.inj hstep
      exact h.giveBack (Or.inl hplace) _ _ fun m hmn hm => Finset.mem_erase.mpr ⟨hmn, hm⟩
    next => simp at hstep

@[simp] theorem release_place (s : Decodes) : s.release.place = s.place := by
  unfold release
  split <;> rfl

@[simp] theorem release_called (s : Decodes) : s.release.called = s.called := by
  unfold release
  split <;> rfl

@[simp] theorem release_cancelled (s : Decodes) : s.release.cancelled = s.cancelled := by
  unfold release
  split <;> rfl

@[simp] theorem release_dropped (s : Decodes) : s.release.dropped = s.dropped := by
  unfold release
  split <;> rfl

/-- A decode goes to another place without its callback being called. -/
theorem Told.move {s' : Decodes} (h : s.Told) (hplace : ∀ m ≠ n, s'.place m = s.place m)
    (hcalled : s'.called = s.called) (hcancelled : s.cancelled ⊆ s'.cancelled)
    (hdropped : s.dropped ⊆ s'.dropped)
    (hkeeps : n ∈ s.called → s'.place n = some .ending ∨ s'.place n = some .finished)
    (hended : s'.place n = some .ending → n ∈ s.called ∨ n ∈ s'.cancelled)
    (hover : s'.place n = some .finished → n ∈ s.called ∨ n ∈ s'.cancelled ∨ n ∈ s'.dropped) :
    s'.Told where
  once := hcalled ▸ h.once
  called m hm := by
    rw [hcalled] at hm
    by_cases hmn : m = n
    · subst m
      exact hkeeps hm
    · rw [hplace m hmn]
      exact h.called m hm
  ended m hm := by
    rw [hcalled]
    by_cases hmn : m = n
    · subst m
      exact hended hm
    · rw [hplace m hmn] at hm
      exact (h.ended m hm).imp_right fun hc => hcancelled hc
  answered m hm := by
    rw [hcalled]
    by_cases hmn : m = n
    · subst m
      exact hover hm
    · rw [hplace m hmn] at hm
      exact (h.answered m hm).imp_right (Or.imp (fun hc => hcancelled hc) fun hd => hdropped hd)

/-- No callback was called of a decode that waits for its slot or its loader. -/
theorem Told.not_called (h : s.Told) {p : Place} (hplace : s.place n = some p)
    (hending : p ≠ .ending) (hover : p ≠ .finished) : n ∉ s.called := fun hmem => by
  rcases h.called n hmem with hp | hp
  · exact hending (Option.some.inj (hplace.symm.trans hp))
  · exact hover (Option.some.inj (hplace.symm.trans hp))

theorem Told.release (h : s.Told) : s.release.Told where
  once := (release_called s).symm ▸ h.once
  called m hm := by
    rw [release_called] at hm
    rw [release_place]
    exact h.called m hm
  ended m hm := by
    rw [release_place] at hm
    rw [release_called, release_cancelled]
    exact h.ended m hm
  answered m hm := by
    rw [release_place] at hm
    rw [release_called, release_cancelled, release_dropped]
    exact h.answered m hm

theorem Told.admitted (h : s.Told) (hout : n ∉ s.called) : (s.admitted n).Told := by
  unfold Decodes.admitted
  split
  next hcancelled =>
    refine Told.release (h.move (n := n) (fun m hmn => setPlace_of_ne s _ hmn) rfl
      (Finset.Subset.refl _) (Finset.Subset.refl _) (fun hmem => absurd hmem hout)
      (fun hp => by simp at hp) fun _ => Or.inr (Or.inl hcancelled))
  next =>
    exact h.move (n := n) (fun m hmn => setPlace_of_ne s _ hmn) rfl (Finset.Subset.refl _)
      (Finset.Subset.refl _) (fun hmem => absurd hmem hout) (fun hp => by simp at hp)
      (fun hp => by simp at hp)

/-- A decode that was not called goes to wait, or to start. -/
theorem Told.acquire (h : s.Told) (hout : n ∉ s.called) : (s.acquire n).Told := by
  unfold Decodes.acquire
  split
  · exact Told.admitted { h with } hout
  · exact h.move (n := n) (fun m hmn => setPlace_of_ne _ _ hmn) rfl (Finset.Subset.refl _)
      (Finset.Subset.refl _) (fun hmem => absurd hmem hout) (fun hp => by simp at hp)
      (fun hp => by simp at hp)

theorem Told.look (h : s.Told) (hout : n ∉ s.called) : (s.look n).Told := by
  unfold Decodes.look
  split
  · exact Told.admitted { h with } hout
  · exact { h with }

theorem Told.drop (h : s.Told) (hout : n ∉ s.called) : (s.drop n).Told :=
  h.move (n := n) (fun m hmn => setPlace_of_ne _ _ hmn) rfl (Finset.Subset.refl _)
    (Finset.subset_insert _ _) (fun hmem => absurd hmem hout) (fun hp => by simp at hp)
    (fun _ => Or.inr (Or.inr (Finset.mem_insert_self n _)))

theorem Told.giveUp (h : s.Told) : (s.giveUp n).Told := by
  unfold Decodes.giveUp
  split
  · exact Told.release { h with }
  · exact { h with }

/-- The loader of a decode that was not canceled answered. -/
theorem Told.call (h : s.Told) (hplace : s.place n = some .decoding) :
    ({ s with called := s.called ++ [n] }.setPlace n .ending).Told where
  once := by
    refine List.nodup_append.mpr ⟨h.once, List.nodup_singleton n, ?_⟩
    rintro a ha b hb rfl
    exact h.not_called hplace (by decide) (by decide) (List.mem_singleton.mp hb ▸ ha)
  called m hm := by
    by_cases hmn : m = n
    · subst m
      simp
    · rw [setPlace_of_ne _ _ hmn]
      rcases List.mem_append.mp hm with hm | hm
      · exact h.called m hm
      · exact absurd (List.mem_singleton.mp hm) hmn
  ended m hm := by
    by_cases hmn : m = n
    · subst m
      exact Or.inl (by simp [setPlace])
    · rw [setPlace_of_ne _ _ hmn] at hm
      exact (h.ended m hm).imp_left (List.mem_append_left _)
  answered m hm := by
    by_cases hmn : m = n
    · subst m
      simp at hm
    · rw [setPlace_of_ne _ _ hmn] at hm
      exact (h.answered m hm).imp_left (List.mem_append_left _)

/-- Every step keeps what holds of the callbacks. -/
theorem Told.next {s' : Decodes} {e : DecodeEvent} (h : s.Told) (hsound : s.Sound ∅)
    (hstep : s.step e = some s') : s'.Told := by
  cases e with
  | spawned =>
    obtain rfl := Option.some.inj hstep
    refine h.move (n := s.made) (fun m hmn => setPlace_of_ne _ _ hmn) rfl
      (Finset.Subset.refl _) (Finset.Subset.refl _) (fun hmem => ?_) (fun hp => by simp at hp)
      (fun hp => by simp at hp)
    have hlt : s.made < s.made := (hsound.made _).mp (by
      rcases h.called _ hmem with hp | hp <;> simp [hp])
    exact absurd hlt (lt_irrefl _)
  | polled n =>
    simp only [Decodes.step] at hstep
    split at hstep
    next hplace =>
      obtain rfl := Option.some.inj hstep
      exact Told.acquire { h with } (h.not_called hplace (by decide) (by decide))
    next hplace =>
      obtain rfl := Option.some.inj hstep
      exact Told.look { h with } (h.not_called hplace (by decide) (by decide))
    next =>
      obtain rfl := Option.some.inj hstep
      exact { h with }
    next => simp at hstep
  | answered n =>
    simp only [Decodes.step] at hstep
    obtain ⟨hplace, hstep⟩ := Option.ite_none_right_eq_some.mp hstep
    split at hstep
    next hcancelled =>
      obtain rfl := Option.some.inj hstep
      exact h.move (n := n) (fun m hmn => setPlace_of_ne _ _ hmn) rfl (Finset.Subset.refl _)
        (Finset.Subset.refl _) (fun _ => by simp) (fun _ => Or.inr hcancelled)
        (fun hp => by simp at hp)
    next =>
      obtain rfl := Option.some.inj hstep
      exact h.call hplace
  | returned n =>
    obtain ⟨hplace, hstep⟩ := Option.ite_none_right_eq_some.mp hstep
    obtain rfl := Option.some.inj hstep
    refine Told.release (h.move (n := n) (fun m hmn => setPlace_of_ne _ _ hmn) rfl
      (Finset.Subset.refl _) (Finset.Subset.refl _) (fun _ => by simp) (fun hp => by simp at hp)
      fun _ => ?_)
    exact (h.ended n hplace).imp_right Or.inl
  | cancelled n =>
    obtain ⟨-, hstep⟩ := Option.ite_none_right_eq_some.mp hstep
    obtain rfl := Option.some.inj hstep
    exact { h with
      ended := fun m hm => (h.ended m hm).imp_right (Finset.mem_insert_of_mem ·)
      answered := fun m hm =>
        (h.answered m hm).imp_right (Or.imp_left (Finset.mem_insert_of_mem ·)) }
  | dropped n =>
    simp only [Decodes.step] at hstep
    split at hstep
    next hplace =>
      obtain rfl := Option.some.inj hstep
      exact h.drop (h.not_called hplace (by decide) (by decide))
    next hplace =>
      obtain rfl := Option.some.inj hstep
      exact (h.drop (h.not_called hplace (by decide) (by decide))).giveUp
    next hplace =>
      obtain rfl := Option.some.inj hstep
      exact (h.drop (h.not_called hplace (by decide) (by decide))).release
    next => simp at hstep

/-- Nothing is left of the slots when no decode has one to take up or to give back. -/
theorem Sound.rest (h : s.Sound ∅) (hwoken : s.woken = ∅)
    (hidle : ∀ n, s.place n ≠ some .decoding ∧ s.place n ≠ some .ending) :
    s.inFlight = 0 ∧ ∀ n < s.made, s.place n = some .finished := by
  have hquiet : ∀ m, s.place m ≠ some .fresh ∧ m ∉ s.granted := fun m => by
    refine not_or.mp fun hnews => ?_
    have hmem := h.heard m (by simp) hnews
    simp [hwoken] at hmem
  have hholders : s.holders = ∅ := Finset.eq_empty_of_forall_notMem fun m hmem => by
    rcases h.mem_holders.mp hmem with hp | hp | hp
    · exact (hidle m).1 hp
    · exact (hidle m).2 hp
    · exact (hquiet m).2 hp
  have hcount := h.count
  rw [hholders, Finset.union_empty, Finset.card_empty] at hcount
  have hqueue : s.queue = [] := by
    by_contra hne
    have hbusy := h.fair.busy hne
    rw [hholders, Finset.union_empty, Finset.card_empty] at hbusy
    exact absurd hbusy (by decide)
  refine ⟨hcount, fun m hlt => ?_⟩
  obtain ⟨p, hp⟩ := Option.ne_none_iff_exists'.mp ((h.made m).mpr hlt)
  cases p with
  | fresh => exact absurd hp (hquiet m).1
  | waiting =>
    have hmem := (h.queued m (by simp)).mpr ⟨hp, (hquiet m).2⟩
    simp [hqueue] at hmem
  | decoding => exact absurd hp (hidle m).1
  | ending => exact absurd hp (hidle m).2
  | finished => exact hp

/-- The slots are rationed when nothing is in hand. -/
theorem Sound.rationed (h : s.Sound ∅) (htold : s.Told) : s.Rationed where
  counted := by simpa using h.count
  limited := by simpa using h.fair.limited
  busy hne := by simpa using h.fair.busy hne
  inOrder := h.fair.order
  queued n := h.queued n (by simp)
  heard n := h.heard n (by simp)
  once := htold.once
  answered := htold.answered
  atRest := h.rest

theorem Sound.init : Sound ∅ {} where
  made := by simp
  inHand := by simp
  fair := by
    constructor <;> simp [holders, MAX_IN_FLIGHT]
  count := by simp [holders]
  queued := by simp
  granted := by simp
  wakers := by simp
  heard := by simp
  asked := by simp

theorem Told.init : Told {} := by
  constructor <;> simp

@[simp] theorem admitted_called (s : Decodes) (n : ℕ) : (s.admitted n).called = s.called := by
  unfold admitted
  split
  · rw [release_called]
    rfl
  · rfl

@[simp] theorem admitted_cancelled (s : Decodes) (n : ℕ) :
    (s.admitted n).cancelled = s.cancelled := by
  unfold admitted
  split
  · rw [release_cancelled]
    rfl
  · rfl

theorem admitted_place (s : Decodes) {m n : ℕ} (hne : m ≠ n) :
    (s.admitted n).place m = s.place m := by
  unfold admitted
  split
  · rw [release_place]
    exact setPlace_of_ne s _ hne
  · exact setPlace_of_ne s _ hne

/-- A decode whose callback was not called, and is not to be. -/
def Silenced (s : Decodes) (n : ℕ) : Prop :=
  n ∉ s.called ∧ (n ∈ s.cancelled ∨ s.place n = some .finished)

/-- A poll calls nothing back, and leaves alone what is over. -/
theorem Silenced.acquire {m : ℕ} (h : s.Silenced m) (hmn : s.place m = some .finished → m ≠ n) :
    (s.acquire n).Silenced m := by
  unfold Decodes.acquire
  split
  · exact ⟨by simpa using h.1, h.2.imp (by simp) fun hp => by rwa [admitted_place _ (hmn hp)]⟩
  · exact ⟨h.1, h.2.imp id fun hp => by rwa [setPlace_of_ne _ _ (hmn hp)]⟩

theorem Silenced.look {m : ℕ} (h : s.Silenced m) (hmn : s.place m = some .finished → m ≠ n) :
    (s.look n).Silenced m := by
  unfold Decodes.look
  split
  · exact ⟨by simpa using h.1, h.2.imp (by simp) fun hp => by rwa [admitted_place _ (hmn hp)]⟩
  · exact h

theorem Silenced.release {m : ℕ} (h : s.Silenced m) : s.release.Silenced m := by
  unfold Silenced
  rwa [release_called, release_cancelled, release_place]

theorem Silenced.giveUp {m : ℕ} (h : s.Silenced m) : (s.giveUp n).Silenced m := by
  unfold Decodes.giveUp
  split
  · exact Silenced.release h
  · exact h

theorem Silenced.setPlace {m : ℕ} {p : Place} (h : s.Silenced m)
    (hmn : s.place m = some .finished → m ≠ n) : (s.setPlace n p).Silenced m :=
  ⟨h.1, h.2.imp id fun hp => by rwa [setPlace_of_ne _ _ (hmn hp)]⟩

/-- No step calls back a decode that was canceled, or is over. -/
theorem Silenced.next {s' : Decodes} {e : DecodeEvent} {m : ℕ} (h : s.Silenced m)
    (hsound : s.Sound ∅) (hstep : s.step e = some s') : s'.Silenced m := by
  have helse {k : ℕ} {p : Place} (hplace : s.place k = some p) (hp : p ≠ .finished) :
      s.place m = some .finished → m ≠ k := by
    rintro hover rfl
    exact hp (Option.some.inj (hplace.symm.trans hover))
  cases e with
  | spawned =>
    obtain rfl := Option.some.inj hstep
    refine Silenced.setPlace h fun hover heq => ?_
    have hplace : s.place m = some .finished := hover
    exact absurd ((hsound.made m).mp (by simp [hplace])) (by omega)
  | polled n =>
    simp only [Decodes.step] at hstep
    split at hstep
    next hplace =>
      obtain rfl := Option.some.inj hstep
      exact Silenced.acquire h (helse hplace (by decide))
    next hplace =>
      obtain rfl := Option.some.inj hstep
      exact Silenced.look h (helse hplace (by decide))
    next =>
      obtain rfl := Option.some.inj hstep
      exact h
    next => simp at hstep
  | answered n =>
    simp only [Decodes.step] at hstep
    obtain ⟨hplace, hstep⟩ := Option.ite_none_right_eq_some.mp hstep
    split at hstep
    next =>
      obtain rfl := Option.some.inj hstep
      exact h.setPlace (helse hplace (by decide))
    next huncancelled =>
      obtain rfl := Option.some.inj hstep
      have hmn : m ≠ n := by
        rintro rfl
        exact h.2.elim huncancelled fun hover => helse hplace (by decide) hover rfl
      exact Silenced.setPlace ⟨by simpa [hmn] using h.1, h.2⟩ (helse hplace (by decide))
  | returned n =>
    obtain ⟨hplace, hstep⟩ := Option.ite_none_right_eq_some.mp hstep
    obtain rfl := Option.some.inj hstep
    exact (h.setPlace (helse hplace (by decide))).release
  | cancelled n =>
    obtain ⟨-, hstep⟩ := Option.ite_none_right_eq_some.mp hstep
    obtain rfl := Option.some.inj hstep
    exact ⟨h.1, h.2.imp (Finset.mem_insert_of_mem ·) id⟩
  | dropped n =>
    simp only [Decodes.step] at hstep
    split at hstep
    next hplace =>
      obtain rfl := Option.some.inj hstep
      exact Silenced.setPlace h (helse hplace (by decide))
    next hplace =>
      obtain rfl := Option.some.inj hstep
      exact Silenced.giveUp (Silenced.setPlace h (helse hplace (by decide)))
    next hplace =>
      obtain rfl := Option.some.inj hstep
      exact Silenced.release (Silenced.setPlace h (helse hplace (by decide)))
    next => simp at hstep

end Decodes

/-- What holds of the slots and of the callbacks holds after every run. -/
theorem decoding_sound {is : List DecodeEvent} {s : Decodes} (hrun : decoding.run is = some s) :
    s.Sound ∅ ∧ s.Told :=
  Reactive.Process.invariant (P := decoding) (Q := fun s => s.Sound ∅ ∧ s.Told)
    ⟨Decodes.Sound.init, Decodes.Told.init⟩
    (fun _ _ _ h hstep => ⟨h.1.next hstep, h.2.next h.1 hstep⟩) hrun

theorem decoding_silenced {is more : List DecodeEvent} {s s' : Decodes} {n : ℕ}
    (hrun : decoding.run is = some s) (h : s.Silenced n)
    (hmore : decoding.run (is ++ more) = some s') : s'.Silenced n := by
  induction more using List.reverseRecOn generalizing s' with
  | nil =>
    rw [List.append_nil, hrun] at hmore
    exact Option.some.inj hmore ▸ h
  | append_singleton more e ih =>
    rw [← List.append_assoc] at hmore
    obtain ⟨s₀, hrun₀, hstep⟩ := Reactive.Process.run_snoc.mp hmore
    exact (ih hrun₀).next (decoding_sound hrun₀).1 hstep

/-- After every run the slots are rationed, and from then on no decode is called back that was
canceled before it was, or that is over. -/
theorem decoding_rationed {is : List DecodeEvent} {s : Decodes}
    (hrun : decoding.run is = some s) :
    s.Rationed ∧ ∀ n ∉ s.called, n ∈ s.cancelled ∨ s.place n = some .finished →
      ∀ more s', decoding.run (is ++ more) = some s' → n ∉ s'.called :=
  ⟨(decoding_sound hrun).1.rationed (decoding_sound hrun).2, fun _ hout hend _ _ hmore =>
    (decoding_silenced hrun ⟨hout, hend⟩ hmore).1⟩

/-- A fifth decode waits, is granted the slot of the first, and starts. -/
theorem fifth_rationed :
    ∃ s, decoding.run (List.replicate 5 .spawned ++ (List.range 5).map .polled ++
        [.answered 0, .returned 0, .polled 4]) = some s ∧
      (s.place 4, s.called) = (some .decoding, [0]) ∧ s.Rationed := by
  have hends : (decoding.run (List.replicate 5 .spawned ++ (List.range 5).map .polled ++
      [.answered 0, .returned 0, .polled 4])).map (fun s => (s.place 4, s.called)) =
      some (some .decoding, [0]) := by decide +kernel
  obtain ⟨s, hrun, hstate⟩ := Option.map_eq_some_iff.mp hends
  exact ⟨s, hrun, hstate, (decoding_rationed hrun).1⟩

end Gtkhx.Pictures
