import DrgbServer.Lib.Transition

/-! # Waiting on a condition variable

Any number of threads wait, under one mutex, for a predicate of a shared state, and others
change that state, with the mutex or without it, and then notify. What a waiter does is cut
where another thread can come in between: it has the mutex from its test of the predicate to
its sleep, but a change that is made without the mutex does not wait for that. -/
namespace DrgbServer.Lib

/-- What is waited for, and how it is changed. -/
structure Monitor (σ α : Type*) where
  ready : σ → Bool
  /-- the threads call `wait` again as long as this holds -/
  wanted : σ → Bool
  /-- what a waiter does under the mutex when it has found the predicate true -/
  take : σ → σ
  change : α → σ → σ
  /-- the change is made under the mutex -/
  guarded : α → Bool
  /-- a notification follows the change -/
  notifies : α → Bool

namespace Monitor
open Transition

/-- Where a thread is in `wait`. -/
inductive Place where
  | outside
  | locking
  | testing
  /-- the test has failed, the mutex is still held -/
  | dozing
  | asleep
  | inside
deriving DecidableEq

/-- The thread has the mutex. -/
def Place.holds : Place → Bool
  | .testing | .dozing | .inside => true
  | .outside | .locking | .asleep => false

structure State (σ : Type*) where
  shared : σ
  owner : Option Nat
  place : Nat → Place
  /-- the calls of `notify_all` still to come -/
  pending : Nat

inductive Label (α : Type*) where
  | call (i : Nat)
  | lock (i : Nat)
  | test (i : Nat)
  | sleep (i : Nat)
  /-- a spurious one -/
  | wake (i : Nat)
  | leave (i : Nat)
  | change (a : α)
  | notify

variable {σ α : Type*}

namespace State

/-- Nobody has called `wait` yet. -/
def start (shared : σ) : State σ := ⟨shared, none, fun _ => .outside, 0⟩

def move (s : State σ) (i : Nat) (p : Place) (owner : Option Nat) : State σ :=
  { s with place := Function.update s.place i p, owner }

/-- `notify_all`. -/
def notified (s : State σ) : State σ :=
  { s with
    place := fun i => if s.place i = .asleep then .locking else s.place i
    pending := s.pending - 1 }

end State

open State

def step (M : Monitor σ α) (s : State σ) : Label α → Option (State σ)
  | .call i =>
    if s.place i = .outside ∧ M.wanted s.shared = true then some (s.move i .locking s.owner)
    else none
  | .lock i =>
    if s.place i = .locking ∧ s.owner = none then some (s.move i .testing (some i)) else none
  | .test i =>
    if s.place i = .testing then
      some (s.move i (if M.ready s.shared then .inside else .dozing) s.owner)
    else none
  | .sleep i => if s.place i = .dozing then some (s.move i .asleep none) else none
  | .wake i => if s.place i = .asleep then some (s.move i .locking s.owner) else none
  | .leave i =>
    if s.place i = .inside then
      some { s.move i .outside none with shared := M.take s.shared }
    else none
  | .change a =>
    if M.guarded a = true ∧ s.owner ≠ none then none
    else
      some { s with
        shared := M.change a s.shared
        pending := if M.notifies a then s.pending + 1 else s.pending }
  | .notify => if s.pending = 0 then none else some s.notified

variable {M : Monitor σ α} {s t : State σ} {l : Label α} {i j : Nat} {part : σ → Bool}

/-- The mutex belongs to the thread between `lock` and `sleep` or `leave`. -/
def Exclusive (s : State σ) : Prop := ∀ i, (s.place i).holds = true ↔ s.owner = some i

/-- The thread gets the mutex, keeps it, or gives it back, as its place says. -/
theorem Exclusive.move {p : Place} {owner : Option Nat} (h : Exclusive s)
    (hself : p.holds = true ↔ owner = some i)
    (hother : ∀ j, j ≠ i → (s.owner = some j ↔ owner = some j)) : Exclusive (s.move i p owner) := by
  intro j
  by_cases hij : j = i
  · subst hij
    simpa [State.move] using hself
  · simpa [State.move, hij] using (h j).trans (hother j hij)

theorem Exclusive.step (h : Exclusive s) (hr : M.step s l = some t) : Exclusive t := by
  have hfree : ∀ {i j : Nat}, (s.place i).holds = true → j ≠ i →
      (s.owner = some j ↔ (none : Option Nat) = some j) := by
    intro i j hi hj
    rw [(h i).mp hi]
    simp [Ne.symm hj]
  cases l with
  | call i =>
    simp only [Monitor.step, Option.ite_none_right_eq_some, Option.some.injEq] at hr
    obtain ⟨⟨hp, -⟩, rfl⟩ := hr
    refine h.move ?_ fun _ _ => Iff.rfl
    rw [← h i, hp]
    rfl
  | lock i =>
    simp only [Monitor.step, Option.ite_none_right_eq_some, Option.some.injEq] at hr
    obtain ⟨⟨-, ho⟩, rfl⟩ := hr
    refine h.move (by simp [Place.holds]) fun j hj => ?_
    rw [ho]
    simp [Ne.symm hj]
  | test i =>
    simp only [Monitor.step, Option.ite_none_right_eq_some, Option.some.injEq] at hr
    obtain ⟨hp, rfl⟩ := hr
    refine h.move ?_ fun _ _ => Iff.rfl
    rw [← h i, hp]
    split <;> rfl
  | sleep i =>
    simp only [Monitor.step, Option.ite_none_right_eq_some, Option.some.injEq] at hr
    obtain ⟨hp, rfl⟩ := hr
    exact h.move (by simp [Place.holds]) fun j hj => hfree (by rw [hp]; rfl) hj
  | wake i =>
    simp only [Monitor.step, Option.ite_none_right_eq_some, Option.some.injEq] at hr
    obtain ⟨hp, rfl⟩ := hr
    refine h.move ?_ fun _ _ => Iff.rfl
    rw [← h i, hp]
    rfl
  | leave i =>
    simp only [Monitor.step, Option.ite_none_right_eq_some, Option.some.injEq] at hr
    obtain ⟨hp, rfl⟩ := hr
    have hmoved : Exclusive (s.move i .outside none) :=
      h.move (by simp [Place.holds]) fun j hj => hfree (by rw [hp]; rfl) hj
    exact hmoved
  | change a =>
    simp only [Monitor.step, Option.ite_none_left_eq_some, Option.some.injEq] at hr
    obtain ⟨-, rfl⟩ := hr
    exact h
  | notify =>
    simp only [Monitor.step, Option.ite_none_left_eq_some, Option.some.injEq] at hr
    obtain ⟨-, rfl⟩ := hr
    intro j
    simp only [notified]
    split
    · rename_i hp
      rw [← h j, hp]
      rfl
    · exact h j

/-! ## The changes under the mutex -/

/-- The predicate becomes true only by changes that a notification follows. -/
structure Announced (M : Monitor σ α) (part : σ → Bool) : Prop where
  change : ∀ a s, M.notifies a = false → part (M.change a s) = true → part s = true
  take : ∀ s, part (M.take s) = true → part s = true

/-- Nobody sleeps on a predicate that is true with no notification on its way. -/
structure Awake (part : σ → Bool) (s : State σ) : Prop where
  exclusive : Exclusive s
  asleep : ∀ i, s.place i = .asleep → part s.shared = true → 0 < s.pending
  dozing : ∀ i, s.place i = .dozing → part s.shared = false

theorem awake_start (part : σ → Bool) (shared : σ) : Awake part (State.start shared) :=
  ⟨fun _ => by simp [State.start, Place.holds], fun _ h => by simp [State.start] at h,
    fun _ h => by simp [State.start] at h⟩

/-- A thread moves to a place that is neither of the two. -/
theorem Awake.move {p : Place} {owner : Option Nat} (h : Awake part s)
    (hx : Exclusive (s.move i p owner)) (ha : p ≠ .asleep) (hd : p ≠ .dozing) :
    Awake part (s.move i p owner) := by
  refine ⟨hx, fun j hj hp => ?_, fun j hj => ?_⟩
  · by_cases hij : j = i
    · subst hij
      simp [State.move, ha] at hj
    · exact h.asleep j (by simpa [State.move, hij] using hj) hp
  · by_cases hij : j = i
    · subst hij
      simp [State.move, hd] at hj
    · exact h.dozing j (by simpa [State.move, hij] using hj)

/-- **Nothing is overslept that changes under the mutex.** -/
theorem Awake.step (hann : M.Announced part) (hready : ∀ s, part s = true → M.ready s = true)
    (hguard : ∀ a s, M.guarded a = false → part (M.change a s) = true → part s = true)
    (h : Awake part s) (hr : M.step s l = some t) : Awake part t := by
  have hx := h.exclusive.step hr
  cases l with
  | call i =>
    simp only [Monitor.step, Option.ite_none_right_eq_some, Option.some.injEq] at hr
    obtain ⟨-, rfl⟩ := hr
    exact h.move hx nofun nofun
  | lock i =>
    simp only [Monitor.step, Option.ite_none_right_eq_some, Option.some.injEq] at hr
    obtain ⟨-, rfl⟩ := hr
    exact h.move hx nofun nofun
  | test i =>
    simp only [Monitor.step, Option.ite_none_right_eq_some, Option.some.injEq] at hr
    obtain ⟨hp, rfl⟩ := hr
    by_cases hready' : M.ready s.shared = true
    · rw [if_pos hready'] at hx ⊢
      exact h.move hx nofun nofun
    · rw [if_neg hready'] at hx ⊢
      have hpart : part s.shared = false := by
        by_contra hp
        exact hready' (hready _ (by simpa using hp))
      refine ⟨hx, fun j _ hp => ?_, fun j _ => hpart⟩
      exact absurd hp (by simpa [State.move] using hpart)
  | sleep i =>
    simp only [Monitor.step, Option.ite_none_right_eq_some, Option.some.injEq] at hr
    obtain ⟨hp, rfl⟩ := hr
    have hpart := h.dozing i hp
    refine ⟨hx, fun j _ hp => ?_, fun j _ => hpart⟩
    exact absurd hp (by simpa [State.move] using hpart)
  | wake i =>
    simp only [Monitor.step, Option.ite_none_right_eq_some, Option.some.injEq] at hr
    obtain ⟨-, rfl⟩ := hr
    exact h.move hx nofun nofun
  | leave i =>
    simp only [Monitor.step, Option.ite_none_right_eq_some, Option.some.injEq] at hr
    obtain ⟨-, rfl⟩ := hr
    have hmoved : Awake part (s.move i .outside none) := h.move hx nofun nofun
    refine ⟨hx, fun j hj hp => hmoved.asleep j hj (hann.take _ hp), fun j hj => ?_⟩
    by_contra hp
    have hpart : part s.shared = false := hmoved.dozing j hj
    rw [hann.take _ (eq_true_of_ne_false hp)] at hpart
    cases hpart
  | change a =>
    simp only [Monitor.step, Option.ite_none_left_eq_some, Option.some.injEq] at hr
    obtain ⟨hfree, rfl⟩ := hr
    refine ⟨hx, fun j hj hp => ?_, fun j hj => ?_⟩
    · show 0 < if M.notifies a then s.pending + 1 else s.pending
      split
      · omega
      · rename_i hn
        exact h.asleep j hj (hann.change a _ (by simpa using hn) hp)
    · -- while it dozes the thread has the mutex, so the change did not need it
      have hheld : s.owner = some j :=
        (h.exclusive j).mp (by rw [show s.place j = .dozing from hj]; rfl)
      have hbare : M.guarded a = false := by
        by_contra hg
        exact hfree ⟨by simpa using hg, by simp [hheld]⟩
      by_contra hp
      have hpart := h.dozing j hj
      rw [hguard a _ hbare (eq_true_of_ne_false hp)] at hpart
      cases hpart
  | notify =>
    simp only [Monitor.step, Option.ite_none_left_eq_some, Option.some.injEq] at hr
    obtain ⟨-, rfl⟩ := hr
    refine ⟨hx, fun j hj => ?_, fun j hj => ?_⟩
    · simp only [notified] at hj
      split at hj
      · cases hj
      · rename_i hne
        exact absurd hj hne
    · simp only [notified] at hj
      split at hj
      · cases hj
      · exact h.dozing j hj

/-! ## The changes without it -/

/-- No thread that sleeps, or is about to, is missed by the last notification. -/
def Attentive (M : Monitor σ α) (s : State σ) : Prop :=
  ∀ i, s.place i = .asleep ∨ s.place i = .dozing → M.ready s.shared = true → 0 < s.pending

/-- The condition on a step: the last `notify_all` on its way is not made between a thread's
failed test and its sleep, unless the predicate is false. -/
def Timely (M : Monitor σ α) (s : State σ) : Label α → Prop
  | .notify => s.pending = 1 → M.ready s.shared = true → ∀ i, s.place i ≠ .dozing
  | _ => True

theorem attentive_start (M : Monitor σ α) (shared : σ) : M.Attentive (State.start shared) :=
  fun _ h => by simp [State.start] at h

theorem Attentive.move {p : Place} {owner : Option Nat} (h : M.Attentive s)
    (hp : p = .asleep ∨ p = .dozing → s.place i = .asleep ∨ s.place i = .dozing) :
    M.Attentive (s.move i p owner) := by
  intro j hj
  by_cases hij : j = i
  · subst hij
    exact h j (hp (by simpa [State.move] using hj))
  · exact h j (by simpa [State.move, hij] using hj)

theorem Attentive.step (hann : M.Announced M.ready) (h : M.Attentive s) (hl : M.Timely s l)
    (hr : M.step s l = some t) : M.Attentive t := by
  cases l with
  | call i =>
    simp only [Monitor.step, Option.ite_none_right_eq_some, Option.some.injEq] at hr
    obtain ⟨-, rfl⟩ := hr
    exact h.move (by simp)
  | lock i =>
    simp only [Monitor.step, Option.ite_none_right_eq_some, Option.some.injEq] at hr
    obtain ⟨-, rfl⟩ := hr
    exact h.move (by simp)
  | test i =>
    simp only [Monitor.step, Option.ite_none_right_eq_some, Option.some.injEq] at hr
    obtain ⟨-, rfl⟩ := hr
    split
    · exact h.move (by simp)
    · rename_i hready
      exact fun j _ hp => absurd hp hready
  | sleep i =>
    simp only [Monitor.step, Option.ite_none_right_eq_some, Option.some.injEq] at hr
    obtain ⟨hp, rfl⟩ := hr
    exact h.move (by simp [hp])
  | wake i =>
    simp only [Monitor.step, Option.ite_none_right_eq_some, Option.some.injEq] at hr
    obtain ⟨-, rfl⟩ := hr
    exact h.move (by simp)
  | leave i =>
    simp only [Monitor.step, Option.ite_none_right_eq_some, Option.some.injEq] at hr
    obtain ⟨-, rfl⟩ := hr
    have hmoved : M.Attentive (s.move i .outside none) := h.move (by simp)
    exact fun j hj hp => hmoved j hj (hann.take _ hp)
  | change a =>
    simp only [Monitor.step, Option.ite_none_left_eq_some, Option.some.injEq] at hr
    obtain ⟨-, rfl⟩ := hr
    intro j hj hp
    show 0 < if M.notifies a then s.pending + 1 else s.pending
    split
    · omega
    · rename_i hn
      exact h j hj (hann.change a _ (by simpa using hn) hp)
  | notify =>
    simp only [Monitor.step, Option.ite_none_left_eq_some, Option.some.injEq] at hr
    obtain ⟨hpending, rfl⟩ := hr
    intro j hj hp
    show 0 < s.pending - 1
    have hdozing : s.place j = .dozing := by
      simp only [notified] at hj
      split at hj
      · simp at hj
      · rename_i hne
        exact hj.resolve_left hne
    have hmore : s.pending ≠ 1 := fun hone => hl hone hp j hdozing
    omega

theorem not_attentive_of_not_timely (hl : ¬ M.Timely s l) (hr : M.step s l = some t) :
    ¬ M.Attentive t := by
  cases l with
  | notify =>
    simp only [Timely, not_forall, not_not] at hl
    obtain ⟨hone, hready, i, hdozing⟩ := hl
    simp only [Monitor.step, Option.ite_none_left_eq_some, Option.some.injEq] at hr
    obtain ⟨-, rfl⟩ := hr
    intro h
    have hmore : 0 < s.pending - 1 := h i (.inr (by simp [notified, hdozing])) hready
    omega
  | _ => exact absurd trivial hl

/-- **When a notification is missed**: exactly when some run has one made in the gap between
a failed test and the sleep. -/
theorem always_attentive_iff (hann : M.Announced M.ready) (shared : σ) (ls : List (Label α)) :
    Always M.step M.Attentive (State.start shared) ls ↔
      Meets M.step M.Timely (State.start shared) ls :=
  always_iff_meets (fun _ h => h) (fun _ _ _ h hl hr => h.step hann hl hr)
    (fun _ _ _ _ hl hr => not_attentive_of_not_timely hl hr) ls (attentive_start M shared)

end Monitor
end DrgbServer.Lib
