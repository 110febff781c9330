import DrgbServer.Lib.Monitor

/-! # `ThreadExceptHandler` and `MyServer::Join`

The threads of a server hand their exceptions to the root of the chain of handlers they
belong to, where the threads in `Join` take and log them. `ThrowThreadException` changes the
queue under the mutex; `GracefulWakeUp` sets its flag without it. -/
namespace DrgbServer.Threads
open DrgbServer.Lib DrgbServer.Lib.Transition

/-- A handler without parent, or one below another. -/
inductive ThreadExceptHandler where
  | root
  | child (parent : ThreadExceptHandler)

/-- What the root handler and the server share. -/
structure Exceptions (ε : Type*) where
  exceptionExps : List ε
  isGracefullyStop : Bool
  isRunning : Bool
  /-- everything thrown so far, and what was rethrown in `Join` -/
  thrown : List ε
  taken : List ε

namespace Exceptions
variable {ε : Type*}

/-- A running server. -/
def started : Exceptions ε := ⟨[], false, true, [], []⟩

/-- The chain of parents, then the push. -/
def throwThreadException (x : Exceptions ε) (e : ε) : ThreadExceptHandler → Exceptions ε
  | .child parent => x.throwThreadException e parent
  | .root =>
    { x with exceptionExps := x.exceptionExps ++ [e], thrown := x.thrown ++ [e] }

/-- The rest of `WaitForThreadException` once the wait is over. -/
def rethrow (x : Exceptions ε) : Exceptions ε :=
  match x.exceptionExps with
  | [] => x
  | e :: rest => { x with exceptionExps := rest, taken := x.taken ++ [e] }

/-- What the other threads do. -/
inductive Op (ε : Type*) where
  | throwThreadException (handler : ThreadExceptHandler) (e : ε)
  /-- the first step of `Stop` -/
  | stop
  /-- the last one -/
  | gracefulWakeUp

def apply : Op ε → Exceptions ε → Exceptions ε
  | .throwThreadException h e, x => x.throwThreadException e h
  | .stop, x => { x with isRunning := false }
  | .gracefulWakeUp, x => { x with isGracefullyStop := true }

/-- `WaitForThreadException` in the loop of `Join`. -/
def monitor : Monitor (Exceptions ε) (Op ε) where
  ready x := !x.exceptionExps.isEmpty || x.isGracefullyStop
  wanted := isRunning
  take := rethrow
  change := apply
  guarded
    | .throwThreadException _ _ => true
    | _ => false
  notifies
    | .stop => false
    | _ => true

/-- There is an exception to log. -/
def waiting (x : Exceptions ε) : Bool := !x.exceptionExps.isEmpty

variable {x : Exceptions ε} {h : ThreadExceptHandler} {e : ε}

/-- Whichever handler it is thrown at, the root has it. -/
theorem throwThreadException_eq (x : Exceptions ε) (e : ε) (h : ThreadExceptHandler) :
    x.throwThreadException e h =
      { x with exceptionExps := x.exceptionExps ++ [e], thrown := x.thrown ++ [e] } := by
  induction h with
  | root => rfl
  | child parent ih => exact ih

@[simp] theorem isGracefullyStop_rethrow (x : Exceptions ε) :
    x.rethrow.isGracefullyStop = x.isGracefullyStop := by
  unfold rethrow
  split <;> rfl

theorem waiting_of_rethrow (hw : x.rethrow.waiting = true) : x.waiting = true := by
  unfold rethrow at hw
  split at hw
  · exact hw
  · rename_i hx
    rw [waiting, hx]
    rfl

theorem announced_waiting : (monitor (ε := ε)).Announced waiting where
  change a _ hn hw := by
    cases a with
    | stop => exact hw
    | _ => cases hn
  take _ := waiting_of_rethrow

theorem announced_ready : (monitor (ε := ε)).Announced monitor.ready where
  change a _ hn hw := by
    cases a with
    | stop => exact hw
    | _ => cases hn
  take x hr := by
    have hr : (x.rethrow.waiting || x.rethrow.isGracefullyStop) = true := hr
    rw [isGracefullyStop_rethrow, Bool.or_eq_true] at hr
    show (x.waiting || x.isGracefullyStop) = true
    rcases hr with hw | hf
    · rw [waiting_of_rethrow hw, Bool.true_or]
    · rw [hf, Bool.or_true]

/-! ## Every exception is taken once, in order -/

def Ordered (x : Exceptions ε) : Prop := x.taken ++ x.exceptionExps = x.thrown

theorem Ordered.rethrow (h : x.Ordered) : x.rethrow.Ordered := by
  unfold Exceptions.rethrow
  split
  · exact h
  · rename_i e rest hx
    have hthrown : x.taken ++ (e :: rest) = x.thrown := hx ▸ h
    show (x.taken ++ [e]) ++ rest = x.thrown
    rw [← hthrown, List.append_assoc]
    rfl

theorem Ordered.apply (h : x.Ordered) : ∀ a : Op ε, (apply a x).Ordered
  | .throwThreadException handler e => by
    rw [Exceptions.apply, throwThreadException_eq]
    show x.taken ++ (x.exceptionExps ++ [e]) = x.thrown ++ [e]
    rw [← List.append_assoc, h]
  | .stop => h
  | .gracefulWakeUp => h

end Exceptions
open Exceptions

variable {ε : Type*} {s t : Monitor.State (Exceptions ε)} {l : Monitor.Label (Op ε)}

/-- No exception is lost or taken twice or out of order, and no thread in `Join` sleeps on
one: it is awake, or a notification is on its way. -/
structure Forwarded (s : Monitor.State (Exceptions ε)) : Prop where
  ordered : s.shared.Ordered
  awake : ∀ i, s.place i = .asleep → s.shared.exceptionExps ≠ [] → 0 < s.pending

/-- The two parts of the invariant. -/
structure Handled (s : Monitor.State (Exceptions ε)) : Prop where
  ordered : s.shared.Ordered
  awake : Monitor.Awake waiting s

theorem Handled.forwarded (h : Handled s) : Forwarded s where
  ordered := h.ordered
  awake i hi hne := by
    refine h.awake.asleep i hi ?_
    rw [waiting, List.isEmpty_eq_false_iff.mpr hne]
    rfl

theorem awake_step (h : Monitor.Awake waiting s) (hr : monitor.step s l = some t) :
    Monitor.Awake waiting t := by
  refine h.step announced_waiting (fun x hw => ?_) (fun a x hg hw => ?_) hr
  · show (x.waiting || x.isGracefullyStop) = true
    rw [hw, Bool.true_or]
  · cases a with
    | throwThreadException => cases hg
    | _ => exact hw

/-- What a step does to the exceptions. -/
theorem shared_step (hr : monitor.step s l = some t) :
    t.shared = s.shared ∨ t.shared = s.shared.rethrow ∨ ∃ a, t.shared = apply a s.shared := by
  cases l with
  | leave i =>
    simp only [Monitor.step, Option.ite_none_right_eq_some, Option.some.injEq] at hr
    obtain ⟨-, rfl⟩ := hr
    exact .inr (.inl rfl)
  | change a =>
    simp only [Monitor.step, Option.ite_none_left_eq_some, Option.some.injEq] at hr
    obtain ⟨-, rfl⟩ := hr
    exact .inr (.inr ⟨a, rfl⟩)
  | notify =>
    simp only [Monitor.step, Option.ite_none_left_eq_some, Option.some.injEq] at hr
    obtain ⟨-, rfl⟩ := hr
    exact .inl rfl
  | _ =>
    simp only [Monitor.step, Option.ite_none_right_eq_some, Option.some.injEq] at hr
    obtain ⟨-, rfl⟩ := hr
    exact .inl rfl

theorem Handled.step (h : Handled s) (hr : monitor.step s l = some t) : Handled t where
  ordered := by
    rcases shared_step hr with heq | heq | ⟨a, heq⟩ <;> rw [heq]
    · exact h.ordered
    · exact h.ordered.rethrow
    · exact h.ordered.apply a
  awake := awake_step h.awake hr

theorem handled_start : Handled (Monitor.State.start (started (ε := ε))) :=
  ⟨rfl, Monitor.awake_start _ _⟩

/-- **Exceptions reach `Join`**, from any number of threads and handlers, in every
interleaving with any number of threads in `Join` and with `Stop`. -/
theorem always_forwarded (ls : List (Monitor.Label (Op ε))) :
    Always monitor.step Forwarded (Monitor.State.start started) ls :=
  always_of_meets (fun _ h => h.forwarded) (fun _ _ _ h _ hr => h.step hr) handled_start
    (meets_true _ _)

/-! ## Stopping -/

/-- A thread in `Join` that sleeps, or is about to, has a notification to come once there is
an exception or the server has been stopped. -/
def Woken (s : Monitor.State (Exceptions ε)) : Prop :=
  ∀ i, s.place i = .asleep ∨ s.place i = .dozing →
    s.shared.exceptionExps ≠ [] ∨ s.shared.isGracefullyStop = true → 0 < s.pending

/-- The condition on a step: the last notification after `GracefulWakeUp` has set its flag
finds no thread between its test of the flag and its sleep. -/
def OutsideGap (s : Monitor.State (Exceptions ε)) : Monitor.Label (Op ε) → Prop
  | .notify => s.pending = 1 → s.shared.isGracefullyStop = true → ∀ i, s.place i ≠ .dozing
  | _ => True

theorem ready_iff (x : Exceptions ε) : monitor.ready x = true ↔
    x.exceptionExps ≠ [] ∨ x.isGracefullyStop = true := by
  show (!x.exceptionExps.isEmpty || x.isGracefullyStop) = true ↔ _
  rw [Bool.or_eq_true, Bool.not_eq_true', List.isEmpty_eq_false_iff]

theorem woken_iff (s : Monitor.State (Exceptions ε)) : Woken s ↔ monitor.Attentive s :=
  forall_congr' fun _ => by rw [ready_iff]

/-- A thread in the gap has seen no exception, and none can have come since. -/
theorem outsideGap_iff (h : Monitor.Awake waiting s) :
    OutsideGap s l ↔ monitor.Timely s l := by
  cases l with
  | notify =>
    constructor
    · intro hgap hone hready i hi
      have hempty : s.shared.exceptionExps = [] := by
        simpa [waiting] using h.dozing i hi
      exact hgap hone (((ready_iff _).mp hready).resolve_left (absurd hempty)) i hi
    · intro htimely hone hstop
      exact htimely hone ((ready_iff _).mpr (.inr hstop))
  | _ => exact Iff.rfl

/-- **`Stop` wakes every thread in `Join` exactly when** its notification is not made in the
gap between a thread's test and its sleep, which nothing prevents: `GracefulWakeUp` does not
take the mutex. -/
theorem always_woken_iff (ls : List (Monitor.Label (Op ε))) :
    Always monitor.step Woken (Monitor.State.start started) ls ↔
      Meets monitor.step OutsideGap (Monitor.State.start started) ls := by
  have hstart : Monitor.Awake waiting (Monitor.State.start (started (ε := ε))) :=
    Monitor.awake_start _ _
  rw [funext fun s => propext (woken_iff s), Monitor.always_attentive_iff announced_ready]
  constructor
  · exact meets_of_meets (I := Monitor.Awake waiting) (fun _ _ h => (outsideGap_iff h).mpr)
      (fun _ _ _ h _ hr => awake_step h hr) hstart
  · exact meets_of_meets (I := Monitor.Awake waiting) (fun _ _ h => (outsideGap_iff h).mp)
      (fun _ _ _ h _ hr => awake_step h hr) hstart

/-- `Stop` in the gap: the server has ended and the thread in `Join` sleeps on. -/
example : (run monitor.step (Monitor.State.start (started (ε := Nat)))
    [.call 0, .lock 0, .test 0, .change .stop, .change .gracefulWakeUp, .notify, .sleep 0]).map
      (fun s => (s.place 0, s.pending, s.shared.isRunning)) = some (.asleep, 0, false) := by
  decide

end DrgbServer.Threads
