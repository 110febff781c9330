import DrgbServer.Lib.Transition

/-! # `SetTimeout` and `CancelTimeout`

The timer of one socket. `cancel` and `expires_after` abort the waits that are pending; a
completion that is already queued stays queued, and a handler runs its callback unless the
wait was aborted. The calls on one timer do not overlap. `Close` sets `initiateClose` before
it cancels, and from then on `SetTimeout` returns at once. -/
namespace DrgbServer.Network
open DrgbServer.Lib.Transition

/-- A `steady_timer`. -/
structure SteadyTimer where
  /-- the numbers of the waits that are pending -/
  waits : List Nat
  /-- the completions that are queued, each with whether its wait was not aborted -/
  queued : List (Nat × Bool)
deriving DecidableEq

namespace SteadyTimer

def complete (timer : SteadyTimer) (success : Bool) : SteadyTimer where
  waits := []
  queued := timer.queued ++ timer.waits.map (·, success)

def cancel (timer : SteadyTimer) : SteadyTimer := timer.complete false

def expiresAfter (timer : SteadyTimer) : SteadyTimer := timer.complete false

def asyncWait (timer : SteadyTimer) (n : Nat) : SteadyTimer :=
  { timer with waits := timer.waits ++ [n] }

/-- The time is over. -/
def expire (timer : SteadyTimer) : SteadyTimer := timer.complete true

end SteadyTimer

structure Timeouts where
  initiateClose : Bool
  timer : SteadyTimer
  /-- the number of callbacks that `SetTimeout` was given -/
  issued : Nat
  /-- the callbacks below this number came before the last `CancelTimeout` or `SetTimeout`
  that has returned -/
  current : Nat
  /-- the callbacks that have run although they were below `current` -/
  late : List Nat
deriving DecidableEq

namespace Timeouts

inductive Label where
  | setTimeout
  | cancelTimeout
  | expire
  /-- the handler of the `k`-th of the queued completions runs -/
  | handle (k : Nat)
  /-- `Close` up to its `CancelTimeout` -/
  | initiateClose
deriving DecidableEq

def setTimeout (s : Timeouts) : Timeouts :=
  let t := { s with issued := s.issued + 1, current := s.issued }
  if s.initiateClose then t
  else { t with timer := s.timer.expiresAfter.asyncWait s.issued }

def cancelTimeout (s : Timeouts) : Timeouts :=
  { s with timer := s.timer.cancel, current := s.issued }

/-- The handler that `SetTimeout` gives to `async_wait`. -/
def handle (s : Timeouts) (k : Nat) : Option Timeouts :=
  s.timer.queued[k]?.map fun completion => { s with
    timer := { s.timer with queued := s.timer.queued.eraseIdx k }
    late := if completion.2 ∧ completion.1 < s.current then s.late ++ [completion.1] else s.late }

def step (s : Timeouts) : Label → Option Timeouts
  | .setTimeout => some s.setTimeout
  | .cancelTimeout => some s.cancelTimeout
  | .expire => some { s with timer := s.timer.expire }
  | .handle k => s.handle k
  | .initiateClose => some { s with initiateClose := true }

def start : Timeouts := ⟨false, ⟨[], []⟩, 0, 0, []⟩

/-- The timer and its handlers go on by themselves. -/
def Label.Elapses : Label → Prop
  | .expire | .handle _ => True
  | _ => False

/-- No callback has run after a later `CancelTimeout` or `SetTimeout` returned, and none
will, however the timer goes on. -/
def StaysCancelled (s : Timeouts) : Prop :=
  ∀ (more : List Label) (t : Timeouts), (∀ l ∈ more, l.Elapses) →
    run step s more = some t → t.late = []

/-- The condition on a step: what cancels the timer comes before the completion of the wait
is queued, and where it leaves the timer alone no wait is pending. -/
def settled (s : Timeouts) : Label → Bool
  | .setTimeout => s.timer.queued.all (!·.2) && (!s.initiateClose || s.timer.waits.isEmpty)
  | .cancelTimeout => s.timer.queued.all (!·.2)
  | _ => true

variable {s t : Timeouts}

/-! ## The callbacks that can still run -/

/-- No callback that can still run is out of date. -/
structure Fresh (s : Timeouts) : Prop where
  late : s.late = []
  waits : ∀ n ∈ s.timer.waits, s.current ≤ n ∧ n < s.issued
  queued : ∀ n success, (n, success) ∈ s.timer.queued →
    (success = true → s.current ≤ n) ∧ n < s.issued

theorem start_fresh : start.Fresh := ⟨rfl, by simp [start], by simp [start]⟩

theorem Fresh.expire (h : s.Fresh) : Fresh { s with timer := s.timer.expire } where
  late := h.late
  waits := by simp [SteadyTimer.expire, SteadyTimer.complete]
  queued n success hn := by
    rcases List.mem_append.mp hn with hq | hw
    · exact h.queued n success hq
    · obtain ⟨m, hm, heq⟩ := List.mem_map.mp hw
      cases heq
      exact ⟨fun _ => (h.waits n hm).1, (h.waits n hm).2⟩

theorem Fresh.handle (h : s.Fresh) {k : Nat} (hs : s.handle k = some t) : t.Fresh := by
  obtain ⟨⟨n, success⟩, hk, rfl⟩ := Option.map_eq_some_iff.mp hs
  have hn := h.queued n success (List.mem_of_getElem? hk)
  refine ⟨?_, h.waits, fun m b hm => h.queued m b (List.mem_of_mem_eraseIdx hm)⟩
  have hrun : ¬ (success = true ∧ n < s.current) := fun ⟨hok, hlt⟩ => by
    have := hn.1 hok
    omega
  simp only [if_neg hrun]
  exact h.late

/-- The completions of aborted waits run no callback. -/
theorem Fresh.cancelTimeout (h : s.Fresh) (hq : s.timer.queued.all (!·.2) = true) :
    s.cancelTimeout.Fresh where
  late := h.late
  waits := by simp [Timeouts.cancelTimeout, SteadyTimer.cancel, SteadyTimer.complete]
  queued n success hn := by
    rcases List.mem_append.mp hn with hold | hw
    · refine ⟨fun hok => ?_, (h.queued n success hold).2⟩
      have := List.all_eq_true.mp hq _ hold
      simp [hok] at this
    · obtain ⟨m, hm, heq⟩ := List.mem_map.mp hw
      cases heq
      exact ⟨nofun, (h.waits n hm).2⟩

theorem Fresh.setTimeout (h : s.Fresh) (hok : s.settled .setTimeout = true) :
    s.setTimeout.Fresh := by
  obtain ⟨hq, hw⟩ := Bool.and_eq_true_iff.mp hok
  have hcancelled := h.cancelTimeout hq
  unfold Timeouts.setTimeout
  split
  · rename_i hclose
    have hnone : s.timer.waits = [] := by simpa [hclose] using hw
    refine ⟨h.late, ?_, ?_⟩
    · rw [hnone]
      exact fun n hn => absurd hn List.not_mem_nil
    · intro n success hn
      have hlt := (h.queued n success hn).2
      refine ⟨fun hok => ?_, Nat.lt_succ_of_lt hlt⟩
      have := List.all_eq_true.mp hq _ hn
      simp [hok] at this
  · refine ⟨h.late, ?_, ?_⟩
    · intro n hn
      obtain rfl : n = s.issued := by
        simpa [SteadyTimer.expiresAfter, SteadyTimer.complete, SteadyTimer.asyncWait] using hn
      exact ⟨le_rfl, Nat.lt_succ_self _⟩
    · intro n success hn
      obtain ⟨hfresh, hlt⟩ := hcancelled.queued n success hn
      exact ⟨hfresh, Nat.lt_succ_of_lt hlt⟩

theorem step_fresh {l : Label} (h : s.Fresh) (hok : s.settled l = true) (hs : s.step l = some t) :
    t.Fresh := by
  cases l with
  | setTimeout =>
    cases hs
    exact h.setTimeout hok
  | cancelTimeout =>
    cases hs
    exact h.cancelTimeout hok
  | expire =>
    cases hs
    exact h.expire
  | handle k => exact h.handle hs
  | initiateClose =>
    cases hs
    exact ⟨h.late, h.waits, h.queued⟩

theorem Fresh.staysCancelled (h : s.Fresh) : s.StaysCancelled := by
  intro more t hmore hr
  refine (run_invariant_labels (I := Fresh) (fun s l t h hl hs => ?_) h hmore hr).late
  cases l with
  | expire | handle k => exact step_fresh h rfl hs
  | setTimeout | cancelTimeout | initiateClose => exact hl.elim

/-! ## A callback out of date -/

theorem StaysCancelled.step {l : Label} (h : s.StaysCancelled) (hl : l.Elapses)
    (hs : s.step l = some t) : t.StaysCancelled := by
  intro more u hmore hr
  refine h (l :: more) u (List.forall_mem_cons.mpr ⟨hl, hmore⟩) ?_
  rw [run_cons_of_some hs]
  exact hr

/-- A completion that was queued in time runs its callback. -/
theorem not_staysCancelled_of_queued {n : Nat} (hq : (n, true) ∈ s.timer.queued)
    (hn : n < s.current) : ¬ s.StaysCancelled := by
  intro h
  obtain ⟨k, hk⟩ := List.mem_iff_getElem?.mp hq
  have hs : s.step (.handle k) = some { s with
      timer := { s.timer with queued := s.timer.queued.eraseIdx k }
      late := s.late ++ [n] } := by
    rw [Timeouts.step, Timeouts.handle, hk, Option.map_some, if_pos ⟨rfl, hn⟩]
  have hlate := h.step (l := .handle k) trivial hs [] _ (by simp) rfl
  simp at hlate

theorem not_staysCancelled_of_wait {n : Nat} (hw : n ∈ s.timer.waits) (hn : n < s.current) :
    ¬ s.StaysCancelled := by
  intro h
  have hexpired : StaysCancelled { s with timer := s.timer.expire } :=
    h.step (l := .expire) trivial rfl
  refine not_staysCancelled_of_queued (s := { s with timer := s.timer.expire }) (n := n) ?_ hn
    hexpired
  exact List.mem_append_right _ (List.mem_map_of_mem hw)

/-- A step that does not meet the condition leaves a callback that can run too late. -/
theorem not_staysCancelled {l : Label} (h : s.Fresh) (hok : ¬ s.settled l = true)
    (hs : s.step l = some t) : ¬ t.StaysCancelled := by
  have hqueued : ¬ s.timer.queued.all (!·.2) = true →
      ∃ n, (n, true) ∈ s.timer.queued ∧ n < s.issued := by
    intro hall
    rw [List.all_eq_true] at hall
    push Not at hall
    obtain ⟨⟨n, success⟩, hn, hsuccess⟩ := hall
    obtain rfl : success = true := by simpa using hsuccess
    exact ⟨n, hn, (h.queued n true hn).2⟩
  cases l with
  | cancelTimeout =>
    cases hs
    obtain ⟨n, hn, hlt⟩ := hqueued hok
    exact not_staysCancelled_of_queued (List.mem_append_left _ hn) hlt
  | setTimeout =>
    cases hs
    unfold setTimeout
    by_cases hq : s.timer.queued.all (!·.2) = true
    · have hstuck : ¬ (!s.initiateClose || s.timer.waits.isEmpty) = true :=
        fun hw => hok (Bool.and_eq_true_iff.mpr ⟨hq, hw⟩)
      obtain ⟨hclose, hw⟩ : s.initiateClose = true ∧ s.timer.waits ≠ [] := by
        simpa using hstuck
      obtain ⟨n, hn⟩ := List.exists_mem_of_ne_nil _ hw
      rw [if_pos hclose]
      exact not_staysCancelled_of_wait (n := n) hn (h.waits n hn).2
    · obtain ⟨n, hn, hlt⟩ := hqueued hq
      split
      · exact not_staysCancelled_of_queued (n := n) hn hlt
      · exact not_staysCancelled_of_queued (n := n) (List.mem_append_left _ hn) hlt
  | expire => exact absurd rfl hok
  | handle k => exact absurd rfl hok
  | initiateClose => exact absurd rfl hok

/-- **A cancelled timeout stays cancelled** all along a run if and only if no expired wait is
queued when `CancelTimeout` or `SetTimeout` comes, and no wait is pending when `SetTimeout`
comes after `Close` has begun. -/
theorem stays_cancelled_iff (labels : List Label) :
    Always step StaysCancelled start labels ↔
      Meets step (fun s l => s.settled l = true) start labels :=
  always_iff_meets (fun _ h => h.staysCancelled) (fun _ _ _ h hok hs => step_fresh h hok hs)
    (fun _ _ _ h hok hs => not_staysCancelled h hok hs) labels start_fresh

/-- The timer expires, the packet that cancels it is handled first: the callback runs. -/
theorem cancelled_callback_runs :
    ∃ s, run step start [.setTimeout, .expire, .cancelTimeout, .handle 0] = some s ∧
      s.late = [0] :=
  exists_run_of_any (by decide)

end Timeouts
end DrgbServer.Network
