import DrgbServer.Lib.Transition
import DrgbServer.Network.MyClientSocket
import DrgbServer.Redis.MyRedis

/-! # `SessionProcess`: keeping a client and its session alive

Every half `SESSION_TIMEOUT` the timer of a socket has the session refreshed in Redis, whose
keys live for a whole one, and a heartbeat sent, unless the client left the last ones
unanswered. `RefreshInfo` fails when the keys are gone, when they name another server, and when
another handler writes to them between its `WATCH` and its `EXEC`; a lookup does that too, since it
renews the keys. Time is in milliseconds; callbacks take time and start late. -/
namespace DrgbServer.Servers
open DrgbServer.Network DrgbServer.Lib.Transition
open DrgbServer.Redis (sessionTimeout)

/-- The three servers with a `SessionProcess`. `MyAuth` has no session to refresh, and
`MyBattle` binds its own to a timer first. -/
inductive Keeper where
  | auth
  | matching
  | battle
deriving DecidableEq

structure Session where
  keeper : Keeper
  now : Nat
  /-- the last moment the keys of the session live -/
  deadline : Nat
  /-- they name another server -/
  moved : Bool
  /-- the expiry of the socket's timer -/
  due : Nat
  /-- the timer runs `SessionProcess` itself and not the check inside it -/
  bound : Bool
  ttl : Int
  isOpen : Bool
  /-- the client went away by itself -/
  left : Bool
  /-- a `RefreshInfo` has failed -/
  failed : Bool
  /-- the calls of `RefreshInfo`, the heartbeats sent, and the checks since the last answer -/
  refreshes : Nat
  beats : Nat
  unanswered : Nat

namespace Session

/-- `SESSION_TIMEOUT / 2` -/
def period : Nat := sessionTimeout / 2

/-- `SetTimeout`, this long after the callback began. -/
def setTimeout (s : Session) (took : Nat) (bound : Bool) : Session :=
  { s with now := s.now + took, due := s.now + took + period, bound }

/-- `AuthenticateProcess` (of `MyAuth`: `AcceptProcess`) after its lookup at time 0, which
renews the keys: `FillTTL`, then `SessionProcess` or a timer for it. -/
def enter (keeper : Keeper) (took : Nat) : Session where
  keeper := keeper
  now := took
  deadline := sessionTimeout
  moved := false
  due := took + period
  bound := keeper = .battle
  ttl := sessionTTL
  isOpen := true
  left := false
  failed := false
  refreshes := 0
  beats := 0
  unanswered := 0

/-- `RefreshInfo` finds the keys of this server and nobody else writes to them before its `EXEC`;
the auth server does not ask. -/
def refreshed (s : Session) (disturbed : Bool) : Bool :=
  s.keeper = Keeper.auth ∨ s.now ≤ s.deadline ∧ s.moved = false ∧ disturbed = false

/-- `RefreshInfo` renews the keys it finds, and `CountTTL` counts the check. -/
def counted (s : Session) : Session :=
  { s with
    deadline := if s.keeper = .auth then s.deadline else s.now + sessionTimeout
    ttl := s.ttl - 1
    refreshes := if s.keeper = .auth then s.refreshes else s.refreshes + 1
    unanswered := s.unanswered + 1 }

/-- The timer callback of an open socket inside `SessionProcess`. -/
def check (s : Session) (took : Nat) (disturbed : Bool) : Session :=
  if !s.refreshed disturbed then
    { s with isOpen := false, failed := true, refreshes := s.refreshes + 1 }
  else if s.counted.ttl > 0 then
    { s.counted with beats := s.beats + 1 }.setTimeout took false
  else { s.counted with isOpen := false }

inductive Label where
  | elapse (ms : Nat)
  /-- the client answers a heartbeat: `FillTTL` -/
  | answer
  /-- a lookup of the session elsewhere, which renews the keys -/
  | lookup
  /-- `SetInfo` for another server -/
  | move
  /-- the timer callback, with the time it takes, and whether another handler writes to the keys
  between the `WATCH` and the `EXEC` of its `RefreshInfo` -/
  | fire (took : Nat) (disturbed : Bool)
  | leave
deriving DecidableEq

def step (s : Session) : Label → Option Session
  | .elapse ms => some { s with now := s.now + ms }
  | .answer => if s.isOpen then some { s with ttl := sessionTTL, unanswered := 0 } else none
  | .lookup =>
    some (if s.now ≤ s.deadline then { s with deadline := s.now + sessionTimeout } else s)
  | .move => some { s with deadline := s.now + sessionTimeout, moved := true }
  | .fire took disturbed =>
    if s.now < s.due then none
    else if !s.isOpen then some s
    else if s.bound then some (s.setTimeout took false)
    else some (s.check took disturbed)
  | .leave => some { s with isOpen := false, left := s.left || s.isOpen }

/-- Callbacks take at most `d` milliseconds and start at most half a timeout less `d` late, and the
keys that are refreshed stay those of this server and undisturbed. -/
def prompt (d : Nat) (s : Session) : Label → Prop
  | .fire took disturbed =>
    (took ≤ d ∧ s.now + d ≤ s.due + period) ∧ (s.keeper = .auth ∨ disturbed = false)
  | .move => s.keeper = .auth
  | _ => True

instance decidablePrompt (d : Nat) (s : Session) : ∀ l, Decidable (prompt d s l)
  | .fire took disturbed => inferInstanceAs
    (Decidable ((took ≤ d ∧ s.now + d ≤ s.due + period) ∧ (s.keeper = .auth ∨ disturbed = false)))
  | .move => inferInstanceAs (Decidable (s.keeper = .auth))
  | .elapse _ => isTrue trivial
  | .answer => isTrue trivial
  | .lookup => isTrue trivial
  | .leave => isTrue trivial

/-- The client is there exactly until it leaves or as many checks in a row as the TTL
allows go without an answer. -/
structure Regular (s : Session) : Prop where
  failed : s.failed = false
  isOpen : s.isOpen = true ↔ s.left = false ∧ (s.unanswered : Int) < sessionTTL

/-- The invariant: the next check comes before the keys expire. -/
structure Kept (d : Nat) (s : Session) : Prop where
  keeper : s.keeper ≠ .battle
  bound : s.bound = false
  regular : s.Regular
  ttl : s.isOpen = true → s.ttl = sessionTTL - s.unanswered
  due : s.isOpen = true → s.keeper = .matching → s.due + period ≤ s.deadline + d
  ahead : s.deadline ≤ s.now + sessionTimeout
  stays : s.keeper = .matching → s.moved = false

variable {d took : Nat} {disturbed : Bool} {s t : Session} {l : Label}

theorem twice_period : period + period = sessionTimeout := by decide

/-- A prompt check finds the keys. -/
theorem Kept.refreshed (h : s.Kept d) (ho : s.isOpen = true)
    (hp : prompt d s (.fire took disturbed)) : s.refreshed disturbed = true := by
  simp only [Session.refreshed, decide_eq_true_eq]
  cases hk : s.keeper with
  | auth => exact .inl rfl
  | matching =>
    have hdue := h.due ho hk
    have hlate := hp.1.2
    refine .inr ⟨by omega, h.stays hk, hp.2.resolve_left ?_⟩
    rw [hk]
    decide
  | battle => exact absurd hk h.keeper

theorem Kept.check (h : s.Kept d) (ho : s.isOpen = true)
    (hp : prompt d s (.fire took disturbed)) : (s.check took disturbed).Kept d := by
  have hopen := h.regular.isOpen.mp ho
  have httl := h.ttl ho
  have htwice := twice_period
  rw [Session.check, h.refreshed ho hp]
  simp only [Bool.not_true, Bool.false_eq_true, if_false]
  split
  · rename_i hmore
    have hcount : s.ttl - 1 > 0 := hmore
    refine ⟨h.keeper, rfl, ⟨h.regular.failed, ?_⟩, fun _ => ?_, fun _ hk => ?_, ?_, h.stays⟩
    · refine ⟨fun _ => ⟨hopen.1, ?_⟩, fun _ => ho⟩
      simp only [setTimeout, counted]
      omega
    · simp only [setTimeout, counted]
      omega
    · have hkeeper : s.keeper = .matching := hk
      have htook := hp.1.1
      simp only [setTimeout, counted, hkeeper, reduceCtorEq, if_false]
      omega
    · have hahead := h.ahead
      simp only [setTimeout, counted]
      split <;> omega
  · rename_i hlast
    have hcount : ¬ s.ttl - 1 > 0 := hlast
    refine ⟨h.keeper, h.bound, ⟨h.regular.failed, nofun, fun hu => ?_⟩, nofun, nofun, ?_,
      h.stays⟩
    · have hunanswered : ((s.unanswered + 1 : Nat) : Int) < sessionTTL := hu.2
      omega
    · have hahead := h.ahead
      simp only [counted]
      split <;> omega

theorem Kept.step (h : s.Kept d) (hp : prompt d s l) (hr : s.step l = some t) : t.Kept d := by
  cases l with
  | elapse ms =>
    cases hr
    refine ⟨h.keeper, h.bound, ⟨h.regular.failed, h.regular.isOpen⟩, h.ttl, h.due, ?_,
      h.stays⟩
    have hahead := h.ahead
    show s.deadline ≤ s.now + ms + sessionTimeout
    omega
  | answer =>
    simp only [Session.step] at hr
    split at hr <;> cases hr
    rename_i ho
    refine ⟨h.keeper, h.bound, ⟨h.regular.failed, ?_⟩, fun _ => by simp, h.due, h.ahead,
      h.stays⟩
    exact ⟨fun _ => ⟨(h.regular.isOpen.mp ho).1, by simp [sessionTTL]⟩, fun _ => ho⟩
  | lookup =>
    simp only [Session.step] at hr
    split at hr <;> cases hr
    · refine ⟨h.keeper, h.bound, ⟨h.regular.failed, h.regular.isOpen⟩, h.ttl, fun ho hk => ?_,
        le_rfl, h.stays⟩
      have hdue := h.due ho hk
      have hahead := h.ahead
      show s.due + period ≤ s.now + sessionTimeout + d
      omega
    · exact h
  | move =>
    cases hr
    have hauth : s.keeper = .auth := hp
    have hnot : s.keeper ≠ .matching := by
      rw [hauth]
      decide
    exact ⟨h.keeper, h.bound, ⟨h.regular.failed, h.regular.isOpen⟩, h.ttl,
      fun _ hk => absurd hk hnot, le_rfl, fun hk => absurd hk hnot⟩
  | fire took disturbed =>
    simp only [Session.step] at hr
    split at hr
    · cases hr
    · split at hr
      · cases hr
        exact h
      · rename_i ho
        rw [if_neg (by simp [h.bound])] at hr
        cases hr
        exact h.check (by simpa using ho) hp
  | leave =>
    cases hr
    refine ⟨h.keeper, h.bound, ⟨h.regular.failed, nofun, fun hl => ?_⟩, nofun, nofun, h.ahead,
      h.stays⟩
    have hleft : (s.left || s.isOpen) = false := hl.1
    rw [Bool.or_eq_false_iff] at hleft
    have ho := h.regular.isOpen.mpr ⟨hleft.1, hl.2⟩
    rw [hleft.2] at ho
    cases ho

/-- The session as the battle server leaves it: the keys as they were at the lookup, unless they
name another server by now, and the first check not before they are gone. -/
structure Unrenewed (s : Session) : Prop where
  keeper : s.keeper = .battle
  deadline : s.moved = true ∨ s.deadline = sessionTimeout
  beats : s.beats = 0
  pending : s.isOpen = true → s.refreshes = 0
  due : s.isOpen = true → sessionTimeout < s.due + if s.bound then period else 0
  checked : s.refreshes ≠ 0 → s.isOpen = false ∧ s.failed = true

theorem unrenewed_enter (ht : 0 < took) : (enter .battle took).Unrenewed := by
  refine ⟨rfl, .inr rfl, rfl, fun _ => rfl, fun _ => ?_, fun h => absurd rfl h⟩
  have htwice := twice_period
  simp only [enter, decide_true, if_true]
  omega

theorem Unrenewed.step (h : s.Unrenewed) (hl : l ≠ .lookup) (hr : s.step l = some t) :
    t.Unrenewed := by
  cases l with
  | elapse ms =>
    cases hr
    exact ⟨h.keeper, h.deadline, h.beats, h.pending, h.due, h.checked⟩
  | answer =>
    simp only [Session.step] at hr
    split at hr <;> cases hr
    exact ⟨h.keeper, h.deadline, h.beats, h.pending, h.due, h.checked⟩
  | lookup => exact absurd rfl hl
  | move =>
    cases hr
    exact ⟨h.keeper, .inl rfl, h.beats, h.pending, h.due, h.checked⟩
  | fire took disturbed =>
    simp only [Session.step] at hr
    split at hr
    · cases hr
    · rename_i hexpired
      split at hr
      · cases hr
        exact h
      · rename_i ho
        have ho : s.isOpen = true := by simpa using ho
        have hdue := h.due ho
        split at hr
        · rename_i hbound
          cases hr
          refine ⟨h.keeper, h.deadline, h.beats, h.pending, fun _ => ?_, h.checked⟩
          rw [hbound, if_pos rfl] at hdue
          show sessionTimeout < s.now + took + period + 0
          omega
        · rename_i hbound
          cases hr
          rw [if_neg hbound] at hdue
          -- the keys are gone, or another server's, by the time of the first check
          have hgone : s.refreshed disturbed = false := by
            simp only [refreshed, h.keeper, reduceCtorEq, false_or, decide_eq_false_iff_not]
            rintro ⟨hlive, hmoved, -⟩
            rcases h.deadline with hm | hd
            · rw [hm] at hmoved
              cases hmoved
            · omega
          rw [check, hgone]
          exact ⟨h.keeper, h.deadline, h.beats, nofun, nofun, fun _ => ⟨rfl, rfl⟩⟩
  | leave =>
    cases hr
    exact ⟨h.keeper, h.deadline, h.beats, nofun, nofun, fun hn => ⟨rfl, (h.checked hn).2⟩⟩

/-- What becomes of a client of the battle server. -/
structure Dropped (s : Session) : Prop where
  beats : s.beats = 0
  checked : s.refreshes ≠ 0 → s.isOpen = false ∧ s.failed = true

/-- **The battle server checks too late**: its first check comes more than a whole timeout after the
lookup, if setting the timer took any time, and unless some other handler has looked the session
up, it closes the client, whatever the client answers and however prompt the timer is. No heartbeat
is ever sent. -/
theorem always_dropped (ht : 0 < took) {ls : List Label} (hl : .lookup ∉ ls) :
    Always step Dropped (enter .battle took) ls := by
  have hmeets : Meets step (fun _ l => l ≠ .lookup) (enter .battle took) ls := by
    refine meets_of_forall (fun l hm => ?_) _
    rintro rfl
    exact hl hm
  exact always_of_meets (I := Unrenewed) (fun _ h => ⟨h.beats, h.checked⟩)
    (fun _ _ _ h hp hr => h.step hp hr) (unrenewed_enter ht) hmeets

/-- A client that would answer everything, and a timer that is never late. -/
def punctual : List Label :=
  [.elapse 30000, .fire 0 false, .answer, .elapse 30000, .fire 0 false]

theorem always_dropped_punctual : Always step Dropped (enter .battle 1) punctual ∧
    ∃ s, run step (enter .battle 1) punctual = some s ∧ s.isOpen = false :=
  ⟨always_dropped (by decide) (by decide), exists_run_of_any (by decide +kernel)⟩

end Session
end DrgbServer.Servers
