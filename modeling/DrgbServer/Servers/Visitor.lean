import DrgbServer.Lib.Transition
import DrgbServer.Servers.KeepAlive

/-! # From `KeyExchange` to `SessionProcess`: the timer of a connection

A connection has one timer. `KeyExchange` arms it, then `AcceptProcess`, and
`SessionProcess` from the admission on. The handlers and the timer callbacks of a connection
run one at a time; between any two steps of them the timer may expire, another thread may
close the client and the transport may go down.

`StartRecv` runs the handler at once when a message is buffered. `AcceptProcess` of `MyMatch`
and `MyBattle` sets its timeout after its `StartRecv`, thus after all that handler did. -/
namespace DrgbServer.Servers
open DrgbServer.Network DrgbServer.Lib.Transition

namespace Visitor

/-- The callbacks given to `SetTimeout`. -/
inductive Timeout where
  | keyExchange
  /-- of `AcceptProcess` -/
  | authenticate
  /-- `SessionProcess` itself, which `MyBattle` binds -/
  | session
  /-- the check inside `SessionProcess` -/
  | check
deriving DecidableEq

/-- The callback closes the client whatever it has done. -/
def Timeout.closes : Timeout → Bool
  | .keyExchange | .authenticate => true
  | .session | .check => false

/-- Whose handler gets the next message. -/
inductive Stage where
  | exchanging
  | authenticating
  | admitted
deriving DecidableEq

/-- What a handler makes of a message. -/
inductive Outcome where
  /-- the handler goes on with the client; an `ANS_HEARTBEAT` refills the TTL -/
  | accepted (heartbeat : Bool)
  /-- the handler closes the client -/
  | refused
  /-- an exception leaves the handler, or decryption before it, and ends the server -/
  | thrown
deriving DecidableEq

end Visitor

/-- One connection. Aborted waits call nothing and are left out. -/
structure Visitor where
  keeper : Keeper
  stage : Visitor.Stage
  /-- a handler is in `StartRecv`, before the test of the socket -/
  starting : Bool
  /-- the `SetTimeout`s the running handlers still come to, innermost first -/
  later : List Visitor.Timeout
  /-- the number of complete messages in `recvbuffer` -/
  buffered : Nat
  reading : Bool
  /-- the read has brought these many complete messages; its handler is to run -/
  arrived : Option Nat
  initiateClose : Bool
  /-- `isReadable()` -/
  readable : Bool
  /-- `is_open()` -/
  isOpen : Bool
  /-- the wait that is pending -/
  waiting : Option Visitor.Timeout
  /-- the expired waits whose callbacks are to run -/
  queued : List Visitor.Timeout
  ttl : Int
  ended : Bool
  /-- an admitted client was closed by a timeout from before its admission -/
  evicted : Bool
deriving DecidableEq

namespace Visitor

/-- `KeyExchange` at its `StartRecv`. One that does not get there closes the client. -/
def start (keeper : Keeper) : Visitor where
  keeper := keeper
  stage := .exchanging
  starting := true
  later := []
  buffered := 0
  reading := false
  arrived := none
  initiateClose := false
  readable := true
  isOpen := true
  waiting := some .keyExchange
  queued := []
  ttl := 0
  ended := false
  evicted := false

def setTimeout (s : Visitor) (t : Timeout) : Visitor :=
  if s.initiateClose then s else { s with waiting := some t }

def cancelTimeout (s : Visitor) : Visitor := { s with waiting := none }

def close (s : Visitor) : Visitor :=
  if s.initiateClose then s else { s with initiateClose := true, waiting := none }

def accepts (s : Visitor) : Bool := s.readable && !s.initiateClose

/-- The client has been admitted and is not being closed. -/
def guest (s : Visitor) : Bool := s.stage = .admitted ∧ s.initiateClose = false

/-- No handler runs. -/
def free (s : Visitor) : Bool := !s.starting && s.later.isEmpty

/-! ## Handlers -/

/-- From the admission to the `StartRecv` of `ClientProcess`; `t` is set after it. -/
def admitWith (s : Visitor) (t : Timeout) : Visitor :=
  { s with stage := .admitted, ttl := sessionTTL, starting := true, later := t :: s.later }

/-- `AcceptProcess` after a key exchange that succeeded. -/
def acceptProcess (s : Visitor) : Visitor :=
  match s.keeper with
  | .auth => if s.isOpen then s.admitWith .check else s.close
  | .matching | .battle =>
    { s with stage := .authenticating, starting := true, later := .authenticate :: s.later }

/-- The end of an `AuthenticateProcess` that admits the client. -/
def authenticated (s : Visitor) : Visitor :=
  s.admitWith (if s.keeper = .battle then .session else .check)

/-- `ClientProcess` of an admitted client, up to the `StartRecv` at its end. -/
def clientProcess (s : Visitor) (heartbeat : Bool) : Visitor :=
  { s with starting := true, ttl := if heartbeat then sessionTTL else s.ttl }

/-- The handler of the next message. -/
def handle (s : Visitor) (outcome : Outcome) : Visitor :=
  match outcome, s.stage with
  | .thrown, _ => { s with ended := true }
  | .accepted _, .exchanging => s.cancelTimeout.acceptProcess
  | .accepted _, .authenticating => s.cancelTimeout.authenticated
  | .accepted heartbeat, .admitted => s.clientProcess heartbeat
  | .refused, .admitted => { s.close with starting := true }
  | .refused, _ => s.cancelTimeout.close

/-- `StartRecv`. -/
def receive (s : Visitor) (outcome : Outcome) : Visitor :=
  let s := { s with starting := false }
  if !s.accepts then s
  else if s.buffered = 0 then { s with reading := true }
  else { s with buffered := s.buffered - 1 }.handle outcome

/-- `Recv_Handle` of a read that brought `n` messages: it does not test the socket. -/
def recvHandle (s : Visitor) (n : Nat) (outcome : Outcome) : Visitor :=
  let s := { s with arrived := none, buffered := s.buffered + n }
  if s.buffered = 0 then { s with starting := true }
  else { s with buffered := s.buffered - 1 }.handle outcome

/-- The check inside `SessionProcess`; `refreshed` is the result of `RefreshInfo`. -/
def check (s : Visitor) (refreshed : Bool) : Visitor :=
  if !s.isOpen then s
  else if s.keeper ≠ .auth ∧ !refreshed then s.close
  else if s.ttl - 1 > 0 then { s with ttl := s.ttl - 1 }.setTimeout .check
  else { s with ttl := s.ttl - 1 }.close

def callback (s : Visitor) (t : Timeout) (refreshed : Bool) : Visitor :=
  match t with
  | .keyExchange | .authenticate => { s with evicted := s.evicted || s.guest }.close
  | .session => s.setTimeout .check
  | .check => s.check refreshed

inductive Label where
  /-- the handler that is in `StartRecv` goes on, with what is made of a buffered message -/
  | receive (outcome : Outcome)
  /-- the innermost handler returns from `StartRecv` to its `SetTimeout` -/
  | goBack
  /-- the read has brought messages -/
  | arrive (n : Nat)
  /-- the handler of that read runs -/
  | recvHandle (outcome : Outcome)
  /-- the read fails: the handler closes the client, or `Recv_Handle` does -/
  | fail
  | expire
  | callback (refreshed : Bool)
  /-- another thread closes the client -/
  | close
  /-- the websocket goes down, alone or with the connection under it -/
  | drop (isOpen : Bool)
deriving DecidableEq

def act (s : Visitor) : Label → Option Visitor
  | .receive outcome => if s.starting then some (s.receive outcome) else none
  | .goBack =>
    match s.later with
    | [] => none
    | t :: rest => if s.starting then none else some ({ s with later := rest }.setTimeout t)
  | .arrive n =>
    if s.reading ∧ s.isOpen then some { s with reading := false, arrived := some n } else none
  | .recvHandle outcome =>
    if s.free then s.arrived.map fun n => s.recvHandle n outcome else none
  | .fail => if s.free ∧ s.reading then some { s.close with reading := false } else none
  | .expire => s.waiting.map fun t => { s with waiting := none, queued := s.queued ++ [t] }
  | .callback refreshed =>
    match s.queued with
    | [] => none
    | t :: rest => if s.free then some ({ s with queued := rest }.callback t refreshed) else none
  | .close => some s.close
  | .drop isOpen => some { s with readable := false, isOpen := s.isOpen && isOpen }

def step (s : Visitor) (l : Label) : Option Visitor := if s.ended then none else s.act l

variable {s t : Visitor} {l : Label} {outcome : Outcome}

/-! ## Every client is watched -/

/-- Something will close the client, or set a timeout: a wait that is pending or has expired, a
handler that has yet to call `SetTimeout`, or a read that can only fail. -/
def Watched (s : Visitor) : Prop :=
  s.ended = true ∨ s.initiateClose = true ∨ s.later ≠ [] ∨ s.waiting ≠ none ∨ s.queued ≠ [] ∨
    s.isOpen = false ∧ s.reading = true

/-- The condition on a step: a check that finds the transport down is not the last thing that
watches the client. -/
def attentive (s : Visitor) : Label → Bool
  | .callback _ =>
    match s.queued with
    | .check :: rest =>
      s.isOpen || s.initiateClose || s.reading || s.waiting.isSome || !rest.isEmpty
    | _ => true
  | _ => true

theorem initiateClose_close (s : Visitor) : s.close.initiateClose = true := by
  unfold close
  split
  · assumption
  · rfl

theorem watched_close (s : Visitor) : s.close.Watched := .inr (.inl s.initiateClose_close)

theorem watched_setTimeout (s : Visitor) (t : Timeout) : (s.setTimeout t).Watched := by
  unfold setTimeout
  split
  · rename_i hclose
    exact .inr (.inl hclose)
  · exact .inr (.inr (.inr (.inl (Option.some_ne_none t))))

theorem watched_admitWith (s : Visitor) (t : Timeout) : (s.admitWith t).Watched :=
  .inr (.inr (.inl (List.cons_ne_nil _ _)))

theorem watched_acceptProcess (s : Visitor) : s.acceptProcess.Watched := by
  unfold acceptProcess
  split
  · split
    · exact s.watched_admitWith _
    · exact s.watched_close
  · exact .inr (.inr (.inl (List.cons_ne_nil _ _)))
  · exact .inr (.inr (.inl (List.cons_ne_nil _ _)))

/-- The same timeouts, and the transport is not more alive than before. -/
theorem Watched.mono (h : s.Watched) (he : t.ended = s.ended)
    (hc : t.initiateClose = s.initiateClose) (hl : t.later = s.later)
    (hw : t.waiting = s.waiting) (hq : t.queued = s.queued)
    (hr : s.isOpen = false → s.reading = true → t.isOpen = false ∧ t.reading = true) :
    t.Watched := by
  rw [Watched, he, hc, hl, hw, hq]
  rcases h with h | h | h | h | h | ⟨ho, hreading⟩
  · exact .inl h
  · exact .inr (.inl h)
  · exact .inr (.inr (.inl h))
  · exact .inr (.inr (.inr (.inl h)))
  · exact .inr (.inr (.inr (.inr (.inl h))))
  · exact .inr (.inr (.inr (.inr (.inr (hr ho hreading)))))

/-- A handler of a client that is not being admitted cancels the timer and sets it again, or
closes the client. -/
theorem Watched.handle (h : s.Watched) (outcome : Outcome) : (s.handle outcome).Watched := by
  unfold Visitor.handle
  split
  · exact .inl rfl
  · exact watched_acceptProcess _
  · exact watched_admitWith _ _
  · exact h
  · exact watched_close s
  · exact watched_close _

theorem Watched.receive (h : s.Watched) (outcome : Outcome) : (s.receive outcome).Watched := by
  unfold Visitor.receive
  dsimp only
  split
  · exact h
  split
  · exact h.mono rfl rfl rfl rfl rfl fun ho _ => ⟨ho, rfl⟩
  · exact Watched.handle (s := { s with starting := false, buffered := s.buffered - 1 }) h outcome

theorem Watched.recvHandle (h : s.Watched) (n : Nat) (outcome : Outcome) :
    (s.recvHandle n outcome).Watched := by
  unfold Visitor.recvHandle
  dsimp only
  split
  · exact h
  · exact Watched.handle
      (s := { s with arrived := none, buffered := s.buffered + n - 1 }) h outcome

/-- The check of an open client closes it or comes again. -/
theorem watched_check (ho : s.isOpen = true) (refreshed : Bool) :
    (s.check refreshed).Watched := by
  rw [check, ho, Bool.not_true, if_neg Bool.false_ne_true]
  split
  · exact s.watched_close
  split
  · exact watched_setTimeout _ _
  · exact watched_close _

theorem step_watched (h : s.Watched) (hok : s.attentive l = true) (hs : s.step l = some t) :
    t.Watched := by
  unfold step at hs
  split at hs
  · cases hs
  cases l with
  | receive outcome =>
    obtain ⟨-, hs⟩ := Option.ite_none_right_eq_some.mp hs
    cases hs
    exact h.receive outcome
  | goBack =>
    simp only [act] at hs
    split at hs
    · cases hs
    · obtain ⟨-, hs⟩ := Option.ite_none_left_eq_some.mp hs
      cases hs
      exact watched_setTimeout _ _
  | arrive n =>
    obtain ⟨⟨-, ho⟩, hs⟩ := Option.ite_none_right_eq_some.mp hs
    cases hs
    -- a read that succeeds has found the transport alive
    exact h.mono rfl rfl rfl rfl rfl fun hdown _ =>
      absurd (hdown.symm.trans ho) Bool.false_ne_true
  | recvHandle outcome =>
    obtain ⟨-, hs⟩ := Option.ite_none_right_eq_some.mp hs
    obtain ⟨n, -, rfl⟩ := Option.map_eq_some_iff.mp hs
    exact h.recvHandle n outcome
  | fail =>
    obtain ⟨-, hs⟩ := Option.ite_none_right_eq_some.mp hs
    cases hs
    exact .inr (.inl s.initiateClose_close)
  | expire =>
    obtain ⟨w, -, rfl⟩ := Option.map_eq_some_iff.mp hs
    exact .inr (.inr (.inr (.inr (.inl (by simp)))))
  | callback refreshed =>
    simp only [act] at hs
    split at hs
    · cases hs
    rename_i w rest hqueued
    obtain ⟨hfree, hs⟩ := Option.ite_none_right_eq_some.mp hs
    cases hs
    cases w with
    | keyExchange | authenticate => exact watched_close _
    | session => exact watched_setTimeout _ _
    | check =>
      by_cases ho : s.isOpen = true
      · exact watched_check (s := { s with queued := rest }) ho refreshed
      · rw [Bool.not_eq_true] at ho
        simp only [attentive, hqueued, ho, Bool.false_or, Bool.or_eq_true] at hok
        simp only [callback, check, ho, Bool.not_false, if_true]
        rcases hok with ((hc | hr) | hw) | hrest
        · exact .inr (.inl hc)
        · exact .inr (.inr (.inr (.inr (.inr ⟨rfl, hr⟩))))
        · exact .inr (.inr (.inr (.inl (Option.isSome_iff_ne_none.mp hw))))
        · exact .inr (.inr (.inr (.inr (.inl (by simpa using hrest)))))
  | close =>
    cases hs
    exact s.watched_close
  | drop isOpen =>
    cases hs
    exact h.mono rfl rfl rfl rfl rfl fun hdown hr => ⟨by simp [hdown], hr⟩

/-- The check returns without a word, and nothing is left. -/
theorem step_not_watched (hok : ¬ s.attentive l = true) (hs : s.step l = some t) :
    ¬ t.Watched := by
  unfold step at hs
  split at hs
  · cases hs
  rename_i hended
  cases l with
  | callback refreshed =>
    simp only [act] at hs
    split at hs
    · cases hs
    rename_i w rest hqueued
    obtain ⟨hfree, hs⟩ := Option.ite_none_right_eq_some.mp hs
    cases hs
    cases w with
    | keyExchange | authenticate | session =>
      simp [attentive, hqueued] at hok
    | check =>
      simp only [attentive, hqueued, Bool.or_eq_true, not_or, Bool.not_eq_true] at hok
      obtain ⟨⟨⟨⟨ho, hc⟩, hr⟩, hw⟩, hrest⟩ := hok
      simp only [free, Bool.and_eq_true, List.isEmpty_iff] at hfree
      simp only [callback, check, ho, Bool.not_false, if_true]
      rintro (h | h | h | h | h | ⟨-, h⟩)
      · exact hended h
      · exact absurd (hc.symm.trans h) Bool.false_ne_true
      · exact h hfree.2
      · exact h (by simpa using hw)
      · exact h (by simpa using hrest)
      · exact absurd (hr.symm.trans h) Bool.false_ne_true
  | receive | goBack | arrive | recvHandle | fail | expire | close | drop => exact absurd rfl hok

/-- **A client that is held open is watched** in every state of a run, if and only if no check
of the session that finds the transport down, with no read pending to report it, is the last
thing that watches the client. -/
theorem always_watched_iff (keeper : Keeper) (ls : List Label) :
    Always step Watched (start keeper) ls ↔
      Meets step (fun s l => s.attentive l = true) (start keeper) ls :=
  always_iff_meets (I := Watched) (fun _ h => h) (fun _ _ _ h hok hs => step_watched h hok hs)
    (fun _ _ _ _ hok hs => step_not_watched hok hs) ls
    (.inr (.inr (.inr (.inl (Option.some_ne_none _)))))

/-! ## The timer of an admitted client is that of its session -/

/-- No timeout from before the admission has closed an admitted client, and none is pending,
has expired or is still to be set for one. -/
structure Spared (s : Visitor) : Prop where
  evicted : s.evicted = false
  timeouts : s.guest = true → ∀ t ∈ s.waiting.toList ++ s.queued ++ s.later, t.closes = false

/-- The handler of the next message admits the client. -/
def admits (s : Visitor) : Outcome → Bool
  | .accepted _ =>
    match s.stage with
    | .exchanging => decide (s.keeper = .auth) && s.isOpen
    | .authenticating => true
    | .admitted => false
  | _ => false

/-- The step runs the handler of a message, and it admits the client. -/
def admitting (s : Visitor) : Label → Bool
  | .receive outcome => s.accepts && decide (s.buffered ≠ 0) && s.admits outcome
  | .recvHandle outcome => s.arrived.any (fun n => decide (s.buffered + n ≠ 0)) && s.admits outcome
  | _ => false

/-- The condition on a step: when it admits a client that is not being closed, no handler has
yet to set an earlier timeout, and none has expired. -/
def timely (s : Visitor) (l : Label) : Bool :=
  !s.admitting l || s.initiateClose || (s.queued ++ s.later).all (!·.closes)

theorem guest_close (s : Visitor) : s.close.guest = false := by
  simp [guest, initiateClose_close]

theorem evicted_close (s : Visitor) : s.close.evicted = s.evicted := by
  unfold close
  split <;> rfl

/-- A client that is being closed, or has not been admitted. -/
theorem Spared.of_not_guest (he : t.evicted = false) (hg : t.guest = false) : t.Spared :=
  ⟨he, fun h => absurd (hg.symm.trans h) Bool.false_ne_true⟩

theorem Spared.close (h : s.Spared) : s.close.Spared :=
  .of_not_guest (s.evicted_close.trans h.evicted) s.guest_close

/-- The timeout that is set is the session's. -/
theorem Spared.setTimeout (h : s.Spared) {w : Timeout} (hw : s.guest = true → w.closes = false) :
    (s.setTimeout w).Spared := by
  unfold Visitor.setTimeout
  split
  · exact h
  · refine ⟨h.evicted, fun hg x hx => ?_⟩
    have hall := h.timeouts hg
    simp only [Option.toList_some, List.cons_append, List.nil_append, List.mem_cons] at hx
    rcases hx with rfl | hx
    · exact hw hg
    · rw [List.append_assoc] at hall
      exact hall x (List.mem_append_right _ hx)

/-- Fewer timeouts, and the same client. -/
theorem Spared.mono (h : s.Spared) (he : t.evicted = s.evicted)
    (hg : t.guest = true → s.guest = true)
    (hsub : ∀ w ∈ t.waiting.toList ++ t.queued ++ t.later,
      w ∈ s.waiting.toList ++ s.queued ++ s.later) : t.Spared :=
  ⟨he.trans h.evicted, fun hguest w hw => h.timeouts (hg hguest) w (hsub w hw)⟩

theorem Spared.admitWith (he : s.evicted = false) {w : Timeout} (hw : w.closes = false)
    (hclear : s.initiateClose = true ∨ (s.queued ++ s.later).all (!·.closes) = true) :
    (s.cancelTimeout.admitWith w).Spared := by
  refine ⟨he, fun hg x hx => ?_⟩
  rcases hclear with hc | hclear
  · simp [guest, Visitor.admitWith, cancelTimeout, hc] at hg
  · simp only [Visitor.admitWith, cancelTimeout, Option.toList_none, List.nil_append,
      List.mem_append, List.mem_cons] at hx
    rw [List.all_eq_true] at hclear
    rcases hx with hx | rfl | hx
    · simpa using hclear x (List.mem_append_left _ hx)
    · exact hw
    · simpa using hclear x (List.mem_append_right _ hx)

theorem Spared.handle (h : s.Spared)
    (hok : s.admits outcome = true →
      s.initiateClose = true ∨ (s.queued ++ s.later).all (!·.closes) = true) :
    (s.handle outcome).Spared := by
  unfold Visitor.handle
  split
  · exact ⟨h.evicted, h.timeouts⟩
  · rename_i hstage
    unfold acceptProcess
    split
    · rename_i hkeeper
      split
      · rename_i ho
        refine .admitWith h.evicted rfl (hok ?_)
        have hkeeper : s.keeper = .auth := hkeeper
        have ho : s.isOpen = true := ho
        simp [admits, hstage, hkeeper, ho]
      · exact .of_not_guest ((evicted_close _).trans h.evicted) (guest_close _)
    all_goals exact .of_not_guest h.evicted (by simp [guest])
  · rename_i hstage
    refine .admitWith h.evicted ?_ (hok (by simp [admits, hstage]))
    split <;> rfl
  · exact ⟨h.evicted, h.timeouts⟩
  · exact h.close.mono rfl id fun _ => id
  · exact .of_not_guest ((evicted_close _).trans h.evicted) (guest_close _)

theorem clear_of_timely (hok : s.timely l = true) (ha : s.admitting l = true) :
    s.initiateClose = true ∨ (s.queued ++ s.later).all (!·.closes) = true := by
  rw [timely, ha, Bool.not_true, Bool.false_or, Bool.or_eq_true] at hok
  exact hok

theorem Spared.receive (h : s.Spared) (hok : s.timely (.receive outcome) = true) :
    (s.receive outcome).Spared := by
  unfold Visitor.receive
  dsimp only
  split
  · exact h.mono rfl id fun _ => id
  · rename_i ha
    split
    · exact h.mono rfl id fun _ => id
    · rename_i hb
      have haccepts : ¬ (!s.accepts) = true := ha
      refine Spared.handle (h.mono rfl id fun _ => id) fun hadmits =>
        clear_of_timely (s := s) hok ?_
      have hadmits : s.admits outcome = true := hadmits
      simpa [admitting, hb, hadmits] using haccepts

theorem Spared.recvHandle (h : s.Spared) {n : Nat} (hn : s.arrived = some n)
    (hok : s.timely (.recvHandle outcome) = true) : (s.recvHandle n outcome).Spared := by
  unfold Visitor.recvHandle
  dsimp only
  split
  · exact h.mono rfl id fun _ => id
  · rename_i hb
    refine Spared.handle (h.mono rfl id fun _ => id) fun hadmits =>
      clear_of_timely (s := s) hok ?_
    have hadmits : s.admits outcome = true := hadmits
    rw [admitting, hn, Option.any_some, hadmits, decide_eq_true hb, Bool.and_self]

theorem Spared.check (h : s.Spared) (refreshed : Bool) : (s.check refreshed).Spared := by
  have hcounted : Spared { s with ttl := s.ttl - 1 } := h.mono rfl id fun _ => id
  unfold Visitor.check
  split
  · exact h
  split
  · exact h.close
  split
  · exact hcounted.setTimeout fun _ => rfl
  · exact hcounted.close

/-- The next callback is the session's if the client has been admitted. -/
theorem Spared.callback (h : s.Spared) {w : Timeout} {rest : List Timeout}
    (hq : s.queued = w :: rest) (refreshed : Bool) :
    ({ s with queued := rest }.callback w refreshed).Spared := by
  have hrest : Spared { s with queued := rest } := by
    refine h.mono rfl id fun x hx => ?_
    rw [hq]
    simp only [List.mem_append, List.mem_cons] at hx ⊢
    rcases hx with (hx | hx) | hx
    · exact .inl (.inl hx)
    · exact .inl (.inr (.inr hx))
    · exact .inr hx
  have hown : s.guest = true → w.closes = false := by
    intro hg
    refine h.timeouts hg w ?_
    rw [hq]
    simp
  cases w with
  | keyExchange | authenticate =>
    have hguest : s.guest = false := by
      by_contra hg
      cases hown ((Bool.not_eq_false _).mp hg)
    refine .of_not_guest ((evicted_close _).trans ?_) (guest_close _)
    show (s.evicted || s.guest) = false
    rw [h.evicted, hguest, Bool.or_false]
  | session => exact hrest.setTimeout fun _ => rfl
  | check => exact hrest.check refreshed

theorem step_spared (h : s.Spared) (hok : s.timely l = true) (hs : s.step l = some t) :
    t.Spared := by
  unfold step at hs
  split at hs
  · cases hs
  cases l with
  | receive outcome =>
    obtain ⟨-, hs⟩ := Option.ite_none_right_eq_some.mp hs
    cases hs
    exact h.receive hok
  | goBack =>
    simp only [act] at hs
    split at hs
    · cases hs
    · rename_i w rest hlater
      obtain ⟨-, hs⟩ := Option.ite_none_left_eq_some.mp hs
      cases hs
      have hrest : Spared { s with later := rest } := by
        refine h.mono rfl id fun x hx => ?_
        rw [hlater]
        rcases List.mem_append.mp hx with hx | hx
        · exact List.mem_append_left _ hx
        · exact List.mem_append_right _ (List.mem_cons_of_mem _ hx)
      refine hrest.setTimeout fun hg => h.timeouts hg w ?_
      rw [hlater]
      simp
  | arrive n =>
    obtain ⟨-, hs⟩ := Option.ite_none_right_eq_some.mp hs
    cases hs
    exact h.mono rfl id fun _ => id
  | recvHandle outcome =>
    obtain ⟨-, hs⟩ := Option.ite_none_right_eq_some.mp hs
    obtain ⟨n, hn, rfl⟩ := Option.map_eq_some_iff.mp hs
    exact h.recvHandle hn hok
  | fail =>
    obtain ⟨-, hs⟩ := Option.ite_none_right_eq_some.mp hs
    cases hs
    exact h.close.mono rfl id fun _ => id
  | expire =>
    obtain ⟨w, hw, rfl⟩ := Option.map_eq_some_iff.mp hs
    refine h.mono rfl id fun x hx => ?_
    rw [hw]
    simp only [Option.toList_none, Option.toList_some, List.nil_append, List.mem_append,
      List.mem_singleton] at hx ⊢
    rcases hx with (hx | hx) | hx
    · exact .inl (.inr hx)
    · exact .inl (.inl hx)
    · exact .inr hx
  | callback refreshed =>
    simp only [act] at hs
    split at hs
    · cases hs
    · rename_i w rest hqueued
      obtain ⟨-, hs⟩ := Option.ite_none_right_eq_some.mp hs
      cases hs
      exact h.callback hqueued refreshed
  | close =>
    cases hs
    exact h.close
  | drop isOpen =>
    cases hs
    exact h.mono rfl id fun _ => id

/-- An admission with an earlier timeout still to come. -/
theorem not_spared_admitWith {w x : Timeout} (hc : s.initiateClose = false)
    (hx : x ∈ s.queued ++ s.later) (hcloses : x.closes = true) :
    ¬ (s.cancelTimeout.admitWith w).Spared := by
  intro h
  refine Bool.false_ne_true ((h.timeouts ?_ x ?_).symm.trans hcloses)
  · simp [guest, Visitor.admitWith, cancelTimeout, hc]
  · simp only [Visitor.admitWith, cancelTimeout, Option.toList_none, List.nil_append]
    rcases List.mem_append.mp hx with hx | hx
    · exact List.mem_append_left _ hx
    · exact List.mem_append_right _ (List.mem_cons_of_mem _ hx)

theorem not_spared_handle {x : Timeout} (ha : s.admits outcome = true)
    (hc : s.initiateClose = false) (hx : x ∈ s.queued ++ s.later) (hcloses : x.closes = true) :
    ¬ (s.handle outcome).Spared := by
  cases outcome with
  | refused | thrown => cases ha
  | accepted heartbeat =>
    simp only [admits] at ha
    split at ha
    · rename_i hstage
      obtain ⟨hkeeper, ho⟩ := Bool.and_eq_true_iff.mp ha
      have hhandle : s.handle (.accepted heartbeat) = s.cancelTimeout.admitWith .check := by
        simp [Visitor.handle, hstage, acceptProcess, cancelTimeout, of_decide_eq_true hkeeper, ho]
      rw [hhandle]
      exact not_spared_admitWith hc hx hcloses
    · rename_i hstage
      have hhandle : s.handle (.accepted heartbeat) = s.cancelTimeout.authenticated := by
        simp only [Visitor.handle, hstage]
      rw [hhandle]
      exact not_spared_admitWith hc hx hcloses
    · cases ha

theorem step_not_spared (hok : ¬ s.timely l = true) (hs : s.step l = some t) : ¬ t.Spared := by
  simp only [timely, Bool.or_eq_true, not_or, List.all_eq_true, Bool.not_eq_true,
    Bool.not_eq_false'] at hok
  obtain ⟨⟨hadmitting, hc⟩, hsome⟩ := hok
  push Not at hsome
  obtain ⟨x, hx, hcloses⟩ := hsome
  have hcloses : x.closes = true := by simpa using hcloses
  unfold step at hs
  split at hs
  · cases hs
  cases l with
  | receive outcome =>
    obtain ⟨-, hs⟩ := Option.ite_none_right_eq_some.mp hs
    cases hs
    simp only [admitting, Bool.and_eq_true, decide_eq_true_eq] at hadmitting
    obtain ⟨⟨haccepts, hb⟩, ha⟩ := hadmitting
    have haccepts' : ({ s with starting := false } : Visitor).accepts = true := haccepts
    unfold Visitor.receive
    dsimp only
    rw [haccepts', Bool.not_true, if_neg Bool.false_ne_true, if_neg hb]
    exact not_spared_handle ha hc hx hcloses
  | recvHandle outcome =>
    obtain ⟨-, hs⟩ := Option.ite_none_right_eq_some.mp hs
    obtain ⟨n, hn, rfl⟩ := Option.map_eq_some_iff.mp hs
    simp only [admitting, hn, Option.any_some, Bool.and_eq_true, decide_eq_true_eq] at hadmitting
    unfold Visitor.recvHandle
    dsimp only
    rw [if_neg hadmitting.1]
    exact not_spared_handle hadmitting.2 hc hx hcloses
  | goBack | arrive | fail | expire | callback | close | drop => cases hadmitting

theorem start_spared (keeper : Keeper) : (start keeper).Spared := .of_not_guest rfl rfl

/-- **No timeout from before its admission closes an admitted client**, and none is set for
one, if and only if no step of the run admits a client inside the `StartRecv` of
`AcceptProcess` or with an earlier timeout expired. -/
theorem always_spared_iff (keeper : Keeper) (ls : List Label) :
    Always step Spared (start keeper) ls ↔
      Meets step (fun s l => s.timely l = true) (start keeper) ls :=
  always_iff_meets (I := Spared) (fun _ h => h) (fun _ _ _ h hok hs => step_spared h hok hs)
    (fun _ _ _ _ hok hs => step_not_spared hok hs) ls (start_spared keeper)

/-- A cookie that comes in one read with the key: the client is admitted, and closed by the
timeout of `AcceptProcess`. -/
example : (run step (start .matching) [.receive .refused, .arrive 2, .recvHandle (.accepted false),
    .receive (.accepted false), .receive .refused, .goBack, .goBack, .expire, .callback true]).any
      (fun s => s.evicted && s.initiateClose) = true := by decide

end Visitor
end DrgbServer.Servers
