import DrgbServer.Lib.Transition
import DrgbServer.Network.MyClientSocket

/-! # `StartRecv`: is every receive answered?

One socket, with a step for each point at which another thread can come in: the test at
the head of `StartRecv`, its `Recv` and `DoRecv`, and the completion of the read, from
which `Recv_Handle` calls the handler or `StartRecv` again. In between any thread may
send or close, a write may fail and the transport go down.

`StartRecv` returns without a word when the socket is closed. `run_answered` says that
every receive is answered exactly once in the runs where this does not happen, and where
what arrives can be read and decrypted. -/
namespace DrgbServer.Network
open DrgbServer.Utils DrgbServer.Lib.Transition

/-- Where the receive of a socket stands; calls of `StartRecv` are numbered. -/
inductive Receiving where
  | idle
  /-- in `StartRecv`, before the test of the socket -/
  | starting (h : Nat)
  /-- in `StartRecv`, before `Recv` -/
  | admitted (h : Nat)
  /-- the transport reads -/
  | reading (h : Nat)
deriving DecidableEq

/-- The call that has not been answered. -/
def Receiving.handler : Receiving → Option Nat
  | .idle => none
  | .starting h | .admitted h | .reading h => some h

@[simp] theorem Receiving.handler_idle : Receiving.idle.handler = none := rfl

structure Channel (κ : Type) where
  /-- `isReadable()` -/
  readable : Bool
  initiateClose : Bool
  recvbuffer : PacketProcessor
  isSecure : Bool
  decryptor : κ
  receiving : Receiving
  /-- `Recv_Handle` has reported an error and will close the socket -/
  closesNext : Bool
  sendQueue : List (List Byte)
  /-- the bytes of the write that is pending -/
  sending : Option (List Byte)
  /-- the operation started by `DoClose` is pending -/
  closing : Bool
  /-- the number of calls of `StartRecv` -/
  issued : Nat
  /-- the calls whose handler was invoked, with the message or without one for an error -/
  answers : List (Nat × Option (List Byte))
  /-- an exception has left a handler, or a byte past the end of a message was read -/
  ended : Bool

namespace Channel
variable {κ : Type} (crypt : κ → List Byte → Except Exn (List Byte) × κ)

inductive Label where
  | startRecv
  /-- the test at the head of `StartRecv` -/
  | test
  /-- the rest of `StartRecv` -/
  | proceed
  | readError
  /-- bytes have arrived, on a websocket in a binary or in a text frame -/
  | received (binary : Bool) (data : List Byte)
  | close
  /-- `Close` at the end of `Recv_Handle` -/
  | closeNext
  /-- the operation of `DoClose` is done -/
  | closed
  /-- the transport goes down -/
  | disconnect
  /-- `Send` of a message, as it is after encryption -/
  | send (bytes : List Byte)
  | sent (bytesSent : Nat)
  | sendFailed

def accepts (c : Channel κ) : Bool := c.readable && !c.initiateClose

/-- `Recv`. -/
def recv (c : Channel κ) : Option (Except Exn (List Byte)) × Channel κ :=
  match c.recvbuffer.getMsg with
  | none => (none, c)
  | some (msg, recvbuffer) =>
    let (result, decryptor) := decrypt crypt c.isSecure c.decryptor msg
    (some result, { c with recvbuffer, decryptor })

/-- The handler gets the message, unless its decryption has thrown. -/
def respond (c : Channel κ) (h : Nat) : Except Exn (List Byte) → Channel κ
  | .ok msg => { c with receiving := .idle, answers := c.answers ++ [(h, some msg)] }
  | .error _ => { c with receiving := .idle, ended := true }

/-- `Recv`, and what is done where no message is complete. -/
def receive (c : Channel κ) (h : Nat) (otherwise : Receiving) : Channel κ :=
  match c.recv crypt with
  | (some result, c) => c.respond h result
  | (none, c) => { c with receiving := otherwise }

/-- `GetRecv`: a text frame is refused with an exception. -/
def getRecv (c : Channel κ) (binary : Bool) (data : List Byte) : Option PacketProcessor :=
  if !binary && !data.isEmpty then none else c.recvbuffer.recv data

def shut (c : Channel κ) : Channel κ :=
  if c.initiateClose then c
  else { c with initiateClose := true, closing := c.closing || c.readable }

/-! ## Steps -/

def startRecv (c : Channel κ) : Option (Channel κ) :=
  match c.receiving with
  | .idle => some { c with receiving := .starting c.issued, issued := c.issued + 1 }
  | _ => none

def test (c : Channel κ) : Option (Channel κ) :=
  match c.receiving with
  | .starting h => some { c with receiving := if c.accepts then .admitted h else .idle }
  | _ => none

def proceed (c : Channel κ) : Option (Channel κ) :=
  match c.receiving with
  | .admitted h => some (c.receive crypt h (.reading h))
  | _ => none

def readError (c : Channel κ) : Option (Channel κ) :=
  match c.receiving with
  | .reading h =>
    some { c with receiving := .idle, answers := c.answers ++ [(h, none)], closesNext := true }
  | _ => none

def received (c : Channel κ) (binary : Bool) (data : List Byte) : Option (Channel κ) :=
  match c.receiving with
  | .reading h => match c.getRecv binary data with
    | some recvbuffer => some (({ c with recvbuffer } : Channel κ).receive crypt h (.starting h))
    | none => some { c with receiving := .idle, ended := true }
  | _ => none

def send (c : Channel κ) (bytes : List Byte) : Channel κ :=
  if c.accepts then
    let bytes := PacketProcessor.encapsulate bytes
    { c with
      sendQueue := c.sendQueue ++ [bytes]
      sending := if c.sendQueue.isEmpty then some bytes else c.sending }
  else c

/-- `Send_Handle` without an error. -/
def sent (c : Channel κ) (bytesSent : Nat) : Option (Channel κ) :=
  match c.sending with
  | none => none
  | some bytes =>
    if bytesSent ≤ 0 then some ({ c with sending := none } : Channel κ).shut
    else if !c.readable then some { c with sending := none }
    else if bytesSent < bytes.length then some { c with sending := some (bytes.drop bytesSent) }
    else some { c with sendQueue := c.sendQueue.tail, sending := c.sendQueue.tail.head? }

def act (c : Channel κ) : Label → Option (Channel κ)
  | .startRecv => c.startRecv
  | .test => c.test
  | .proceed => c.proceed crypt
  | .readError => c.readError
  | .received binary data => c.received crypt binary data
  | .close => some c.shut
  | .closeNext => if c.closesNext then some ({ c with closesNext := false } : Channel κ).shut else none
  | .closed => if c.closing then some { c with closing := false, readable := false } else none
  | .disconnect => some { c with readable := false }
  | .send bytes => some (c.send bytes)
  | .sent bytesSent => c.sent bytesSent
  | .sendFailed => c.sending.map fun _ => ({ c with sending := none } : Channel κ).shut

def step (c : Channel κ) (l : Label) : Option (Channel κ) := if c.ended then none else c.act crypt l

/-- A connected socket that nobody has received from. -/
def start (isSecure : Bool) (decryptor : κ) : Channel κ where
  readable := true
  initiateClose := false
  recvbuffer := {}
  isSecure := isSecure
  decryptor := decryptor
  receiving := .idle
  closesNext := false
  sendQueue := []
  sending := none
  closing := false
  issued := 0
  answers := []
  ended := false

/-! ## Answers -/

/-- How often the handler of a call was invoked. -/
def answersTo (c : Channel κ) (h : Nat) : Nat := c.answers.countP fun answer => answer.1 == h

/-- No operation of the socket is pending. -/
def quiet (c : Channel κ) : Bool :=
  decide (c.receiving = .idle) && !c.closesNext && c.sending.isNone && !c.closing

/-- When nothing is pending, every call was answered exactly once. -/
def Answered (c : Channel κ) : Prop := c.quiet = true → ∀ h < c.issued, c.answersTo h = 1

/-- The first message decrypts. -/
def legible (c : Channel κ) : Bool :=
  match c.recv crypt with
  | (some (.error _), _) => false
  | _ => true

/-- The condition on a step: `StartRecv` finds the socket open, and what arrives is read
and decrypted. -/
def attentive (c : Channel κ) : Label → Bool
  | .test => c.accepts
  | .proceed => c.legible crypt
  | .received binary data => match c.getRecv binary data with
    | some recvbuffer => ({ c with recvbuffer } : Channel κ).legible crypt
    | none => false
  | _ => true

/-- The run invariant: the calls up to the one under way were answered once. -/
structure Prompt (c : Channel κ) : Prop where
  current : ∀ h, c.receiving.handler = some h → h < c.issued
  answered : ∀ h, c.answersTo h =
    if h < c.issued ∧ c.receiving.handler ≠ some h then 1 else 0

variable {crypt} {c d : Channel κ}

theorem Prompt.toAnswered (hp : c.Prompt) : c.Answered := by
  intro hq h hh
  have hidle : c.receiving = .idle := by
    simp only [quiet, Bool.and_eq_true, decide_eq_true_eq] at hq
    exact hq.1.1.1
  rw [hp.answered, if_pos]
  refine ⟨hh, ?_⟩
  rw [hidle]
  exact nofun

theorem start_prompt (isSecure : Bool) (decryptor : κ) : (start isSecure decryptor).Prompt where
  current h hh := by cases hh
  answered h := by
    rw [if_neg fun hh => absurd hh.1 (Nat.not_lt_zero h)]
    rfl

/-- A step that neither starts nor answers a receive. -/
theorem Prompt.frame (hp : c.Prompt) (hr : d.receiving.handler = c.receiving.handler)
    (hi : d.issued = c.issued) (ha : d.answers = c.answers) : d.Prompt where
  current h hh := by
    rw [hi]
    exact hp.current h (hr ▸ hh)
  answered h := by
    have hc := hp.answered h
    rw [answersTo, ha, hi, hr]
    exact hc

/-- The handler of the call under way is invoked. -/
theorem Prompt.answer (hp : c.Prompt) {h : Nat} (hh : c.receiving.handler = some h)
    {msg : Option (List Byte)} (hr : d.receiving = .idle) (hi : d.issued = c.issued)
    (ha : d.answers = c.answers ++ [(h, msg)]) : d.Prompt where
  current j hj := by
    rw [hr] at hj
    cases hj
  answered j := by
    have hc := hp.answered j
    have hlt := hp.current h hh
    rw [answersTo] at hc ⊢
    rw [ha, List.countP_append, hc, hi, hr]
    by_cases hj : j = h
    · subst hj
      simp [hh, hlt]
    · have hne : ¬ h = j := fun he => hj he.symm
      simp [hh, hne]

/-- A call of `StartRecv`. -/
theorem Prompt.call (hp : c.Prompt) (hc : c.receiving = .idle) :
    ({ c with receiving := .starting c.issued, issued := c.issued + 1 } : Channel κ).Prompt where
  current h hh := by
    cases hh
    exact Nat.lt_succ_self _
  answered h := by
    have ha := hp.answered h
    change c.answersTo h = if h < c.issued + 1 ∧ some c.issued ≠ some h then 1 else 0
    rw [ha, hc]
    by_cases hh : h < c.issued
    · have hne : ¬ c.issued = h := by omega
      have hlt : h < c.issued + 1 := by omega
      simp [hh, hne, hlt]
    · have hsum : ¬ (h < c.issued + 1 ∧ some c.issued ≠ some h) := by
        rintro ⟨hlt, hne⟩
        exact hne (congrArg some (by omega))
      rw [if_neg hsum, if_neg fun hand => hh hand.1]

/-! ## What a step keeps -/

theorem shut_frame (c : Channel κ) : c.shut.receiving = c.receiving ∧ c.shut.issued = c.issued ∧
    c.shut.answers = c.answers := by
  unfold shut
  split <;> exact ⟨rfl, rfl, rfl⟩

theorem Prompt.shut (hp : c.Prompt) : c.shut.Prompt :=
  hp.frame (congrArg _ (shut_frame c).1) (shut_frame c).2.1 (shut_frame c).2.2

theorem recv_frame (crypt : κ → List Byte → Except Exn (List Byte) × κ) (c : Channel κ) :
    (c.recv crypt).2.receiving = c.receiving ∧ (c.recv crypt).2.issued = c.issued ∧
      (c.recv crypt).2.answers = c.answers := by
  unfold recv
  split <;> exact ⟨rfl, rfl, rfl⟩

theorem receive_prompt (hp : c.Prompt) {h : Nat} (hh : c.receiving.handler = some h)
    {otherwise : Receiving} (ho : otherwise.handler = some h) (hok : c.legible crypt = true) :
    (c.receive crypt h otherwise).Prompt := by
  obtain ⟨hr, hi, ha⟩ := recv_frame crypt c
  unfold legible at hok
  unfold receive
  rcases hrecv : c.recv crypt with ⟨result, e⟩
  rw [hrecv] at hr hi ha hok
  rcases result with _ | result
  · exact hp.frame (ho.trans hh.symm) hi ha
  · cases result with
    | error ex => cases hok
    | ok msg => exact hp.answer hh rfl hi (congrArg (· ++ [(h, some msg)]) ha)

theorem received_prompt (hp : c.Prompt) {binary : Bool} {data : List Byte}
    (hok : c.attentive crypt (.received binary data) = true)
    (hs : c.received crypt binary data = some d) : d.Prompt := by
  unfold received at hs
  split at hs
  · rename_i h hreading
    split at hs
    · rename_i recvbuffer hget
      simp only [attentive, hget] at hok
      cases hs
      have hp' : ({ c with recvbuffer } : Channel κ).Prompt := hp.frame rfl rfl rfl
      refine receive_prompt hp' ?_ rfl hok
      change c.receiving.handler = some h
      rw [hreading]
      rfl
    · rename_i hget
      simp only [attentive, hget] at hok
      cases hok
  · cases hs

theorem sent_prompt (hp : c.Prompt) {bytesSent : Nat} (hs : c.sent bytesSent = some d) : d.Prompt := by
  unfold sent at hs
  split at hs
  · cases hs
  split at hs
  · cases hs
    exact Prompt.shut (hp.frame rfl rfl rfl)
  split at hs
  · cases hs
    exact hp.frame rfl rfl rfl
  split at hs
  · cases hs
    exact hp.frame rfl rfl rfl
  · cases hs
    exact hp.frame rfl rfl rfl

theorem step_prompt {l : Label} (hp : c.Prompt) (hok : c.attentive crypt l = true)
    (hs : c.step crypt l = some d) : d.Prompt := by
  unfold step at hs
  split at hs
  · cases hs
  cases l with
  | startRecv =>
    change c.startRecv = some d at hs
    unfold startRecv at hs
    split at hs
    · rename_i hidle
      cases hs
      exact hp.call hidle
    · cases hs
  | test =>
    change c.test = some d at hs
    unfold test at hs
    split at hs
    · rename_i h hstarting
      cases hs
      have hadmits : c.accepts = true := hok
      refine hp.frame ?_ rfl rfl
      rw [hstarting]
      dsimp only
      rw [if_pos hadmits]
      rfl
    · cases hs
  | proceed =>
    change c.proceed crypt = some d at hs
    unfold proceed at hs
    split at hs
    · rename_i h hadmitted
      cases hs
      exact receive_prompt hp (by rw [hadmitted]; rfl) rfl hok
    · cases hs
  | readError =>
    change c.readError = some d at hs
    unfold readError at hs
    split at hs
    · rename_i h hreading
      cases hs
      exact hp.answer (by rw [hreading]; rfl) rfl rfl rfl
    · cases hs
  | received binary data => exact received_prompt hp hok hs
  | close =>
    cases hs
    exact hp.shut
  | closeNext =>
    obtain ⟨_, hs⟩ := Option.ite_none_right_eq_some.mp hs
    cases hs
    exact Prompt.shut (hp.frame rfl rfl rfl)
  | closed =>
    obtain ⟨_, hs⟩ := Option.ite_none_right_eq_some.mp hs
    cases hs
    exact hp.frame rfl rfl rfl
  | disconnect =>
    cases hs
    exact hp.frame rfl rfl rfl
  | send bytes =>
    cases hs
    unfold send
    split
    · exact hp.frame rfl rfl rfl
    · exact hp
  | sent bytesSent => exact sent_prompt hp hs
  | sendFailed =>
    obtain ⟨_, _, hs⟩ := Option.map_eq_some_iff.mp hs
    cases hs
    exact Prompt.shut (hp.frame rfl rfl rfl)

/-- **Every receive is answered** exactly once, in the runs in which `StartRecv` finds the
socket open each time and what arrives is read and decrypted. -/
theorem run_answered (crypt : κ → List Byte → Except Exn (List Byte) × κ) (isSecure : Bool)
    (decryptor : κ) (labels : List Label)
    (h : Meets (step crypt) (fun c l => c.attentive crypt l = true) (start isSecure decryptor)
      labels) : Always (step crypt) Answered (start isSecure decryptor) labels :=
  always_of_meets (fun _ hp => hp.toAnswered) (fun _ _ _ hp hok hs => step_prompt hp hok hs)
    (start_prompt isSecure decryptor) h

/-- A message in two pieces, then the other side goes away. -/
def conversation : List Label :=
  [.startRecv, .test, .proceed, .received true [1, 2], .test, .proceed,
    .received true [3, PacketProcessor.pattern, PacketProcessor.eof], .startRecv, .test, .proceed,
    .disconnect, .readError, .closeNext]

/-- A socket without encryption. -/
def plain (k : Unit) (msg : List Byte) : Except Exn (List Byte) × Unit := (.ok msg, k)

theorem run_answered_conversation :
    Always (step plain) Answered (start false ()) conversation ∧
      ∃ c, run (step plain) (start false ()) conversation = some c ∧
        c.answers = [(0, some [1, 2, 3]), (1, none)] ∧ c.quiet = true := by
  refine ⟨run_answered _ _ _ _ (by decide +kernel), ?_⟩
  exact exists_run_of_any (by decide +kernel)

/-- A receive on a socket that was closed is never answered. -/
theorem not_answered_closed :
    ∃ c, run (step plain) (start false ()) [.close, .closed, .startRecv, .test] = some c ∧
      ¬ c.Answered := by
  have h : ∃ c, run (step plain) (start false ()) [.close, .closed, .startRecv, .test] = some c ∧
      c.quiet = true ∧ 0 < c.issued ∧ c.answersTo 0 ≠ 1 := exists_run_of_any (by decide +kernel)
  obtain ⟨c, hr, hq, hi, ha⟩ := h
  exact ⟨c, hr, fun hall => ha (hall hq 0 hi)⟩

end Channel
end DrgbServer.Network
