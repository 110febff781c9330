import DrgbServer.Lib.Procedure
import DrgbServer.Utils.ByteQueue
import DrgbServer.Utils.PacketProcessor

/-! # `MyClientSocket`: what the handlers of the servers see of a connection

A handler sends, closes and asks for the next packet. `StartRecv` runs the handler
at once while complete messages are buffered, so the receive handlers of the
servers, which end with a `StartRecv`, recurse over the buffered messages in one
call. OpenSSL is the parameter `crypt`: a decryptor with a state, which may throw. -/
namespace DrgbServer.Network
open DrgbServer.Utils DrgbServer.Lib.Procedure

abbrev SocketId := Nat

/-- Why a procedure does not go on: an exception, or a null pointer dereferenced. -/
inductive Stop where
  | thrown (e : Exn)
  | undefined
deriving DecidableEq

/-- A value that may be an exception. -/
def raise {σ α : Type} (r : Except Exn α) : Proc σ Stop α :=
  match r with
  | .ok a => pure a
  | .error e => throw (.thrown e)

/-- A `try` block: only exceptions are caught. -/
def catching {σ α : Type} (m : Proc σ Stop α) (handler : Exn → Proc σ Stop α) : Proc σ Stop α :=
  tryCatch m fun
    | .thrown e => handler e
    | .undefined => throw .undefined

section
variable {σ α β : Type} {I : σ → Prop} {E : Stop → Prop}

theorem raise_ok_bind (a : α) (f : α → Proc σ Stop β) : (raise (.ok a) >>= f) = f a := rfl

theorem raise_error_bind (e : Exn) (f : α → Proc σ Stop β) :
    (raise (.error e) >>= f) = throw (.thrown e) := rfl

theorem keeps_raise {r : Except Exn α} (h : ∀ e, r = .error e → E (.thrown e)) :
    Keeps I E (raise r : Proc σ Stop α) := by
  cases r with
  | ok a => exact keeps_pure
  | error e => exact keeps_throw (h e rfl)

/-- A field that does not fit into the packet throws. -/
theorem throws_pop {packet : List Byte} {len : Nat} (h : ¬ len ≤ (ByteQueue.ofVector packet).size)
    (hw : len < 2 ^ 64) (s : σ) : Throws (raise ((ByteQueue.ofVector packet).pop len false)) s := by
  rw [ByteQueue.pop_ofVector_of_lt h hw]
  exact ⟨_, _, rfl⟩

/-- A block whose every exception is handled lets none out. -/
theorem keeps_catching {m : Proc σ Stop α} {handler : Exn → Proc σ Stop α}
    (hm : Keeps I (· ≠ .undefined) m) (hh : ∀ e, Keeps I E (handler e)) :
    Keeps I E (catching m handler) := by
  refine keeps_tryCatch hm ?_
  intro e he
  cases e with
  | thrown e => exact hh e
  | undefined => exact absurd rfl he

end

/-! ## The socket -/

structure Socket where
  /-- `isReadable()`: the transport is open -/
  readable : Bool
  initiateClose : Bool
  ttl : Int
  /-- the messages `Send` has accepted, before encryption and framing -/
  sent : List (List Byte)
deriving DecidableEq

namespace Socket

/-- The test at the head of `StartRecv` and `Send`. -/
def accepts (c : Socket) : Bool := c.readable && !c.initiateClose

def send (c : Socket) (bytes : ByteQueue) : Socket :=
  if c.accepts then { c with sent := c.sent ++ [bytes.bytes] } else c

/-- `Close`: the transport is closed by an operation started here and ended later. -/
def close (c : Socket) : Socket := { c with initiateClose := true }

def fillTTL (c : Socket) (ttl : Int) : Socket := { c with ttl := ttl }

@[simp] theorem accepts_send (c : Socket) (bytes : ByteQueue) :
    (c.send bytes).accepts = c.accepts := by
  unfold send
  split <;> rfl

@[simp] theorem accepts_fillTTL (c : Socket) (ttl : Int) : (c.fillTTL ttl).accepts = c.accepts := rfl

end Socket

def sessionTTL : Int := 4

/-- A packet of one byte: `ByteQueue::Create<byte>`. -/
def code (b : Byte) : ByteQueue := ByteQueue.create [b]

/-- The sockets by number; `none` once the object is gone and weak pointers to it
are expired. -/
abbrev Sockets := SocketId → Option Socket

namespace Sockets

def modify (ss : Sockets) (k : SocketId) (f : Socket → Socket) : Sockets :=
  Function.update ss k ((ss k).map f)

def accepts (ss : Sockets) (k : SocketId) : Bool := (ss k).any Socket.accepts

@[simp] theorem modify_self (ss : Sockets) (k : SocketId) (f : Socket → Socket) :
    ss.modify k f k = (ss k).map f := by
  simp [modify]

theorem modify_other (ss : Sockets) {k j : SocketId} (f : Socket → Socket) (h : j ≠ k) :
    ss.modify k f j = ss j := by
  simp [modify, h]

/-- Updates that neither open nor close. -/
theorem accepts_modify (ss : Sockets) (k j : SocketId) {f : Socket → Socket}
    (hf : ∀ c, (f c).accepts = c.accepts) : (ss.modify k f).accepts j = ss.accepts j := by
  unfold accepts
  by_cases h : j = k
  · subst h
    rw [modify_self]
    cases ss j with
    | none => rfl
    | some c => exact hf c
  · rw [modify_other ss f h]

theorem isSome_modify (ss : Sockets) (k j : SocketId) (f : Socket → Socket) :
    (ss.modify k f j).isSome = (ss j).isSome := by
  by_cases h : j = k
  · subst h
    rw [modify_self, Option.isSome_map]
  · rw [modify_other ss f h]

/-- Updates that do not open. -/
theorem accepts_of_modify {ss : Sockets} {k j : SocketId} {f : Socket → Socket}
    (hf : ∀ c, (f c).accepts = true → c.accepts = true) (h : (ss.modify k f).accepts j = true) :
    ss.accepts j = true := by
  unfold accepts at h ⊢
  by_cases hj : j = k
  · subst hj
    rw [modify_self, Option.any_map] at h
    obtain ⟨c, hc, ha⟩ := (Option.any_eq_true _ _).mp h
    exact (Option.any_eq_true _ _).mpr ⟨c, hc, hf c ha⟩
  · rwa [modify_other ss f hj] at h

/-- After `Close` the socket accepts nothing. -/
theorem not_accepts_close (ss : Sockets) (k : SocketId) :
    (ss.modify k (·.close)).accepts k = false := by
  unfold accepts
  rw [modify_self]
  cases ss k with
  | none => rfl
  | some c => simp [Socket.accepts, Socket.close]

end Sockets

/-! ## Receiving -/

/-- What `Recv` reads: the complete messages, and the decryptor of a secure socket. -/
structure Inbox (κ : Type) where
  msgs : List (List Byte)
  isSecure : Bool
  decryptor : κ

section Receive
variable {σ κ : Type} (crypt : κ → List Byte → Except Exn (List Byte) × κ)

/-- The message, decrypted on a secure socket. -/
def decrypt (isSecure : Bool) (k : κ) (msg : List Byte) : Except Exn (List Byte) × κ :=
  if isSecure then crypt k msg else (.ok msg, k)

/-- `StartRecv` with a handler that ends with a `StartRecv` of itself. The `i`-th call
finds the state that `meanwhile i` makes of it, what other threads do; `accepts` is
the test of the socket. The result is the inbox when no handler runs any more. -/
def startRecv (accepts : σ → Bool) (meanwhile : Nat → σ → σ)
    (handler : Nat → ByteQueue → Proc σ Stop Unit) (isSecure : Bool) :
    List (List Byte) → κ → Nat → Proc σ Stop (Inbox κ)
  | [], k, i => do
    modify (meanwhile i)
    return ⟨[], isSecure, k⟩
  | msg :: rest, k, i => do
    modify (meanwhile i)
    if accepts (← get) then
      let (result, k) := decrypt crypt isSecure k msg
      let packet ← raise result
      handler i (ByteQueue.ofVector packet)
      startRecv accepts meanwhile handler isSecure rest k (i + 1)
    else return ⟨msg :: rest, isSecure, k⟩

/-- A receive handler that ends with a `StartRecv` of itself, called with a packet. -/
def receiving (accepts : σ → Bool) (meanwhile : Nat → σ → σ)
    (handler : Nat → ByteQueue → Proc σ Stop Unit) (inbox : Inbox κ)
    (packet : List Byte) : Proc σ Stop (Inbox κ) := do
  handler 0 (ByteQueue.ofVector packet)
  startRecv crypt accepts meanwhile (fun i => handler (i + 1)) inbox.isSecure inbox.msgs
    inbox.decryptor 0

/-- The messages decrypt one after the other, to packets with `ok`. -/
def Legible (ok : List Byte → Prop) (isSecure : Bool) : List (List Byte) → κ → Prop
  | [], _ => True
  | msg :: rest, k => match decrypt crypt isSecure k msg with
    | (.ok packet, k) => ok packet ∧ Legible ok isSecure rest k
    | (.error _, _) => False

/-- The messages of an inbox. -/
def Inbox.Legible (ok : List Byte → Prop) (inbox : Inbox κ) : Prop :=
  Network.Legible crypt ok inbox.isSecure inbox.msgs inbox.decryptor

variable {crypt} {accepts : σ → Bool} {meanwhile : Nat → σ → σ}
  {handler : Nat → ByteQueue → Proc σ Stop Unit} {ok : List Byte → Prop} {isSecure : Bool}

theorem legible_of_ok {msg packet : List Byte} {rest : List (List Byte)} {k k' : κ}
    (h : decrypt crypt isSecure k msg = (.ok packet, k')) :
    Legible crypt ok isSecure (msg :: rest) k ↔
      ok packet ∧ Legible crypt ok isSecure rest k' := by
  rw [Legible, h]

theorem not_legible_of_error {msg : List Byte} {rest : List (List Byte)} {k k' : κ} {e : Exn}
    (h : decrypt crypt isSecure k msg = (.error e, k')) :
    ¬ Legible crypt ok isSecure (msg :: rest) k := by
  rw [Legible, h]
  exact id

/-- **Buffered messages do no harm** where each decrypts to a packet the handler
survives. -/
theorem startRecv_keeps (accepts : σ → Bool) (meanwhile : Nat → σ → σ)
    (hh : ∀ i v, ok v →
      Keeps (fun _ => True) (fun _ => False) (handler i (ByteQueue.ofVector v)))
    {msgs : List (List Byte)} {k : κ} (hl : Legible crypt ok isSecure msgs k) (i : Nat) :
    Keeps (fun _ => True) (fun _ => False)
      (startRecv crypt accepts meanwhile handler isSecure msgs k i) := by
  induction msgs generalizing k i with
  | nil =>
    refine keeps_bind (keeps_modify fun _ _ => trivial) fun _ => ?_
    exact keeps_pure
  | cons msg rest ih =>
    rw [startRecv]
    refine keeps_bind (keeps_modify fun _ _ => trivial) fun _ => ?_
    refine keeps_bind keeps_get fun s => ?_
    rcases hd : decrypt crypt isSecure k msg with ⟨r, k'⟩
    split
    · cases r with
      | error e => exact absurd hl (not_legible_of_error hd)
      | ok packet =>
        obtain ⟨hok, hrest⟩ := (legible_of_ok hd).mp hl
        simp only [raise_ok_bind]
        exact keeps_bind (hh i _ hok) fun _ => ih hrest (i + 1)
    · exact keeps_pure

/-- A message that does not decrypt, or decrypts to a packet the handler throws on,
is reached while the handler leaves the socket open. -/
theorem startRecv_throws {I : σ → Prop} (hI : ∀ s, I s → accepts s = true)
    (hkeep : ∀ i v, ok v → Keeps I (fun _ => False) (handler i (ByteQueue.ofVector v)))
    (hbad : ∀ i v s, ¬ ok v → Throws (handler i (ByteQueue.ofVector v)) s)
    {msgs : List (List Byte)} {k : κ} (hl : ¬ Legible crypt ok isSecure msgs k) (i : Nat)
    {s : σ} (hs : I s) :
    Throws (startRecv crypt accepts (fun _ => id) handler isSecure msgs k i) s := by
  induction msgs generalizing k i s with
  | nil => exact absurd trivial hl
  | cons msg rest ih =>
    rw [startRecv]
    refine throws_bind_right (exec_modify id s) ?_
    refine throws_bind_right (exec_get s) ?_
    rcases hd : decrypt crypt isSecure k msg with ⟨r, k'⟩
    simp only [hI s hs, if_true]
    cases r with
    | error e => exact ⟨.thrown e, s, rfl⟩
    | ok packet =>
      rw [raise_ok_bind]
      rw [legible_of_ok hd, not_and] at hl
      by_cases hok : ok packet
      · obtain ⟨u, t, ht, hi⟩ := (hkeep i _ hok).returns hs
        exact throws_bind_right ht (ih (hl hok) (i + 1) hi)
      · exact throws_bind_left (hbad i _ s hok) _

theorem receiving_keeps (accepts : σ → Bool) (meanwhile : Nat → σ → σ)
    (hh : ∀ i v, ok v →
      Keeps (fun _ => True) (fun _ => False) (handler i (ByteQueue.ofVector v)))
    {inbox : Inbox κ} {packet : List Byte} (hp : ok packet) (hl : inbox.Legible crypt ok) :
    Keeps (fun _ => True) (fun _ => False)
      (receiving crypt accepts meanwhile handler inbox packet) :=
  keeps_bind (hh 0 packet hp) fun _ =>
    startRecv_keeps accepts meanwhile (fun i v => hh (i + 1) v) hl 0

theorem receiving_throws {I : σ → Prop} (hI : ∀ s, I s → accepts s = true)
    (hkeep : ∀ i v, ok v → Keeps I (fun _ => False) (handler i (ByteQueue.ofVector v)))
    (hbad : ∀ i v s, ¬ ok v → Throws (handler i (ByteQueue.ofVector v)) s) {inbox : Inbox κ} {packet : List Byte}
    (hl : ¬ (ok packet ∧ inbox.Legible crypt ok)) {s : σ} (hs : I s) :
    Throws (receiving crypt accepts (fun _ => id) handler inbox packet) s := by
  rw [not_and] at hl
  by_cases hp : ok packet
  · obtain ⟨u, t, ht, hi⟩ := (hkeep 0 packet hp).returns hs
    refine throws_bind_right ht ?_
    exact startRecv_throws hI (fun i v => hkeep (i + 1) v) (fun i v s => hbad (i + 1) v s)
      (hl hp) 0 hi
  · exact throws_bind_left (hbad 0 packet s hp) _

end Receive

/-! ## The vector of a write -/

/-- What a write that completes has put on the wire. `DoSend` passes on a pointer into a vector
that dies when `Send` or `Send_Handle` returns; only the handler has a copy. -/
inductive Written where
  /-- so many of the bytes, taken before the return -/
  | taken (n : Nat)
  /-- what that memory held later -/
  | stale (found : List Byte)
deriving DecidableEq

namespace Written

/-- The number of bytes the transport reports. -/
def count : Written → Nat
  | .taken n => n
  | .stale found => found.length

def bytes (written : Written) (vector : List Byte) : List Byte :=
  match written with
  | .taken n => vector.take n
  | .stale found => found

/-- The vector was alive when the bytes were taken. -/
def live : Written → Bool
  | .taken _ => true
  | .stale _ => false

theorem bytes_of_live {written : Written} (h : written.live = true) (vector : List Byte) :
    written.bytes vector = vector.take written.count := by
  cases written with
  | taken n => rfl
  | stale found => cases h

end Written

end DrgbServer.Network
