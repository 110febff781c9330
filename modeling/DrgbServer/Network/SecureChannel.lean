import DrgbServer.Network.SendQueue
import DrgbServer.Utils.Chunking

/-! # The secure channel

Two sockets that run `KeyExchange` over one connection, with a step for each `Send`, each write
that `DoSend` completes, each `StartRecv` and each read that completes, in any order and with any
number of bytes in a write or a read. Messages of the applications are sent once the handler of
`KeyExchange` has been told of its success, from one thread each. The connection stays open. What a
write puts on the wire are the bytes of the frame only if they were taken before the vector that
`DoSend` points into is gone.

A side becomes secure when it takes the key of the other out of its queue, and by then encrypted
frames may stand behind the key in its queue and its buffer. `Delivers` says what the two
applications rely on, `Flow` what a direction carries at any moment. -/
namespace DrgbServer.Network
open DrgbServer.Utils DrgbServer.Lib.Transition

inductive Side where
  | left
  | right
deriving DecidableEq

def Side.other : Side → Side
  | .left => .right
  | .right => .left

@[simp] theorem Side.other_other (side : Side) : side.other.other = side := by cases side <;> rfl

/-- `KeyExchanger` and `Encryptor` on both sides, as far as OpenSSL does the work. -/
structure Crypto (κ : Type) where
  /-- `GetPublicKey` of the exchanger of a side -/
  publicKey : Side → List Byte
  /-- `ComputeKey`; nothing for an error -/
  computeKey : Side → List Byte → Option (List Byte)
  /-- `KDF` -/
  kdf : List Byte → Nat → List Byte
  /-- the constructor, for encryption or not -/
  unkeyed : Bool → κ
  setKey : κ → List Byte → List Byte → κ
  crypt : κ → List Byte → Except Exn (List Byte) × κ

/-- `Encryptor::SplitKey`, into a key of 32 bytes and an initial vector of 16. -/
def splitKey (secret : List Byte) : List Byte × List Byte :=
  if secret.length ≠ 32 + 16 then (List.replicate 32 0, List.replicate 16 0)
  else (secret.take 32, (secret.drop 32).take 16)

/-- Where the `KeyExchange` of a socket stands. -/
inductive Exchange where
  | before
  /-- for the key of the other side -/
  | waiting
  /-- the handler was told of success -/
  | done
  /-- the handler was told of an error -/
  | failed
deriving DecidableEq

structure Peer (κ : Type) where
  exchange : Exchange
  isSecure : Bool
  encryptor : κ
  decryptor : κ
  recvbuffer : PacketProcessor
  /-- a read of the transport is pending -/
  reading : Bool
  sendQueue : List (List Byte)
  /-- the bytes that the handler of the pending write carries -/
  sending : Option (List Byte)
  /-- an exception has left a handler or a `Send` -/
  ended : Bool
  /-- the messages the application has sent -/
  sent : List (List Byte)
  /-- the messages its handlers have got -/
  delivered : List (List Byte)
deriving DecidableEq

namespace Peer
variable {κ : Type} (C : Crypto κ) (side : Side)

def start : Peer κ where
  exchange := .before
  isSecure := false
  encryptor := C.unkeyed true
  decryptor := C.unkeyed false
  recvbuffer := {}
  reading := false
  sendQueue := []
  sending := none
  ended := false
  sent := []
  delivered := []

/-- The part of `Send` under `send_mtx`. -/
def enqueue (p : Peer κ) (frame : List Byte) : Peer κ :=
  { p with
    sendQueue := p.sendQueue ++ [frame]
    sending := if p.sendQueue.isEmpty then some frame else p.sending }

def send (p : Peer κ) (bytes : List Byte) : Peer κ :=
  match Outbox.encode C.crypt p.isSecure p.encryptor bytes with
  | (.ok frame, encryptor) => enqueue { p with encryptor } frame
  | (.error _, encryptor) => { p with encryptor, ended := true }

/-- The handler `KeyExchange` receives with. -/
def finishExchange (p : Peer κ) (packet : List Byte) : Peer κ :=
  match C.computeKey side packet with
  | none => { p with exchange := .failed }
  | some secret =>
    let derived := C.kdf secret 48
    if derived.length ≠ 48 then { p with exchange := .failed }
    else
      let (key, iv) := splitKey derived
      { p with
        encryptor := C.setKey p.encryptor key iv
        decryptor := C.setKey p.decryptor key iv
        isSecure := true
        exchange := .done }

/-- The handler of the receive under way. -/
def respond (p : Peer κ) (packet : ByteQueue) : Peer κ :=
  match p.exchange with
  | .waiting => p.finishExchange C side packet.bytes
  | .done => { p with delivered := p.delivered ++ [packet.bytes] }
  | .before | .failed => p

/-- `StartRecv`, and `Recv_Handle` after `GetRecv`: a message goes to the handler, without one the
transport reads. -/
def receive (p : Peer κ) : Peer κ :=
  match p.recvbuffer.getMsg with
  | none => { p with reading := true }
  | some (msg, recvbuffer) =>
    match decrypt C.crypt p.isSecure p.decryptor msg with
    | (.ok bytes, decryptor) =>
      respond C side { p with recvbuffer, decryptor, reading := false } (ByteQueue.ofVector bytes)
    | (.error _, decryptor) => { p with recvbuffer, decryptor, reading := false, ended := true }

def keyExchange (p : Peer κ) : Peer κ :=
  receive C side { p.send C (C.publicKey side) with exchange := .waiting }

/-- `Recv_Handle` with the bytes read. -/
def recvHandle (p : Peer κ) (chunk : List Byte) : Peer κ :=
  match p.recvbuffer.recv chunk with
  | some recvbuffer => receive C side { p with recvbuffer }
  | none => { p with ended := true }

/-- `Send_Handle` after a write of `n` bytes. -/
def sendHandle (p : Peer κ) (bytes : List Byte) (n : Nat) : Peer κ :=
  if n < bytes.length then { p with sending := some (bytes.drop n) }
  else { p with sendQueue := p.sendQueue.tail, sending := p.sendQueue.tail.head? }

end Peer

structure Connection (κ : Type) where
  peers : Side → Peer κ
  /-- the bytes a side has written and the other has not read -/
  flight : Side → List Byte

namespace Connection
variable {κ : Type} (C : Crypto κ)

inductive Label where
  | keyExchange (side : Side)
  /-- a message of the application -/
  | send (side : Side) (bytes : List Byte)
  /-- a write is done -/
  | sent (side : Side) (written : Written)
  /-- the application asks for the next message -/
  | startRecv (side : Side)
  /-- a read is done -/
  | received (side : Side) (n : Nat)

def Label.side : Label → Side
  | .keyExchange side | .send side _ | .sent side _ | .startRecv side | .received side _ => side

def start : Connection κ := ⟨fun _ => Peer.start C, fun _ => []⟩

def setPeer (c : Connection κ) (side : Side) (p : Peer κ) : Connection κ :=
  { c with peers := Function.update c.peers side p }

def setFlight (c : Connection κ) (side : Side) (bytes : List Byte) : Connection κ :=
  { c with flight := Function.update c.flight side bytes }

def keyExchange (c : Connection κ) (side : Side) : Option (Connection κ) :=
  if (c.peers side).exchange = .before then
    some (c.setPeer side ((c.peers side).keyExchange C side))
  else none

/-- An application sends when its key exchange is done. -/
def send (c : Connection κ) (side : Side) (bytes : List Byte) : Option (Connection κ) :=
  if (c.peers side).exchange = .done then
    let p := (c.peers side).send C bytes
    some (c.setPeer side { p with sent := p.sent ++ [bytes] })
  else none

def sent (c : Connection κ) (side : Side) (written : Written) : Option (Connection κ) :=
  match (c.peers side).sending with
  | none => none
  | some bytes =>
    if 0 < written.count ∧ written.count ≤ bytes.length then
      some ((c.setPeer side ((c.peers side).sendHandle bytes written.count)).setFlight side
        (c.flight side ++ written.bytes bytes))
    else none

def startRecv (c : Connection κ) (side : Side) : Option (Connection κ) :=
  if (c.peers side).exchange = .done ∧ (c.peers side).reading = false then
    some (c.setPeer side ((c.peers side).receive C side))
  else none

def received (c : Connection κ) (side : Side) (n : Nat) : Option (Connection κ) :=
  if (c.peers side).reading = true ∧ 0 < n ∧ n ≤ (c.flight side.other).length then
    some ((c.setPeer side ((c.peers side).recvHandle C side
      ((c.flight side.other).take n))).setFlight side.other ((c.flight side.other).drop n))
  else none

def step (c : Connection κ) (l : Label) : Option (Connection κ) :=
  if (c.peers l.side).ended then none
  else match l with
    | .keyExchange side => c.keyExchange C side
    | .send side bytes => c.send C side bytes
    | .sent side written => c.sent side written
    | .startRecv side => c.startRecv C side
    | .received side n => c.received C side n

/-- **Delivery**: nothing has failed, the handlers of each side have got messages of the other in
order, and all of them once nothing is under way or buffered. -/
structure Delivers (c : Connection κ) : Prop where
  unbroken : ∀ side, (c.peers side).ended = false ∧ (c.peers side).exchange ≠ .failed
  inOrder : ∀ side, (c.peers side).delivered <+: (c.peers side.other).sent
  complete : ∀ side, (c.peers side.other).sendQueue = [] → c.flight side.other = [] →
    (c.peers side).recvbuffer.msgs = [] → (c.peers side).delivered = (c.peers side.other).sent

/-- The condition on a step: what is sent has fewer than 2^31 bytes, and so have the incomplete
frame and the bytes that arrive for it; a write takes its bytes before their vector is gone. -/
def fits (c : Connection κ) : Label → Prop
  | .keyExchange side => (C.publicKey side).length < 2 ^ 31
  | .send _ bytes => bytes.length < 2 ^ 31
  | .received side n => (c.peers side).recvbuffer.recvbuffer.length + n < 2 ^ 31
  | .sent _ written => written.live = true
  | .startRecv _ => True

instance (c : Connection κ) (l : Label) : Decidable (c.fits C l) :=
  match l with
  | .keyExchange side => inferInstanceAs (Decidable ((C.publicKey side).length < _))
  | .send _ bytes => inferInstanceAs (Decidable (bytes.length < _))
  | .received side n =>
    inferInstanceAs (Decidable ((c.peers side).recvbuffer.recvbuffer.length + n < _))
  | .sent _ written => inferInstanceAs (Decidable (written.live = true))
  | .startRecv _ => inferInstanceAs (Decidable True)

end Connection

/-! ## The ciphers -/

namespace Crypto
variable {κ : Type} (C : Crypto κ) {e d : κ}

/-- An `Encryptor` after some calls of `Crypt`. -/
def after (k : κ) (ms : List (List Byte)) : κ := ms.foldl (fun k m => (C.crypt k m).2) k

/-- The results of these calls. -/
def ciphers : κ → List (List Byte) → List (List Byte)
  | _, [] => []
  | k, m :: ms => ((C.crypt k m).1.toOption.getD []) :: ciphers (C.crypt k m).2 ms

/-- The `n`-th `Crypt` of the decryptor inverts the `n`-th `Crypt` of the encryptor, where the
earlier ones were for the same messages, and no cipher is empty. -/
def Inverts (e d : κ) : Prop :=
  ∀ ms m, ∃ c, (C.crypt (C.after e ms) m).1 = .ok c ∧ c ≠ [] ∧
    (C.crypt (C.after d (C.ciphers e ms)) c).1 = .ok m

/-- What the two sides rely on. -/
structure Agrees : Prop where
  publicKey : ∀ side, C.publicKey side ≠ []
  shared : ∃ shared : List Byte, shared.length = 48 ∧ ∀ side : Side, ∃ secret,
    C.computeKey side (C.publicKey side.other) = some secret ∧ C.kdf secret 48 = shared
  inverts : ∀ key iv,
    C.Inverts (C.setKey (C.unkeyed true) key iv) (C.setKey (C.unkeyed false) key iv)

variable {C}

theorem after_concat (k : κ) (ms : List (List Byte)) (m : List Byte) :
    C.after k (ms ++ [m]) = (C.crypt (C.after k ms) m).2 := by
  simp [after]

theorem ciphers_append (k : κ) (ms ns : List (List Byte)) :
    C.ciphers k (ms ++ ns) = C.ciphers k ms ++ C.ciphers (C.after k ms) ns := by
  induction ms generalizing k with
  | nil => rfl
  | cons m ms ih =>
    rw [List.cons_append, ciphers, ciphers, ih, List.cons_append]
    rfl

theorem length_ciphers (k : κ) (ms : List (List Byte)) : (C.ciphers k ms).length = ms.length := by
  induction ms generalizing k with
  | nil => rfl
  | cons m ms ih => rw [ciphers, List.length_cons, List.length_cons, ih]

/-- One message more, on both ends. -/
theorem Inverts.crypt (h : C.Inverts e d) (ms : List (List Byte)) (m : List Byte) :
    ∃ c, C.crypt (C.after e ms) m = (.ok c, C.after e (ms ++ [m])) ∧ c ≠ [] ∧
      C.ciphers e (ms ++ [m]) = C.ciphers e ms ++ [c] ∧
      C.crypt (C.after d (C.ciphers e ms)) c = (.ok m, C.after d (C.ciphers e ms ++ [c])) := by
  obtain ⟨c, hc, hne, hm⟩ := h ms m
  refine ⟨c, ?_, hne, ?_, ?_⟩
  · rw [after_concat]
    exact Prod.ext hc rfl
  · rw [ciphers_append, ciphers, hc]
    rfl
  · rw [after_concat]
    exact Prod.ext hm rfl

theorem Inverts.ne_nil (h : C.Inverts e d) (ms : List (List Byte)) : ∀ c ∈ C.ciphers e ms, c ≠ [] := by
  induction ms using List.reverseRecOn with
  | nil => intro c hc; cases hc
  | append_singleton ms m ih =>
    obtain ⟨c, -, hne, hcs, -⟩ := h.crypt ms m
    rw [hcs]
    intro x hx
    rcases List.mem_append.mp hx with hx | hx
    · exact ih x hx
    · rw [List.mem_singleton.mp hx]
      exact hne

/-- The cipher behind those of the first messages is that of the next one. -/
theorem ciphers_next {k : κ} {ds ms : List (List Byte)} {x : List Byte} (hd : ds <+: ms)
    (hx : C.ciphers k ds ++ [x] <+: C.ciphers k ms) :
    ∃ m, ds ++ [m] <+: ms ∧ C.ciphers k (ds ++ [m]) = C.ciphers k ds ++ [x] := by
  obtain ⟨rest, rfl⟩ := hd
  rw [ciphers_append, List.prefix_append_right_inj] at hx
  cases rest with
  | nil => simp [ciphers] at hx
  | cons m rest =>
    refine ⟨m, ⟨rest, by simp⟩, ?_⟩
    rw [ciphers, List.cons_prefix_cons] at hx
    rw [ciphers_append, ciphers, hx.1]
    rfl

end Crypto

/-! ## What a direction carries -/

open DrgbServer.Utils.Framing

namespace Peer
variable {κ : Type} (C : Crypto κ) (e d : κ)

/-- The bytes accepted by `Send` and not written. -/
def unsent (p : Peer κ) : List Byte := p.sending.getD [] ++ p.sendQueue.tail.flatten

/-- What the frames of a side contain: its key and the ciphers of its messages. -/
def payloads (side : Side) (p : Peer κ) : List (List Byte) :=
  if p.exchange = .before then [] else C.publicKey side :: C.ciphers e p.sent

/-- What it has taken out of the queue: the key of the other side, and ciphers. -/
def taken (side : Side) (p : Peer κ) : List (List Byte) :=
  if p.exchange = .done then C.publicKey side.other :: C.ciphers e p.delivered else []

/-- The state of a side that has not failed. -/
structure Ok (p : Peer κ) : Prop where
  running : p.ended = false
  sound : p.exchange ≠ .failed
  secure : p.isSecure = decide (p.exchange = .done)
  encryptor : p.encryptor = if p.exchange = .done then C.after e p.sent else C.unkeyed true
  decryptor : p.decryptor =
    if p.exchange = .done then C.after d (C.ciphers e p.delivered) else C.unkeyed false
  silent : p.exchange ≠ .done → p.sent = [] ∧ p.delivered = []
  queue : p.sending = none ↔ p.sendQueue = []
  reads : p.reading = true → p.exchange ≠ .before

theorem start_ok : (start C).Ok C e d where
  running := rfl
  sound := by intro h; cases h
  secure := rfl
  encryptor := rfl
  decryptor := rfl
  silent := fun _ => ⟨rfl, rfl⟩
  queue := ⟨fun _ => rfl, fun _ => rfl⟩
  reads := fun h => by cases h

variable {C e d} {p : Peer κ}

theorem unsent_enqueue (h : p.sending = none ↔ p.sendQueue = []) (frame : List Byte) :
    (p.enqueue frame).unsent = p.unsent ++ frame := by
  unfold unsent enqueue
  cases hq : p.sendQueue with
  | nil => simp [h.mpr hq]
  | cons f rest => simp

theorem unsent_sendHandle {bytes : List Byte} (h : p.sending = some bytes) (n : Nat) :
    bytes.take n ++ (p.sendHandle bytes n).unsent = p.unsent := by
  unfold unsent sendHandle
  by_cases hn : n < bytes.length
  · rw [if_pos hn, h, ← List.append_assoc]
    exact congrArg (· ++ _) (List.take_append_drop n bytes)
  · rw [if_neg hn, h, List.take_of_length_le (not_lt.mp hn)]
    rcases p.sendQueue with _ | ⟨f, _ | ⟨g, rest⟩⟩ <;> simp

end Peer

/-- One direction of the connection: the bytes of the payloads were fed to the reader, are in
flight or unsent, and its handlers have got a beginning of the messages. -/
structure Flow {κ : Type} (C : Crypto κ) (e : κ) (side : Side) (a b : Peer κ)
    (flight : List Byte) : Prop where
  stream : ∃ fed, wire (a.payloads C e side) = fed ++ flight ++ a.unsent ∧
    Drained ⟨b.recvbuffer, b.taken C e side.other⟩ fed
  inOrder : b.delivered <+: a.sent
  small : a.exchange ≠ .before → ∀ m ∈ C.publicKey side :: a.sent, m.length < 2 ^ 31

namespace Flow
variable {κ : Type} {C : Crypto κ} {e d : κ} {side : Side} {a a' b b' : Peer κ} {flight : List Byte}

/-- A step of the reading side that leaves what it has read. -/
theorem congrReader (h : Flow C e side a b flight) (hr : b'.recvbuffer = b.recvbuffer)
    (ht : b'.taken C e side.other = b.taken C e side.other) (hd : b'.delivered = b.delivered) :
    Flow C e side a b' flight where
  stream := by rw [hr, ht]; exact h.stream
  inOrder := by rw [hd]; exact h.inOrder
  small := h.small

/-- A step of the writing side that leaves what it has to write. -/
theorem congrWriter (h : Flow C e side a b flight)
    (hx : a'.exchange = .before ↔ a.exchange = .before) (hs : a'.sent = a.sent)
    (hu : a'.unsent = a.unsent) : Flow C e side a' b flight where
  stream := by
    have hp : a'.payloads C e side = a.payloads C e side := by
      unfold Peer.payloads
      rw [hs]
      exact if_congr hx rfl rfl
    rw [hp, hu]
    exact h.stream
  inOrder := by rw [hs]; exact h.inOrder
  small hne := by rw [hs]; exact h.small fun hb => hne (hx.mpr hb)

/-- A `Send`. -/
theorem send (h : Flow C e side a b flight) {m : List Byte}
    (hp : a'.payloads C e side = a.payloads C e side ++ [m])
    (hu : a'.unsent = a.unsent ++ PacketProcessor.encapsulate m) (hs : a.sent <+: a'.sent)
    (hm : ∀ m ∈ C.publicKey side :: a'.sent, m.length < 2 ^ 31) :
    Flow C e side a' b flight where
  stream := by
    obtain ⟨old, hw, hd⟩ := h.stream
    refine ⟨old, ?_, hd⟩
    rw [hp, hu, wire_append, hw]
    simp [wire]
  inOrder := h.inOrder.trans hs
  small _ := hm

/-- A write. -/
theorem sent (h : Flow C e side a b flight) {bytes : List Byte} (hb : a.sending = some bytes)
    (n : Nat) : Flow C e side (a.sendHandle bytes n) b (flight ++ bytes.take n) := by
  have hx : (a.sendHandle bytes n).exchange = a.exchange := by
    unfold Peer.sendHandle
    split <;> rfl
  have hs : (a.sendHandle bytes n).sent = a.sent := by
    unfold Peer.sendHandle
    split <;> rfl
  constructor
  · obtain ⟨old, hw, hd⟩ := h.stream
    refine ⟨old, ?_, hd⟩
    rw [Peer.payloads, hx, hs]
    rw [Peer.payloads] at hw
    rw [hw, ← Peer.unsent_sendHandle hb n]
    simp
  · rw [hs]
    exact h.inOrder
  · rw [hx, hs]
    exact h.small

/-- A read of bytes that fit the buffer. -/
theorem read (h : Flow C e side a b flight) {n : Nat} (hn : n ≤ flight.length)
    (hfit : b.recvbuffer.recvbuffer.length + n < 2 ^ 31) :
    ∃ recvbuffer, b.recvbuffer.recv (flight.take n) = some recvbuffer ∧
      Flow C e side a { b with recvbuffer } (flight.drop n) := by
  obtain ⟨old, hw, hd⟩ := h.stream
  have hlen : (flight.take n).length = n := by rw [List.length_take, Nat.min_eq_left hn]
  have hchunk : fed [.recv (flight.take n)] = flight.take n := by simp [fed]
  obtain ⟨t, ht, hdt⟩ := step_drained hd (.recv (flight.take n)) (by
    intro chunk hc
    cases hc
    rw [hlen]
    exact hfit)
  obtain ⟨recvbuffer, hr, rfl⟩ := Option.map_eq_some_iff.mp ht
  rw [hchunk] at hdt
  refine ⟨recvbuffer, hr, ⟨old ++ flight.take n, ?_, hdt⟩, h.inOrder, h.small⟩
  rw [hw, List.append_assoc old (flight.take n), List.take_append_drop]

/-- What the reading side has taken and what is in its queue is a beginning of the payloads, and
all of them where no byte is under way. -/
theorem payloads_initial (h : Flow C e side a b flight) (hkey : C.publicKey side ≠ [])
    (hi : C.Inverts e d) : b.taken C e side.other ++ b.recvbuffer.msgs <+: a.payloads C e side ∧
      (flight = [] → a.unsent = [] →
        b.taken C e side.other ++ b.recvbuffer.msgs = a.payloads C e side) := by
  obtain ⟨old, hw, hd⟩ := h.stream
  rw [List.append_assoc] at hw
  have hne : ∀ m ∈ a.payloads C e side, m ≠ [] := by
    unfold Peer.payloads
    split
    · intro m hm
      cases hm
    · intro m hm
      rcases List.mem_cons.mp hm with rfl | hm
      · exact hkey
      · exact hi.ne_nil _ m hm
  obtain ⟨hpre, hall⟩ := hd.initial_of_wire hw hne
  exact ⟨hpre, fun hf hu => hall (by rw [hf, hu]; rfl)⟩

end Flow

end DrgbServer.Network
