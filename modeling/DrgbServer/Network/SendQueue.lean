import DrgbServer.Lib.Transition
import DrgbServer.Network.MyClientSocket

/-! # `Send` and `send_queue`

The writing side of one TCP socket with any number of threads in `Send`. Between the test
under `mtx` and the entry into `send_queue` under `send_mtx` a `Send` holds no lock, and it
is there that it encrypts. The first frame of the queue is the one being written; the
others wait for `Send_Handle`. `Close` starts an operation that closes the socket when the
transport is ready for writing, whatever the queue holds.

`inOrder_iff` says in which runs the frames enter the queue in the order in which they were
encrypted; `delivered_iff` in which runs the frames accepted before `Close` are handed to
`DoSend`, and written, before the socket is closed. -/
namespace DrgbServer.Network
open DrgbServer.Utils DrgbServer.Lib.Transition

structure Outbox (κ : Type) where
  /-- `isReadable()`: the socket is open -/
  readable : Bool
  initiateClose : Bool
  /-- the operation started by `DoClose` is pending -/
  closing : Bool
  isSecure : Bool
  encryptor : κ
  /-- the messages of the calls of `Send` that have passed the test -/
  admitted : List (List Byte)
  /-- the frames of the calls before `send_mtx`, each with the number of its encryption -/
  encrypted : List (Nat × List Byte)
  sendQueue : List (List Byte)
  /-- the bytes of the write that is pending -/
  sending : Option (List Byte)
  /-- the number of encryptions -/
  crypted : Nat
  /-- the frames that have entered the queue, by the number of their encryption -/
  entered : List Nat
  /-- the frames that entered the queue before `Close` -/
  accepted : List (List Byte)
  /-- the frames that entered it later -/
  late : List (List Byte)
  /-- the frames that `DoSend` was called with -/
  passed : List (List Byte)
  /-- the frames whose last byte has been written -/
  written : List (List Byte)

namespace Outbox
variable {κ : Type} (crypt : κ → List Byte → Except Exn (List Byte) × κ)

inductive Label where
  /-- `Send` up to the test of the socket -/
  | send (bytes : List Byte)
  /-- the `i`-th of the admitted calls encrypts its message -/
  | crypt (i : Nat)
  /-- the call with the `n`-th encryption takes `send_mtx` -/
  | push (n : Nat)
  | sent (bytesSent : Nat)
  | sendFailed
  | close
  /-- the operation of `DoClose` is done -/
  | closed
deriving DecidableEq

/-- What `Send` makes of a message outside of the locks. -/
def encode (isSecure : Bool) (k : κ) (bytes : List Byte) : Except Exn (List Byte) × κ :=
  if isSecure then
    let (result, k) := crypt k bytes
    (result.map PacketProcessor.encapsulate, k)
  else (.ok (PacketProcessor.encapsulate bytes), k)

/-- An exception of `Crypt` leaves `Send`. -/
def finishCrypt (s : Outbox κ) : Except Exn (List Byte) × κ → Outbox κ
  | (.ok frame, k) =>
    { s with encryptor := k, encrypted := s.encrypted ++ [(s.crypted, frame)], crypted := s.crypted + 1 }
  | (.error _, k) => { s with encryptor := k }

/-- The part of `Send` under `send_mtx`. -/
def enqueue (s : Outbox κ) (frame : List Byte) : Outbox κ :=
  { s with
    sendQueue := s.sendQueue ++ [frame]
    sending := if s.sendQueue.isEmpty then some frame else s.sending
    passed := if s.sendQueue.isEmpty then s.passed ++ [frame] else s.passed
    accepted := if s.initiateClose then s.accepted else s.accepted ++ [frame]
    late := if s.initiateClose then s.late ++ [frame] else s.late }

def push (s : Outbox κ) (n : Nat) : Option (Outbox κ) :=
  (s.encrypted.find? (·.1 == n)).map fun call =>
    enqueue { s with
      encrypted := s.encrypted.filter (·.1 != n)
      entered := s.entered ++ [n] } call.2

def shut (s : Outbox κ) : Outbox κ :=
  if s.initiateClose then s
  else { s with initiateClose := true, closing := s.closing || s.readable }

/-- The last branch of `Send_Handle`: the next frame of the queue is its turn. -/
def popQueue (s : Outbox κ) : Outbox κ :=
  { s with
    sendQueue := s.sendQueue.tail
    sending := s.sendQueue.tail.head?
    written := s.written ++ s.sendQueue.head?.toList
    passed := s.passed ++ s.sendQueue.tail.head?.toList }

/-- `Send_Handle` without an error. -/
def sent (s : Outbox κ) (bytesSent : Nat) : Option (Outbox κ) :=
  s.sending.map fun bytes =>
    if bytesSent ≤ 0 then ({ s with sending := none } : Outbox κ).shut
    else if !s.readable then { s with sending := none }
    else if bytesSent < bytes.length then { s with sending := some (bytes.drop bytesSent) }
    else s.popQueue

def step (s : Outbox κ) : Label → Option (Outbox κ)
  | .send bytes =>
    some (if s.readable && !s.initiateClose then { s with admitted := s.admitted ++ [bytes] } else s)
  | .crypt i => s.admitted[i]?.map fun bytes =>
    finishCrypt { s with admitted := s.admitted.eraseIdx i } (encode crypt s.isSecure s.encryptor bytes)
  | .push n => s.push n
  | .sent bytesSent => s.sent bytesSent
  | .sendFailed => s.sending.map fun _ => ({ s with sending := none } : Outbox κ).shut
  | .close => some s.shut
  | .closed => if s.closing then some { s with closing := false, readable := false } else none

/-- A connected socket. -/
def start (isSecure : Bool) (encryptor : κ) : Outbox κ where
  readable := true
  initiateClose := false
  closing := false
  isSecure := isSecure
  encryptor := encryptor
  admitted := []
  encrypted := []
  sendQueue := []
  sending := none
  crypted := 0
  entered := []
  accepted := []
  late := []
  passed := []
  written := []

variable {crypt} {s t : Outbox κ}

/-- What a step can do, apart from the history of the queue. -/
theorem shut_spec (s : Outbox κ) :
    s.shut = { s with initiateClose := s.shut.initiateClose, closing := s.shut.closing } ∧
      s.shut.initiateClose = true := by
  unfold shut
  split
  · exact ⟨rfl, by assumption⟩
  · exact ⟨rfl, rfl⟩

/-! ## The order of the frames -/

/-- The frames have entered the queue in the order of their encryption, without a gap. -/
def InOrder (s : Outbox κ) : Prop := s.entered = List.range s.entered.length

/-- The condition on a step: a `Send` enters the queue only when none that has encrypted
before it is still on the way. -/
def orderly (s : Outbox κ) : Label → Bool
  | .push n => s.encrypted.all (n ≤ ·.1)
  | _ => true

/-- The frames on the way are those encrypted after all that have entered. -/
structure Sequenced (s : Outbox κ) : Prop where
  inOrder : s.InOrder
  pending : s.entered.length + s.encrypted.length = s.crypted
  numbers : s.encrypted.map Prod.fst = List.range' s.entered.length s.encrypted.length

theorem start_sequenced (isSecure : Bool) (k : κ) : (start isSecure k).Sequenced :=
  ⟨rfl, rfl, rfl⟩

theorem Sequenced.frame (h : s.Sequenced) (he : t.entered = s.entered)
    (hc : t.encrypted = s.encrypted) (hn : t.crypted = s.crypted) : t.Sequenced := by
  obtain ⟨h1, h2, h3⟩ := h
  refine ⟨?_, ?_, ?_⟩
  · rw [InOrder, he]; exact h1
  · rw [he, hc, hn]; exact h2
  · rw [he, hc]; exact h3

theorem Sequenced.shut (h : s.Sequenced) : s.shut.Sequenced := by
  rw [(shut_spec s).1]
  exact h.frame rfl rfl rfl

theorem Sequenced.finishCrypt (h : s.Sequenced) (r : Except Exn (List Byte) × κ) :
    (s.finishCrypt r).Sequenced := by
  obtain ⟨result, k⟩ := r
  cases result with
  | error e => exact h.frame rfl rfl rfl
  | ok bytes =>
    have hp := h.pending
    refine ⟨h.inOrder, ?_, ?_⟩
    · simp only [Outbox.finishCrypt, List.length_append, List.length_singleton]
      omega
    · simp only [Outbox.finishCrypt, List.map_append, List.map_cons, List.map_nil,
        List.length_append, List.length_singleton]
      rw [h.numbers, ← hp, List.range'_concat]
      simp

/-- In a sequenced outbox the one number that may enter is the next. -/
theorem Sequenced.push_iff (h : s.Sequenced) {n : Nat} {call : Nat × List Byte}
    (hc : s.encrypted.find? (·.1 == n) = some call) :
    s.orderly (.push n) = true ↔ n = s.entered.length := by
  have hmem : n ∈ s.encrypted.map Prod.fst := by
    have h1 := List.mem_of_find?_eq_some hc
    have h2 := List.find?_some hc
    rw [beq_iff_eq] at h2
    exact List.mem_map.mpr ⟨call, h1, h2⟩
  have hlow : ∀ m ∈ s.encrypted.map Prod.fst, s.entered.length ≤ m := by
    intro m hm
    rw [h.numbers, List.mem_range'_1] at hm
    exact hm.1
  have hall : s.orderly (.push n) = true ↔ ∀ m ∈ s.encrypted.map Prod.fst, n ≤ m := by
    simp [orderly]
  rw [hall]
  constructor
  · intro hn
    -- the first number on the way is the next one to enter
    have hpos : 0 < s.encrypted.length := by
      rw [h.numbers, List.mem_range'_1] at hmem
      omega
    have hfirst : s.entered.length ∈ s.encrypted.map Prod.fst := by
      rw [h.numbers, List.mem_range'_1]
      omega
    exact Nat.le_antisymm (hn _ hfirst) (hlow n hmem)
  · intro hn m hm
    rw [hn]
    exact hlow m hm

theorem Sequenced.push (h : s.Sequenced) {n : Nat} (hok : s.orderly (.push n) = true)
    (hs : s.push n = some t) : t.Sequenced := by
  obtain ⟨call, hc, rfl⟩ := Option.map_eq_some_iff.mp hs
  have hn := (h.push_iff hc).mp hok
  have hnum := h.numbers
  cases he : s.encrypted with
  | nil => rw [he] at hc; cases hc
  | cons q rest =>
    rw [he, List.map_cons, List.length_cons, List.range'_succ, List.cons.injEq] at hnum
    have hfilter : (q :: rest).filter (·.1 != n) = rest := by
      rw [List.filter_cons_of_neg (by simp [hnum.1, hn]), List.filter_eq_self]
      intro x hx
      have : x.1 ∈ rest.map Prod.fst := List.mem_map_of_mem hx
      rw [hnum.2, List.mem_range'_1] at this
      simp only [bne_iff_ne]
      omega
    have hp := h.pending
    rw [he, List.length_cons] at hp
    refine ⟨?_, ?_, ?_⟩
    · simp only [InOrder, enqueue, List.length_append, List.length_singleton]
      rw [List.range_succ, ← h.inOrder, hn]
    · simp only [enqueue, hfilter, List.length_append, List.length_singleton]
      omega
    · simp only [enqueue, hfilter, List.length_append, List.length_singleton]
      exact hnum.2

theorem sent_frame {bytesSent : Nat} (hs : s.sent bytesSent = some t) :
    t.entered = s.entered ∧ t.encrypted = s.encrypted ∧ t.crypted = s.crypted := by
  obtain ⟨bytes, hb, rfl⟩ := Option.map_eq_some_iff.mp hs
  split
  · rw [(shut_spec _).1]
    exact ⟨rfl, rfl, rfl⟩
  split
  · exact ⟨rfl, rfl, rfl⟩
  split <;> exact ⟨rfl, rfl, rfl⟩

theorem step_sequenced {l : Label} (h : s.Sequenced) (hok : s.orderly l = true)
    (hs : s.step crypt l = some t) : t.Sequenced := by
  cases l with
  | send bytes =>
    cases hs
    split
    · exact h.frame rfl rfl rfl
    · exact h
  | crypt i =>
    obtain ⟨bytes, hb, rfl⟩ := Option.map_eq_some_iff.mp hs
    refine Sequenced.finishCrypt ?_ _
    exact h.frame rfl rfl rfl
  | push n => exact h.push hok hs
  | sent bytesSent =>
    obtain ⟨h1, h2, h3⟩ := sent_frame hs
    exact h.frame h1 h2 h3
  | sendFailed =>
    obtain ⟨bytes, hb, rfl⟩ := Option.map_eq_some_iff.mp hs
    exact Sequenced.shut (h.frame rfl rfl rfl)
  | close =>
    cases hs
    exact h.shut
  | closed =>
    obtain ⟨_, hs⟩ := Option.ite_none_right_eq_some.mp hs
    cases hs
    exact h.frame rfl rfl rfl

/-- A step that does not meet the condition breaks the order at once. -/
theorem not_inOrder_of_not_orderly {l : Label} (h : s.Sequenced) (hok : ¬ s.orderly l = true)
    (hs : s.step crypt l = some t) : ¬ t.InOrder := by
  cases l with
  | push n =>
    obtain ⟨call, hc, rfl⟩ := Option.map_eq_some_iff.mp hs
    rw [h.push_iff hc] at hok
    intro hord
    simp only [InOrder, enqueue, List.length_append, List.length_singleton] at hord
    rw [List.range_succ, ← h.inOrder] at hord
    exact hok (List.singleton_inj.mp (List.append_cancel_left hord))
  | send bytes => exact absurd rfl hok
  | crypt i => exact absurd rfl hok
  | sent bytesSent => exact absurd rfl hok
  | sendFailed => exact absurd rfl hok
  | close => exact absurd rfl hok
  | closed => exact absurd rfl hok

/-- **The order on the wire.** Along a run of a secure socket the frames always enter the
queue in the order of their encryption if and only if no `Send` ever enters it while one
that has encrypted before is still on the way. -/
theorem inOrder_iff (crypt : κ → List Byte → Except Exn (List Byte) × κ) (encryptor : κ)
    (labels : List Label) :
    Always (step crypt) InOrder (start true encryptor) labels ↔
      Meets (step crypt) (fun s l => s.orderly l = true) (start true encryptor) labels :=
  always_iff_meets (fun _ h => h.inOrder) (fun _ _ _ h hok hs => step_sequenced h hok hs)
    (fun _ _ _ h hok hs => not_inOrder_of_not_orderly h hok hs) labels
    (start_sequenced true encryptor)

/-- A cipher that numbers its messages. -/
def numbering (k : Byte) (msg : List Byte) : Except Exn (List Byte) × Byte := (.ok (k :: msg), k + 1)

/-- Two threads: the one that encrypts first is overtaken on its way to the queue. -/
theorem overtaken_not_inOrder :
    ∃ s, run (step numbering) (start true 0)
        [.send [1], .send [2], .crypt 0, .crypt 0, .push 1, .push 0] = some s ∧
      s.sendQueue.map PacketProcessor.decapsulate = [some [1, 2], some [0, 1]] ∧
      ¬ s.InOrder := by
  have h : ∃ s, run (step numbering) (start true 0)
        [.send [1], .send [2], .crypt 0, .crypt 0, .push 1, .push 0] = some s ∧
      s.sendQueue.map PacketProcessor.decapsulate = [some [1, 2], some [0, 1]] ∧
      s.entered ≠ List.range s.entered.length := exists_run_of_any (by decide +kernel)
  exact h

/-! ## Sending, then closing -/

/-- When the socket is closed, the frames accepted before `Close` are the first of those
that `done` tells. -/
def Complete (done : Outbox κ → List (List Byte)) (s : Outbox κ) : Prop :=
  s.readable = false → s.accepted <+: done s

/-- `DoSend` was called with every frame accepted before `Close`. -/
def Handed : Outbox κ → Prop := Complete passed

/-- Every frame accepted before `Close` was written. -/
def Written : Outbox κ → Prop := Complete written

/-- The condition on a step: when the socket is closed, the frames of `rest` have all
entered the queue after `Close`. -/
def cleared (rest : Outbox κ → List (List Byte)) (s : Outbox κ) : Label → Bool
  | .closed => (rest s).length ≤ s.late.length
  | _ => true

/-- No frame accepted before `Close` waits behind the first of the queue. -/
def noneWaits : Outbox κ → Label → Bool := cleared fun s => s.sendQueue.tail

/-- No frame accepted before `Close` is in the queue. -/
def noneQueued : Outbox κ → Label → Bool := cleared sendQueue

/-- The queue against its history. -/
structure Accounted (s : Outbox κ) : Prop where
  written : s.written ++ s.sendQueue = s.accepted ++ s.late
  passed : s.passed ++ s.sendQueue.tail = s.accepted ++ s.late
  sending : s.sending.isSome = true → s.sendQueue ≠ []
  late : s.initiateClose = false → s.late = []
  closing : s.closing = true ∨ s.readable = false → s.initiateClose = true

theorem start_accounted (isSecure : Bool) (k : κ) : (start isSecure k).Accounted where
  written := rfl
  passed := rfl
  sending h := absurd h (by simp [start])
  late _ := rfl
  closing h := absurd h (by simp [start])

/-- A step that leaves the queue and its history alone. -/
theorem Accounted.frame (h : s.Accounted) (hw : t.written = s.written) (hp : t.passed = s.passed)
    (hq : t.sendQueue = s.sendQueue) (ha : t.accepted = s.accepted) (hl : t.late = s.late)
    (hs : t.sending.isSome = true → s.sending.isSome = true)
    (hi : s.initiateClose = true → t.initiateClose = true)
    (hc : t.closing = true ∨ t.readable = false → t.initiateClose = true) : t.Accounted where
  written := by rw [hw, hq, ha, hl]; exact h.written
  passed := by rw [hp, hq, ha, hl]; exact h.passed
  sending hsome := by rw [hq]; exact h.sending (hs hsome)
  late hf := by
    rw [hl]
    refine h.late ?_
    cases hb : s.initiateClose with
    | false => rfl
    | true => rw [hi hb] at hf; cases hf
  closing := hc

theorem Accounted.shut (h : s.Accounted) : s.shut.Accounted := by
  obtain ⟨heq, hi⟩ := shut_spec s
  have hc : s.shut.closing = true ∨ s.shut.readable = false → s.shut.initiateClose = true :=
    fun _ => hi
  rw [heq] at hc ⊢
  exact h.frame rfl rfl rfl rfl rfl id (fun _ => hi) hc

theorem Accounted.enqueue (h : s.Accounted) (frame : List Byte) : (s.enqueue frame).Accounted := by
  have hall : (s.enqueue frame).accepted ++ (s.enqueue frame).late =
      s.accepted ++ s.late ++ [frame] := by
    cases hi : s.initiateClose with
    | false => simp [Outbox.enqueue, hi, h.late hi]
    | true => simp [Outbox.enqueue, hi]
  have hp := h.passed
  refine ⟨?_, ?_, ?_, ?_, h.closing⟩
  · rw [hall, ← h.written]
    simp [Outbox.enqueue]
  · rw [hall, ← hp]
    cases hq : s.sendQueue with
    | nil => simp [Outbox.enqueue, hq]
    | cons x rest => simp [Outbox.enqueue, hq]
  · intro _
    simp [Outbox.enqueue]
  · intro hi
    have hi : s.initiateClose = false := hi
    simp [Outbox.enqueue, hi, h.late hi]

theorem Accounted.popQueue (h : s.Accounted) (hq : s.sendQueue ≠ []) : s.popQueue.Accounted := by
  have hw := h.written
  have hp := h.passed
  cases he : s.sendQueue with
  | nil => exact absurd he hq
  | cons x rest =>
    rw [he] at hw hp
    refine ⟨?_, ?_, ?_, h.late, h.closing⟩
    · change (s.popQueue).written ++ _ = s.accepted ++ s.late
      rw [← hw]
      simp [Outbox.popQueue, he]
    · change (s.popQueue).passed ++ _ = s.accepted ++ s.late
      rw [← hp]
      cases rest <;> simp [Outbox.popQueue, he]
    · simp only [Outbox.popQueue, he]
      cases rest <;> simp

theorem Accounted.sent (h : s.Accounted) {bytesSent : Nat} (hs : s.sent bytesSent = some t) :
    t.Accounted := by
  obtain ⟨bytes, hb, rfl⟩ := Option.map_eq_some_iff.mp hs
  have hstop : ({ s with sending := none } : Outbox κ).Accounted :=
    h.frame rfl rfl rfl rfl rfl (fun hn => absurd hn (by simp)) id h.closing
  split
  · exact hstop.shut
  split
  · exact hstop
  split
  · exact h.frame rfl rfl rfl rfl rfl (fun _ => by rw [hb]; rfl) id h.closing
  · exact h.popQueue (h.sending (by rw [hb]; rfl))

theorem Accounted.finishCrypt (h : s.Accounted) (r : Except Exn (List Byte) × κ) :
    (s.finishCrypt r).Accounted := by
  obtain ⟨result, k⟩ := r
  cases result <;> exact h.frame rfl rfl rfl rfl rfl id id h.closing

theorem step_accounted {l : Label} (h : s.Accounted) (hs : s.step crypt l = some t) :
    t.Accounted := by
  cases l with
  | send bytes =>
    cases hs
    split
    · exact h.frame rfl rfl rfl rfl rfl id id h.closing
    · exact h
  | crypt i =>
    obtain ⟨bytes, hb, rfl⟩ := Option.map_eq_some_iff.mp hs
    refine Accounted.finishCrypt ?_ _
    exact h.frame rfl rfl rfl rfl rfl id id h.closing
  | push n =>
    obtain ⟨call, hc, rfl⟩ := Option.map_eq_some_iff.mp hs
    refine Accounted.enqueue ?_ _
    exact h.frame rfl rfl rfl rfl rfl id id h.closing
  | sent bytesSent => exact h.sent hs
  | sendFailed =>
    obtain ⟨bytes, hb, rfl⟩ := Option.map_eq_some_iff.mp hs
    refine Accounted.shut ?_
    exact h.frame rfl rfl rfl rfl rfl (fun hn => absurd hn (by simp)) id h.closing
  | close =>
    cases hs
    exact h.shut
  | closed =>
    obtain ⟨hc, hs⟩ := Option.ite_none_right_eq_some.mp hs
    cases hs
    exact h.frame rfl rfl rfl rfl rfl id id fun _ => h.closing (.inl hc)

/-- Two splits of one list: the first part of one begins the first part of the other when
its second part is the longer one. -/
theorem append_prefix_iff {α : Type} {a b c d : List α} (h : a ++ b = c ++ d) :
    a <+: c ↔ d.length ≤ b.length := by
  have hl := congrArg List.length h
  rw [List.length_append, List.length_append] at hl
  constructor
  · intro hp
    have := hp.length_le
    omega
  · intro hle
    have ha : a <+: c ++ d := ⟨b, h⟩
    exact List.prefix_of_prefix_length_le ha (List.prefix_append c d) (by omega)

/-- Only the operation of `DoClose` closes the socket. -/
theorem step_readable {l : Label} (hs : s.step crypt l = some t) (ht : t.readable = false) :
    s.readable = false ∨ l = .closed := by
  cases l with
  | send bytes =>
    cases hs
    split at ht
    · exact .inl ht
    · exact .inl ht
  | crypt i =>
    obtain ⟨bytes, hb, rfl⟩ := Option.map_eq_some_iff.mp hs
    rcases hr : encode crypt s.isSecure s.encryptor bytes with ⟨result, k⟩
    rw [hr] at ht
    cases result <;> exact .inl ht
  | push n =>
    obtain ⟨call, hc, rfl⟩ := Option.map_eq_some_iff.mp hs
    exact .inl ht
  | sent bytesSent =>
    obtain ⟨bytes, hb, rfl⟩ := Option.map_eq_some_iff.mp hs
    split at ht
    · rw [(shut_spec _).1] at ht
      exact .inl ht
    split at ht
    · exact .inl ht
    split at ht <;> exact .inl ht
  | sendFailed =>
    obtain ⟨bytes, hb, rfl⟩ := Option.map_eq_some_iff.mp hs
    rw [(shut_spec _).1] at ht
    exact .inl ht
  | close =>
    cases hs
    rw [(shut_spec _).1] at ht
    exact .inl ht
  | closed => exact .inr rfl

/-- After `Close` nothing is accepted any more, and what was done stays done. -/
theorem step_history {l : Label} (hi : s.initiateClose = true) (hs : s.step crypt l = some t) :
    t.accepted = s.accepted ∧ s.passed <+: t.passed ∧ s.written <+: t.written := by
  cases l with
  | send bytes =>
    cases hs
    split <;> exact ⟨rfl, List.prefix_rfl, List.prefix_rfl⟩
  | crypt i =>
    obtain ⟨bytes, hb, rfl⟩ := Option.map_eq_some_iff.mp hs
    rcases encode crypt s.isSecure s.encryptor bytes with ⟨result, k⟩
    cases result <;> exact ⟨rfl, List.prefix_rfl, List.prefix_rfl⟩
  | push n =>
    obtain ⟨call, hc, rfl⟩ := Option.map_eq_some_iff.mp hs
    refine ⟨by simp [enqueue, hi], ?_, List.prefix_rfl⟩
    simp only [enqueue]
    split
    · exact List.prefix_append _ _
    · exact List.prefix_rfl
  | sent bytesSent =>
    obtain ⟨bytes, hb, rfl⟩ := Option.map_eq_some_iff.mp hs
    split
    · rw [(shut_spec _).1]
      exact ⟨rfl, List.prefix_rfl, List.prefix_rfl⟩
    split
    · exact ⟨rfl, List.prefix_rfl, List.prefix_rfl⟩
    split
    · exact ⟨rfl, List.prefix_rfl, List.prefix_rfl⟩
    · exact ⟨rfl, List.prefix_append _ _, List.prefix_append _ _⟩
  | sendFailed =>
    obtain ⟨bytes, hb, rfl⟩ := Option.map_eq_some_iff.mp hs
    rw [(shut_spec _).1]
    exact ⟨rfl, List.prefix_rfl, List.prefix_rfl⟩
  | close =>
    cases hs
    rw [(shut_spec _).1]
    exact ⟨rfl, List.prefix_rfl, List.prefix_rfl⟩
  | closed =>
    obtain ⟨_, hs⟩ := Option.ite_none_right_eq_some.mp hs
    cases hs
    exact ⟨rfl, List.prefix_rfl, List.prefix_rfl⟩

section
variable {done rest : Outbox κ → List (List Byte)}

theorem closed_spec (hs : s.step crypt .closed = some t) :
    t = { s with closing := false, readable := false } := by
  obtain ⟨_, hs⟩ := Option.ite_none_right_eq_some.mp hs
  exact (Option.some.inj hs).symm

/-- Frames are counted by where they are: done, or among the rest. -/
theorem complete_iff_cleared
    (hsplit : ∀ s : Outbox κ, s.Accounted → done s ++ rest s = s.accepted ++ s.late)
    (hmono : ∀ (s t : Outbox κ) l, s.initiateClose = true → s.step crypt l = some t →
      done s <+: done t)
    (hdone : ∀ s : Outbox κ, done { s with closing := false, readable := false } = done s)
    (isSecure : Bool) (encryptor : κ) (labels : List Label) :
    Always (step crypt) (Complete done) (start isSecure encryptor) labels ↔
      Meets (step crypt) (fun s l => s.cleared rest l = true) (start isSecure encryptor) labels := by
  refine always_iff_meets (I := fun s : Outbox κ => s.Accounted ∧ s.Complete done) (fun _ h => h.2) ?_ ?_ labels
    ⟨start_accounted isSecure encryptor, fun hr => absurd hr (by simp [start])⟩
  · rintro s l t ⟨ha, hc⟩ hok hs
    refine ⟨step_accounted ha hs, fun ht => ?_⟩
    rcases step_readable hs ht with hr | rfl
    · have hi := ha.closing (.inr hr)
      rw [(step_history hi hs).1]
      exact (hc hr).trans (hmono s t l hi hs)
    · have hle := (append_prefix_iff (hsplit s ha).symm).mpr (of_decide_eq_true hok)
      rw [closed_spec hs, hdone]
      exact hle
  · rintro s l t ⟨ha, hc⟩ hok hs hct
    cases l with
    | closed =>
      rw [closed_spec hs] at hct
      have hle := hct rfl
      rw [hdone] at hle
      exact hok (decide_eq_true ((append_prefix_iff (hsplit s ha).symm).mp hle))
    | send bytes => exact hok rfl
    | crypt i => exact hok rfl
    | push n => exact hok rfl
    | sent bytesSent => exact hok rfl
    | sendFailed => exact hok rfl
    | close => exact hok rfl

end

/-- **Sending, then closing.** Along a run the frames accepted before `Close` are handed to
`DoSend` before the socket is closed if and only if none of them waits behind the first of
the queue when the operation of `DoClose` completes; they are written completely if and only
if none of them is in the queue then. -/
theorem delivered_iff (crypt : κ → List Byte → Except Exn (List Byte) × κ) (isSecure : Bool)
    (encryptor : κ) (labels : List Label) :
    (Always (step crypt) Handed (start isSecure encryptor) labels ↔
      Meets (step crypt) (fun s l => s.noneWaits l = true) (start isSecure encryptor) labels) ∧
    (Always (step crypt) Written (start isSecure encryptor) labels ↔
      Meets (step crypt) (fun s l => s.noneQueued l = true) (start isSecure encryptor) labels) := by
  constructor
  · exact complete_iff_cleared (fun s h => h.passed) (fun s t l hi hs => (step_history hi hs).2.1)
      (fun _ => rfl) isSecure encryptor labels
  · exact complete_iff_cleared (fun s h => h.written) (fun s t l hi hs => (step_history hi hs).2.2)
      (fun _ => rfl) isSecure encryptor labels

/-- Two messages, then `Close`: the socket is closed while the first is being written, and
`DoSend` is never called with the second. -/
theorem send_close_not_handed :
    ∃ s, run (step numbering) (start true 0)
        [.send [1], .crypt 0, .push 0, .send [2], .crypt 0, .push 1, .close, .sent 1, .closed] =
          some s ∧
      s.accepted.length = 2 ∧ s.passed.length = 1 ∧ s.written = [] ∧ ¬ s.Handed := by
  have h : ∃ s, run (step numbering) (start true 0)
        [.send [1], .crypt 0, .push 0, .send [2], .crypt 0, .push 1, .close, .sent 1, .closed] =
          some s ∧
      s.accepted.length = 2 ∧ s.passed.length = 1 ∧ s.written = [] ∧ s.readable = false :=
    exists_run_of_any (by decide +kernel)
  obtain ⟨s, hr, ha, hp, hw, hread⟩ := h
  refine ⟨s, hr, ha, hp, hw, fun hh => ?_⟩
  have := (hh hread).length_le
  omega

end Outbox
end DrgbServer.Network
