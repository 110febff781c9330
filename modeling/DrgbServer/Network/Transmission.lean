import DrgbServer.Network.SendQueue

/-! # What `DoSend` puts on the wire

The sections of `Send` and `Send_Handle` that touch `send_queue`, with every write that has
been started and has not completed: that there is at most one is a result here. The head of
the queue stays whole while its write goes on, and the handler carries the rest of it. What
the transport writes are these bytes only if it takes them before the vector they are in is
gone. A handler that has seen its last byte written may wait for `send_mtx` while other
threads enter the queue. -/
namespace DrgbServer.Network
open DrgbServer.Utils DrgbServer.Lib.Transition

structure Sender where
  /-- `isReadable()`: the socket is open -/
  readable : Bool
  initiateClose : Bool
  /-- the operation started by `DoClose` is pending -/
  closing : Bool
  sendQueue : List (List Byte)
  /-- the bytes that the handler of each `DoSend` that has not completed carries -/
  writes : List (List Byte)
  /-- the calls of `Send_Handle` before `send_mtx` -/
  finishing : Nat
  /-- the frames that have entered the queue -/
  enqueued : List (List Byte)
  /-- the bytes that have been written -/
  wire : List Byte
deriving DecidableEq

namespace Sender

inductive Label where
  /-- `Send` under `send_mtx` -/
  | enqueue (frame : List Byte)
  /-- the `i`-th of the writes completes, up to the lock -/
  | sent (i : Nat) (written : Written)
  | failed (i : Nat)
  /-- `Send_Handle` under `send_mtx` -/
  | pop
  | close
  /-- the operation of `DoClose` is done -/
  | closed
deriving DecidableEq

def shut (s : Sender) : Sender :=
  if s.initiateClose then s
  else { s with initiateClose := true, closing := s.closing || s.readable }

def doSend (s : Sender) (bytes : List Byte) : Sender := { s with writes := s.writes ++ [bytes] }

def enqueue (s : Sender) (frame : List Byte) : Sender :=
  let s := { s with sendQueue := s.sendQueue ++ [frame], enqueued := s.enqueued ++ [frame] }
  if s.sendQueue.length > 1 then s else s.doSend frame

/-- `Send_Handle` of a write of `bytes`, up to the lock. -/
def sendHandle (s : Sender) (bytes : List Byte) (bytesSent : Nat) : Sender :=
  if bytesSent ≤ 0 then s.shut
  else if !s.readable then s
  else if bytesSent < bytes.length then s.doSend (bytes.drop bytesSent)
  else { s with finishing := s.finishing + 1 }

/-- The transport reports no more bytes than it was given. -/
def sent (s : Sender) (i : Nat) (written : Written) : Option Sender :=
  match s.writes[i]? with
  | none => none
  | some bytes =>
    if written.count ≤ bytes.length then
      some (sendHandle { s with
        writes := s.writes.eraseIdx i
        wire := s.wire ++ written.bytes bytes } bytes written.count)
    else none

def popQueue (s : Sender) : Sender :=
  let s := { s with finishing := s.finishing - 1, sendQueue := s.sendQueue.tail }
  match s.sendQueue with
  | [] => s
  | next :: _ => s.doSend next

def step (s : Sender) : Label → Option Sender
  | .enqueue frame => some (s.enqueue frame)
  | .sent i written => s.sent i written
  | .failed i => s.writes[i]?.map fun _ => shut { s with writes := s.writes.eraseIdx i }
  | .pop => if 0 < s.finishing then some s.popQueue else none
  | .close => some s.shut
  | .closed => if s.closing then some { s with closing := false, readable := false } else none

/-- A connected socket. -/
def start : Sender where
  readable := true
  initiateClose := false
  closing := false
  sendQueue := []
  writes := []
  finishing := 0
  enqueued := []
  wire := []

/-- A step of a socket that stays open and writes at least one byte at a time. -/
def Label.Regular : Label → Prop
  | .sent _ written => 0 < written.count
  | .failed _ => False
  | .closed => False
  | _ => True

/-- A write takes its bytes before `Send` or `Send_Handle` returns. -/
def Label.Prompt : Label → Prop
  | .sent _ written => written.live = true
  | _ => True

variable {s t : Sender} {stall prompt : Prop}

theorem shut_spec (s : Sender) : s.shut =
    { s with initiateClose := s.shut.initiateClose, closing := s.shut.closing } := by
  unfold shut
  split <;> rfl

theorem enqueue_of_nil (h : s.sendQueue = []) (frame : List Byte) :
    s.enqueue frame = { s with
      sendQueue := [frame]
      enqueued := s.enqueued ++ [frame]
      writes := s.writes ++ [frame] } := by
  simp [enqueue, doSend, h]

/-- The first element is the one being sent. -/
theorem enqueue_of_ne_nil (h : s.sendQueue ≠ []) (frame : List Byte) :
    s.enqueue frame =
      { s with sendQueue := s.sendQueue ++ [frame], enqueued := s.enqueued ++ [frame] } := by
  have hlen : (s.sendQueue ++ [frame]).length > 1 := by
    have := List.length_pos_iff.mpr h
    rw [List.length_append, List.length_singleton]
    omega
  exact if_pos hlen

theorem sent_cases {i : Nat} {written : Written} (hs : s.sent i written = some t) :
    ∃ bytes, s.writes[i]? = some bytes ∧ written.count ≤ bytes.length ∧
      t = sendHandle { s with
        writes := s.writes.eraseIdx i
        wire := s.wire ++ written.bytes bytes } bytes written.count := by
  unfold sent at hs
  split at hs
  · cases hs
  · rename_i bytes hb
    split at hs
    · rename_i hle
      cases hs
      exact ⟨bytes, hb, hle, rfl⟩
    · cases hs

/-! ## The discipline -/

/-- How the queue, the writes and the handlers stand, and the wire where every write is
prompt. A write that failed leaves the queue as it is for good: then the socket is stalled,
where `stall` allows it. -/
inductive Disciplined (stall prompt : Prop) (s : Sender) : Prop
  | idle (queue : s.sendQueue = []) (writes : s.writes = []) (handlers : s.finishing = 0)
      (bytes : prompt → s.wire = s.enqueued.flatten)
  | writing {before rest : List Byte} {behind : List (List Byte)}
      (queue : s.sendQueue = (before ++ rest) :: behind) (writes : s.writes = [rest])
      (handlers : s.finishing = 0)
      (bytes : prompt → s.wire ++ rest ++ behind.flatten = s.enqueued.flatten)
  | finishing {frame : List Byte} {behind : List (List Byte)}
      (queue : s.sendQueue = frame :: behind) (writes : s.writes = []) (handlers : s.finishing = 1)
      (bytes : prompt → s.wire ++ behind.flatten = s.enqueued.flatten)
  | stalled (allowed : stall) (queue : s.sendQueue ≠ []) (writes : s.writes = [])
      (handlers : s.finishing = 0) (bytes : prompt → s.wire <+: s.enqueued.flatten)

/-- A frame whose write has only begun. -/
theorem Disciplined.whole {frame : List Byte} {behind : List (List Byte)}
    (queue : s.sendQueue = frame :: behind) (writes : s.writes = [frame])
    (handlers : s.finishing = 0)
    (bytes : prompt → s.wire ++ frame ++ behind.flatten = s.enqueued.flatten) :
    s.Disciplined stall prompt :=
  have queue' : s.sendQueue = ([] ++ frame) :: behind := queue
  .writing queue' writes handlers bytes

theorem start_disciplined : start.Disciplined stall prompt := .idle rfl rfl rfl fun _ => rfl

theorem Disciplined.setClosing (h : s.Disciplined stall prompt)
    (initiateClose closing readable : Bool) :
    Disciplined stall prompt { s with initiateClose, closing, readable } := by
  cases h with
  | idle hq hw hf hb => exact .idle hq hw hf hb
  | writing hq hw hf hb => exact .writing hq hw hf hb
  | finishing hq hw hf hb => exact .finishing hq hw hf hb
  | stalled ha hq hw hf hb => exact .stalled ha hq hw hf hb

theorem Disciplined.shut (h : s.Disciplined stall prompt) : s.shut.Disciplined stall prompt := by
  rw [shut_spec]
  exact h.setClosing _ _ _

theorem Disciplined.enqueue (h : s.Disciplined stall prompt) (frame : List Byte) :
    (s.enqueue frame).Disciplined stall prompt := by
  cases h with
  | idle hq hw hf hb =>
    rw [enqueue_of_nil hq]
    refine .whole rfl ?_ hf fun hp => ?_
    · rw [hw]
      rfl
    · simp [hb hp]
  | writing hq hw hf hb =>
    rw [enqueue_of_ne_nil (by rw [hq]; exact List.cons_ne_nil _ _), hq]
    refine .writing rfl hw hf fun hp => ?_
    simp [← hb hp]
  | finishing hq hw hf hb =>
    rw [enqueue_of_ne_nil (by rw [hq]; exact List.cons_ne_nil _ _), hq]
    refine .finishing rfl hw hf fun hp => ?_
    simp [← hb hp]
  | stalled ha hq hw hf hb =>
    rw [enqueue_of_ne_nil hq]
    refine .stalled ha (by simp) hw hf fun hp => ?_
    rw [List.flatten_append]
    exact (hb hp).trans (List.prefix_append _ _)

/-- The write that is pending is the only one, and what remains of the head of the queue. -/
theorem Disciplined.of_write (h : s.Disciplined stall prompt) {i : Nat} {rest : List Byte}
    (hi : s.writes[i]? = some rest) : i = 0 ∧ s.writes = [rest] ∧ s.finishing = 0 ∧
      ∃ before behind, s.sendQueue = (before ++ rest) :: behind ∧
        (prompt → s.wire ++ rest ++ behind.flatten = s.enqueued.flatten) := by
  cases h with
  | @writing before _ behind hq hw hf hb =>
    rw [hw] at hi
    obtain ⟨hlt, rfl⟩ := List.getElem?_eq_some_iff.mp hi
    obtain rfl : i = 0 := Nat.lt_one_iff.mp hlt
    exact ⟨rfl, hw, hf, before, behind, hq, hb⟩
  | idle _ hw _ _ | finishing _ hw _ _ | stalled _ _ hw _ _ =>
    rw [hw] at hi
    cases hi

/-- The one write there is completes. -/
theorem Disciplined.sent (h : s.Disciplined stall prompt) {i : Nat} {written : Written}
    (hgood : 0 < written.count ∧ s.readable = true ∨ stall) (hlive : prompt → written.live = true)
    (hs : s.sent i written = some t) : t.Disciplined stall prompt := by
  obtain ⟨rest, hi, hle, rfl⟩ := sent_cases hs
  obtain ⟨rfl, hw, hf, before, behind, hq, hb⟩ := h.of_write hi
  have hwrites : s.writes.eraseIdx 0 = [] := by
    rw [hw]
    rfl
  -- the bytes written now are those the rest has lost
  have hsplit : prompt → s.wire ++ written.bytes rest ++ rest.drop written.count ++
      behind.flatten = s.enqueued.flatten := by
    intro hp
    rw [Written.bytes_of_live (hlive hp), List.append_assoc s.wire, List.take_append_drop]
    exact hb hp
  have hstall : stall → Disciplined stall prompt { s with
      writes := s.writes.eraseIdx 0, wire := s.wire ++ written.bytes rest } := by
    intro ha
    refine .stalled ha (by rw [hq]; exact List.cons_ne_nil _ _) hwrites hf fun hp => ?_
    refine ⟨rest.drop written.count ++ behind.flatten, ?_⟩
    rw [← List.append_assoc]
    exact hsplit hp
  unfold sendHandle
  split
  · exact (hstall (hgood.resolve_left (by omega))).shut
  split
  · rename_i hr
    exact hstall (hgood.resolve_left fun hg => by simp [hg.2] at hr)
  split
  · have hhead : s.sendQueue =
        ((before ++ rest.take written.count) ++ rest.drop written.count) :: behind := by
      rw [List.append_assoc, List.take_append_drop]
      exact hq
    refine .writing hhead ?_ hf hsplit
    rw [doSend, hwrites]
    rfl
  · rename_i hall
    refine .finishing hq hwrites (by rw [hf]) fun hp => ?_
    have hwire := hsplit hp
    rwa [List.drop_of_length_le (not_lt.mp hall), List.append_nil] at hwire

theorem Disciplined.popQueue (h : s.Disciplined stall prompt) (hpos : 0 < s.finishing) :
    s.popQueue.Disciplined stall prompt := by
  cases h with
  | idle _ _ hf _ | writing _ _ hf _ | stalled _ _ _ hf _ =>
    rw [hf] at hpos
    cases hpos
  | @finishing frame behind hq hw hf hb =>
    cases behind with
    | nil =>
      have hpop : s.popQueue = { s with finishing := s.finishing - 1, sendQueue := [] } := by
        simp [Sender.popQueue, hq]
      rw [hpop]
      refine .idle rfl hw (by rw [hf]) fun hp => ?_
      simpa using hb hp
    | cons next behind =>
      have hpop : s.popQueue = { s with
          finishing := s.finishing - 1
          sendQueue := next :: behind
          writes := s.writes ++ [next] } := by
        simp [Sender.popQueue, hq, doSend]
      rw [hpop]
      refine .whole rfl ?_ (by rw [hf]) fun hp => ?_
      · rw [hw]
        rfl
      · rw [List.append_assoc]
        exact hb hp

/-- A write that fails stalls the socket. -/
theorem Disciplined.failed (h : s.Disciplined stall prompt) (ha : stall) {i : Nat}
    {bytes : List Byte} (hi : s.writes[i]? = some bytes) :
    Disciplined stall prompt { s with writes := s.writes.eraseIdx i } := by
  obtain ⟨rfl, hw, hf, before, behind, hq, hb⟩ := h.of_write hi
  refine .stalled ha (by rw [hq]; exact List.cons_ne_nil _ _) (by rw [hw]; rfl) hf fun hp => ?_
  rw [← hb hp, List.append_assoc]
  exact List.prefix_append _ _

theorem step_disciplined {l : Label} (h : s.Disciplined stall prompt)
    (hgood : l.Regular ∧ s.readable = true ∨ stall) (hprompt : prompt → l.Prompt)
    (hs : s.step l = some t) : t.Disciplined stall prompt := by
  cases l with
  | enqueue frame =>
    cases hs
    exact h.enqueue frame
  | sent i written => exact h.sent hgood hprompt hs
  | failed i =>
    obtain ⟨bytes, hi, rfl⟩ := Option.map_eq_some_iff.mp hs
    exact (h.failed (hgood.resolve_left fun hg => hg.1) hi).shut
  | pop =>
    obtain ⟨hpos, hs⟩ := Option.ite_none_right_eq_some.mp hs
    cases hs
    exact h.popQueue hpos
  | close =>
    cases hs
    exact h.shut
  | closed =>
    obtain ⟨-, hs⟩ := Option.ite_none_right_eq_some.mp hs
    cases hs
    exact h.setClosing _ _ _

/-- A regular step leaves the socket open. -/
theorem step_readable {l : Label} (hl : l.Regular) (hs : s.step l = some t) :
    t.readable = s.readable := by
  cases l with
  | enqueue frame =>
    cases hs
    unfold enqueue
    dsimp only
    split <;> rfl
  | sent i written =>
    obtain ⟨bytes, -, -, rfl⟩ := sent_cases hs
    unfold sendHandle
    split
    · rw [shut_spec]
    split
    · rfl
    split <;> rfl
  | failed i => exact hl.elim
  | pop =>
    obtain ⟨-, hs⟩ := Option.ite_none_right_eq_some.mp hs
    cases hs
    unfold popQueue
    dsimp only
    split <;> rfl
  | close =>
    cases hs
    rw [shut_spec]
  | closed => exact hl.elim

/-! ## Runs -/

theorem Disciplined.writes_le (h : s.Disciplined stall prompt) : s.writes.length ≤ 1 := by
  cases h with
  | idle _ hw _ _ => simp [hw]
  | writing _ hw _ _ => simp [hw]
  | finishing _ hw _ _ => simp [hw]
  | stalled _ _ hw _ _ => simp [hw]

/-- The write that is pending is what remains of the head of the queue. -/
theorem Disciplined.rest_of_head (h : s.Disciplined stall prompt) {rest : List Byte}
    (hr : rest ∈ s.writes) : ∃ frame, s.sendQueue.head? = some frame ∧ rest <:+ frame := by
  obtain ⟨i, hi⟩ := List.mem_iff_getElem?.mp hr
  obtain ⟨-, -, -, before, behind, hq, -⟩ := h.of_write hi
  refine ⟨before ++ rest, ?_, List.suffix_append _ _⟩
  rw [hq]
  rfl

theorem Disciplined.wire_begins (h : s.Disciplined stall True) : s.wire <+: s.enqueued.flatten := by
  cases h with
  | idle _ _ _ hb => rw [hb trivial]
  | writing _ _ _ hb =>
    rw [← hb trivial, List.append_assoc]
    exact List.prefix_append _ _
  | finishing _ _ _ hb =>
    rw [← hb trivial]
    exact List.prefix_append _ _
  | stalled _ _ _ _ hb => exact hb trivial

theorem Disciplined.accounted (h : s.Disciplined False True) :
    s.wire ++ s.writes.flatten ++ s.sendQueue.tail.flatten = s.enqueued.flatten := by
  cases h with
  | idle hq hw _ hb => simp [hq, hw, hb]
  | writing hq hw _ hb => simp [hq, hw, ← hb]
  | finishing hq hw _ hb => simp [hq, hw, ← hb]
  | stalled ha _ _ _ _ => exact ha.elim

theorem run_disciplined {labels : List Label} (hr : run step start labels = some s) :
    s.Disciplined True False :=
  run_invariant_all (I := Disciplined True False)
    (fun _ _ _ h hs => step_disciplined h (.inr trivial) (fun hp => hp.elim) hs)
    start_disciplined hr

theorem run_prompt {labels : List Label} (hl : ∀ l ∈ labels, l.Prompt)
    (hr : run step start labels = some s) : s.Disciplined True True :=
  run_invariant_labels (I := Disciplined True True)
    (fun _ _ _ h hl hs => step_disciplined h (.inr trivial) (fun _ => hl) hs)
    start_disciplined hl hr

theorem run_regular {labels : List Label} (hl : ∀ l ∈ labels, l.Regular ∧ l.Prompt)
    (hr : run step start labels = some s) : s.Disciplined False True := by
  refine (run_invariant_labels (I := fun s => s.Disciplined False True ∧ s.readable = true) ?_
    ⟨start_disciplined, rfl⟩ hl hr).1
  intro s l t h hl hs
  exact ⟨step_disciplined h.1 (.inl ⟨hl.1, h.2⟩) (fun _ => hl.2) hs,
    (step_readable hl.1 hs).trans h.2⟩

/-- **The discipline of the send queue.** At most one `DoSend` is outstanding, and its handler
carries what remains of the head. Where every write takes its bytes before their vector is gone,
the wire holds the frames in the order they entered; and while every write completes with at
least one byte and the socket is open, the bytes written, the rest of the head and the frames
behind it are the frames that have entered. -/
theorem no_byte_is_lost (labels : List Label) {s : Sender}
    (hr : run step start labels = some s) :
    s.writes.length ≤ 1 ∧
      (∀ rest ∈ s.writes, ∃ frame, s.sendQueue.head? = some frame ∧ rest <:+ frame) ∧
      ((∀ l ∈ labels, l.Prompt) → s.wire <+: s.enqueued.flatten) ∧
      ((∀ l ∈ labels, l.Regular ∧ l.Prompt) →
        s.wire ++ s.writes.flatten ++ s.sendQueue.tail.flatten = s.enqueued.flatten) :=
  ⟨(run_disciplined hr).writes_le, fun _ h => (run_disciplined hr).rest_of_head h,
    fun hl => (run_prompt hl hr).wire_begins, fun hl => (run_regular hl hr).accounted⟩

/-- Two frames, the first written in two parts, the second entering in between. -/
theorem no_byte_is_lost_parts : ∃ s,
    run step start [.enqueue [1, 2, 3], .sent 0 (.taken 2), .enqueue [4], .sent 0 (.taken 1),
      .pop] = some s ∧
      s.writes = [[4]] ∧
      s.wire ++ s.writes.flatten ++ s.sendQueue.tail.flatten = s.enqueued.flatten := by
  have h : ∃ s, run step start [.enqueue [1, 2, 3], .sent 0 (.taken 2), .enqueue [4],
      .sent 0 (.taken 1), .pop] = some s ∧ s.writes = [[4]] := exists_run_of_any (by decide)
  obtain ⟨s, hr, hw⟩ := h
  refine ⟨s, hr, hw, (no_byte_is_lost _ hr).2.2.2 ?_⟩
  simp [Label.Regular, Label.Prompt, Written.count, Written.live]

/-- The transport is not ready for the frame of the message `[0]` when `Send` returns; by the time
it is, the vector is gone and its memory holds something else. -/
theorem stale_bytes_written : ∃ s,
    run step start [.enqueue (PacketProcessor.encapsulate [0]), .sent 0 (.stale [7, 7, 7])] =
        some s ∧
      s.wire = [7, 7, 7] ∧ s.enqueued.flatten = [0, PacketProcessor.pattern, PacketProcessor.eof] ∧
      s.wire ++ s.writes.flatten ++ s.sendQueue.tail.flatten ≠ s.enqueued.flatten := by
  refine exists_run_of_any ?_
  decide

end Sender

/-! ## The outbox -/

namespace Outbox
variable {κ : Type} {crypt : κ → List Byte → Except Exn (List Byte) × κ} {o p : Outbox κ}

/-- The sender that the outbox describes. -/
structure Describes (o : Outbox κ) (s : Sender) : Prop where
  readable : s.readable = o.readable
  initiateClose : s.initiateClose = o.initiateClose
  closing : s.closing = o.closing
  sendQueue : s.sendQueue = o.sendQueue
  writes : s.writes = o.sending.toList
  finishing : s.finishing = 0
  enqueued : s.enqueued = o.accepted ++ o.late

/-- The transport reports no more bytes than it was given. -/
def bounded (o : Outbox κ) : Label → Bool
  | .sent bytesSent => o.sending.all (bytesSent ≤ ·.length)
  | _ => true

/-- What a step of the outbox does with the queue, where the vectors live long enough. -/
def sections (o : Outbox κ) : Label → List Sender.Label
  | .send _ | .crypt _ => []
  | .push n => ((o.encrypted.find? (·.1 == n)).map fun call => .enqueue call.2).toList
  | .sent bytesSent =>
    if 0 < bytesSent ∧ o.readable = true ∧ o.sending.all (·.length ≤ bytesSent) = true then
      [.sent 0 (.taken bytesSent), .pop]
    else [.sent 0 (.taken bytesSent)]
  | .sendFailed => [.failed 0]
  | .close => [.close]
  | .closed => [.closed]

theorem Describes.shut {s : Sender} (h : Describes o s) : Describes o.shut s.shut := by
  unfold Outbox.shut Sender.shut
  rw [h.initiateClose]
  split
  · exact h
  · refine { h with initiateClose := rfl, closing := ?_ }
    rw [h.closing, h.readable]

theorem Describes.enqueue {s : Sender} (h : Describes o s) (ha : o.Accounted) (frame : List Byte) :
    Describes (o.enqueue frame) (s.enqueue frame) := by
  have hall : (o.enqueue frame).accepted ++ (o.enqueue frame).late =
      o.accepted ++ o.late ++ [frame] := by
    cases hi : o.initiateClose with
    | false => simp [Outbox.enqueue, hi, ha.late hi]
    | true => simp [Outbox.enqueue, hi]
  have hq := h.sendQueue
  by_cases he : o.sendQueue = []
  · have hnone : o.sending = none := by
      cases hs : o.sending with
      | none => rfl
      | some bytes => exact absurd he (ha.sending (by rw [hs]; rfl))
    rw [Sender.enqueue_of_nil (by rw [hq, he])]
    refine { h with sendQueue := ?_, writes := ?_, enqueued := ?_ }
    · simp [Outbox.enqueue, he]
    · simp [Outbox.enqueue, he, h.writes, hnone]
    · rw [hall, ← h.enqueued]
  · rw [Sender.enqueue_of_ne_nil (by rw [hq]; exact he)]
    refine { h with sendQueue := ?_, writes := ?_, enqueued := ?_ }
    · simp [Outbox.enqueue, hq]
    · simp [Outbox.enqueue, he, h.writes]
    · rw [hall, ← h.enqueued]

theorem Describes.popQueue {s : Sender} (h : Describes o s) (hw : s.writes = []) :
    Describes o.popQueue (Sender.popQueue { s with finishing := s.finishing + 1 }) := by
  have hq : o.popQueue.sendQueue = s.sendQueue.tail := by rw [h.sendQueue, Outbox.popQueue]
  have hnext : o.popQueue.sending = s.sendQueue.tail.head? := by rw [h.sendQueue, Outbox.popQueue]
  unfold Sender.popQueue
  dsimp only
  cases ht : s.sendQueue.tail with
  | nil =>
    refine { h with sendQueue := ?_, writes := ?_ }
    · rw [hq, ht]
    · rw [hw, hnext, ht]
      rfl
  | cons next behind =>
    refine { h with sendQueue := ?_, writes := ?_ }
    · rw [hq, ht]
      rfl
    · rw [hnext, ht]
      change s.writes ++ [next] = [next]
      rw [hw]
      rfl

/-- The write that is pending completes. -/
theorem Describes.sent {s : Sender} (h : Describes o s) {bytesSent : Nat}
    (hok : o.bounded (.sent bytesSent) = true) (hs : o.sent bytesSent = some p) :
    ∃ t, run Sender.step s (o.sections (.sent bytesSent)) = some t ∧ Describes p t := by
  obtain ⟨bytes, hb, rfl⟩ := Option.map_eq_some_iff.mp hs
  have hle : bytesSent ≤ bytes.length := by simpa [bounded, hb] using hok
  have hw : s.writes = [bytes] := by
    rw [h.writes, hb]
    rfl
  obtain ⟨u, hsent, hu⟩ : ∃ u : Sender, s.step (.sent 0 (.taken bytesSent)) =
      some (u.sendHandle bytes bytesSent) ∧ Describes { o with sending := none } u := by
    refine ⟨{ s with writes := [], wire := s.wire ++ bytes.take bytesSent }, ?_,
      { h with writes := rfl }⟩
    simp [Sender.step, Sender.sent, hw, hle, Written.count, Written.bytes]
  by_cases hpos : bytesSent ≤ 0
  · have hrun : run Sender.step s (o.sections (.sent bytesSent)) = some u.shut := by
      rw [sections, if_neg (by omega), run_cons_of_some hsent, Sender.sendHandle, if_pos hpos]
      rfl
    rw [if_pos hpos]
    exact ⟨_, hrun, hu.shut⟩
  rw [if_neg hpos]
  by_cases hr : o.readable = true
  · have hopen : ¬ (!u.readable) = true := by simp [hu.readable, hr]
    rw [if_neg (by simp [hr])]
    by_cases hmore : bytesSent < bytes.length
    · have hrun : run Sender.step s (o.sections (.sent bytesSent)) =
          some (u.doSend (bytes.drop bytesSent)) := by
        rw [sections, if_neg (by simp [hb]; omega), run_cons_of_some hsent, Sender.sendHandle,
          if_neg hpos, if_neg hopen, if_pos hmore]
        rfl
      rw [if_pos hmore]
      refine ⟨_, hrun, { hu with writes := ?_ }⟩
      change u.writes ++ [bytes.drop bytesSent] = [bytes.drop bytesSent]
      rw [hu.writes]
      rfl
    · have hrun : run Sender.step s (o.sections (.sent bytesSent)) =
          some (Sender.popQueue { u with finishing := u.finishing + 1 }) := by
        rw [sections, if_pos ⟨by omega, hr, by simp [hb]; omega⟩, run_cons_of_some hsent,
          Sender.sendHandle, if_neg hpos, if_neg hopen, if_neg hmore]
        rfl
      rw [if_neg hmore]
      exact ⟨_, hrun, hu.popQueue hu.writes⟩
  · have hrun : run Sender.step s (o.sections (.sent bytesSent)) = some u := by
      rw [sections, if_neg (fun hc => hr hc.2.1), run_cons_of_some hsent, Sender.sendHandle,
        if_neg hpos, if_pos (by simp [hu.readable, hr])]
      rfl
    rw [if_pos (by simp [hr])]
    exact ⟨_, hrun, hu⟩

theorem Describes.finishCrypt {s : Sender} (h : Describes o s)
    (r : Except Exn (List Byte) × κ) : Describes (o.finishCrypt r) s := by
  obtain ⟨result, k⟩ := r
  cases result <;> exact { h with }

theorem step_describes {s : Sender} {l : Label} (ha : o.Accounted) (h : Describes o s)
    (hok : o.bounded l = true) (hs : o.step crypt l = some p) :
    ∃ t, run Sender.step s (o.sections l) = some t ∧ Describes p t := by
  cases l with
  | send bytes =>
    cases hs
    refine ⟨s, rfl, ?_⟩
    split
    · exact { h with }
    · exact h
  | crypt i =>
    obtain ⟨bytes, -, rfl⟩ := Option.map_eq_some_iff.mp hs
    refine ⟨s, rfl, Describes.finishCrypt ?_ _⟩
    exact { h with }
  | push n =>
    obtain ⟨call, hc, rfl⟩ := Option.map_eq_some_iff.mp hs
    have hcall : Describes { o with
        encrypted := o.encrypted.filter (·.1 != n), entered := o.entered ++ [n] } s := { h with }
    refine ⟨s.enqueue call.2, ?_, hcall.enqueue (ha.frame rfl rfl rfl rfl rfl id id ha.closing) _⟩
    rw [sections, hc]
    rfl
  | sent bytesSent => exact h.sent hok hs
  | sendFailed =>
    obtain ⟨bytes, hb, rfl⟩ := Option.map_eq_some_iff.mp hs
    have hw : s.writes = [bytes] := by
      rw [h.writes, hb]
      rfl
    have hnone : Describes { o with sending := none } { s with writes := [] } :=
      { h with writes := rfl }
    refine ⟨_, ?_, hnone.shut⟩
    simp [sections, run_cons, Sender.step, hw]
  | close =>
    cases hs
    exact ⟨s.shut, rfl, h.shut⟩
  | closed =>
    obtain ⟨hc, hs⟩ := Option.ite_none_right_eq_some.mp hs
    cases hs
    refine ⟨{ s with closing := false, readable := false }, ?_, { h with
      readable := rfl, closing := rfl }⟩
    rw [sections, run_cons, Sender.step, if_pos (h.closing.trans hc)]
    rfl

/-- **The outbox sends as the sender does**: what is queued and what is pending in any of its
runs is so in a run of the sender. -/
theorem run_describes (isSecure : Bool) (encryptor : κ) (labels : List Label)
    (hok : Meets (step crypt) (fun o l => o.bounded l = true) (start isSecure encryptor) labels)
    (hr : run (step crypt) (start isSecure encryptor) labels = some o) :
    ∃ sections s, run Sender.step Sender.start sections = some s ∧ Describes o s := by
  have hstart : Describes (start isSecure encryptor) Sender.start :=
    ⟨rfl, rfl, rfl, rfl, rfl, rfl, rfl⟩
  refine (run_invariant (I := fun o : Outbox κ => o.Accounted ∧ ∃ sections s,
    run Sender.step Sender.start sections = some s ∧ Describes o s) ?_
    ⟨start_accounted isSecure encryptor, [], Sender.start, rfl, hstart⟩ hok hr).2
  rintro o l p ⟨ha, sections, s, hrun, h⟩ hl hs
  obtain ⟨t, ht, hp⟩ := step_describes ha h hl hs
  refine ⟨step_accounted ha hs, sections ++ o.sections l, t, ?_, hp⟩
  rw [run_append, hrun]
  exact ht

/-- In every run of the outbox the bytes being written are what remains of the first frame. -/
theorem sending_rest_of_head (isSecure : Bool) (encryptor : κ) (labels : List Label)
    (hok : Meets (step crypt) (fun o l => o.bounded l = true) (start isSecure encryptor) labels)
    (hr : run (step crypt) (start isSecure encryptor) labels = some o) {bytes : List Byte}
    (hb : o.sending = some bytes) : ∃ frame, o.sendQueue.head? = some frame ∧ bytes <:+ frame := by
  obtain ⟨sections, s, hrun, h⟩ := run_describes isSecure encryptor labels hok hr
  rw [← h.sendQueue]
  refine (Sender.run_disciplined hrun).rest_of_head ?_
  rw [h.writes, hb]
  exact List.mem_singleton_self bytes

end Outbox
end DrgbServer.Network
