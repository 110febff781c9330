import DrgbServer.Network.SecureChannel

/-! # Delivery over the secure channel

A message is decrypted when it leaves the queue, so the ciphers are used in the order of the
frames whatever the reads were. `run_delivers` says that the handlers of each side get the
messages of the other in order and unaltered while the frames fit the buffer; `huge_not_delivered`
has a frame that does not. -/
namespace DrgbServer.Network
open DrgbServer.Utils DrgbServer.Utils.Framing DrgbServer.Lib.Transition

/-! ## Receiving -/

/-- `Encryptor`s with the common key, and the handler of the key exchange that gives it. -/
structure Keyed {κ : Type} (C : Crypto κ) (e d : κ) : Prop where
  publicKey : ∀ side, C.publicKey side ≠ []
  inverts : C.Inverts e d
  finish : ∀ (side : Side) (p : Peer κ), p.encryptor = C.unkeyed true →
    p.decryptor = C.unkeyed false → p.finishExchange C side (C.publicKey side.other) =
      { p with encryptor := e, decryptor := d, isSecure := true, exchange := .done }

theorem Crypto.Agrees.keyed {κ : Type} {C : Crypto κ} (h : C.Agrees) : ∃ e d, Keyed C e d := by
  obtain ⟨shared, hlen, hshared⟩ := h.shared
  refine ⟨_, _, h.publicKey, h.inverts (splitKey shared).1 (splitKey shared).2, ?_⟩
  intro side p he hd
  obtain ⟨secret, hs, hk⟩ := hshared side
  simp only [Peer.finishExchange, hs, hk, hlen, he, hd, ne_eq, not_true_eq_false, ↓reduceIte]

namespace Peer
variable {κ : Type} {C : Crypto κ} {e d : κ} {side : Side} {a b : Peer κ} {flight : List Byte}

/-- A message of fewer than 2^31 bytes is the packet its handler gets. -/
theorem bytes_ofVector {m : List Byte} (h : m.length < 2 ^ 31) : (ByteQueue.ofVector m).bytes = m := by
  rw [ByteQueue.ofVector, toInt_of_lt h, Int.toNat_natCast, List.take_length]

/-- The key of the other side is the first thing a side takes out of its queue. -/
theorem receive_key (hk : Keyed C e d) (hb : b.Ok C e d) (hx : b.exchange = .waiting)
    {msg : List Byte} {rest : List (List Byte)} (hm : b.recvbuffer.msgs = msg :: rest)
    (h : Flow C e side a b flight) :
    b.receive C side.other = { b with
      recvbuffer := { b.recvbuffer with msgs := rest }
      reading := false
      encryptor := e
      decryptor := d
      isSecure := true
      exchange := .done } ∧ msg = C.publicKey side := by
  have hpre := (h.payloads_initial (hk.publicKey side) hk.inverts).1
  rw [taken, hx, if_neg (by decide), hm, List.nil_append, payloads] at hpre
  have hne : a.exchange ≠ .before := by
    intro ha
    rw [if_pos ha] at hpre
    simp at hpre
  rw [if_neg hne, List.cons_prefix_cons] at hpre
  obtain ⟨hmsg, -⟩ := hpre
  refine ⟨?_, hmsg⟩
  have hlen := h.small hne msg (by rw [hmsg]; exact List.mem_cons_self)
  have he : b.encryptor = C.unkeyed true := by rw [hb.encryptor, hx, if_neg (by decide)]
  have hd : b.decryptor = C.unkeyed false := by rw [hb.decryptor, hx, if_neg (by decide)]
  have hsec : b.isSecure = false := by rw [hb.secure, hx]; rfl
  have hfin := hk.finish side.other
    { b with recvbuffer := { b.recvbuffer with msgs := rest }, reading := false } he hd
  rw [Side.other_other, ← hmsg] at hfin
  simp only [receive, PacketProcessor.getMsg, hm, decrypt, hsec, Bool.false_eq_true, ↓reduceIte,
    respond, hx, bytes_ofVector hlen]
  rw [hx, hsec] at hfin
  exact hfin

/-- A message is decrypted when it is taken out of the queue, by the cipher that is its turn. -/
theorem receive_message (hk : Keyed C e d) (hb : b.Ok C e d) (hx : b.exchange = .done)
    {msg : List Byte} {rest : List (List Byte)} (hm : b.recvbuffer.msgs = msg :: rest)
    (h : Flow C e side a b flight) :
    ∃ m, b.delivered ++ [m] <+: a.sent ∧
      C.ciphers e (b.delivered ++ [m]) = C.ciphers e b.delivered ++ [msg] ∧
      b.receive C side.other = { b with
        recvbuffer := { b.recvbuffer with msgs := rest }
        reading := false
        decryptor := C.after d (C.ciphers e b.delivered ++ [msg])
        delivered := b.delivered ++ [m] } := by
  have hpre := (h.payloads_initial (hk.publicKey side) hk.inverts).1
  rw [taken, hx, if_pos rfl, hm, payloads] at hpre
  have hne : a.exchange ≠ .before := by
    intro ha
    rw [if_pos ha] at hpre
    simp at hpre
  rw [if_neg hne, List.cons_append, List.cons_prefix_cons] at hpre
  have hnext : C.ciphers e b.delivered ++ [msg] <+: C.ciphers e a.sent :=
    List.IsPrefix.trans ⟨rest, by simp⟩ hpre.2
  obtain ⟨m, hpm, hcm⟩ := Crypto.ciphers_next h.inOrder hnext
  obtain ⟨c, -, -, hc, hdec⟩ := hk.inverts.crypt b.delivered m
  have hcmsg : c = msg := by simpa using List.append_cancel_left (hc.symm.trans hcm)
  rw [hcmsg] at hdec
  refine ⟨m, hpm, hcm, ?_⟩
  have hlen := h.small hne m (List.mem_cons_of_mem _ (hpm.subset (by simp)))
  have hd : b.decryptor = C.after d (C.ciphers e b.delivered) := by
    rw [hb.decryptor, hx, if_pos rfl]
  have hsec : b.isSecure = true := by rw [hb.secure, hx]; rfl
  simp only [receive, PacketProcessor.getMsg, hm, decrypt, hsec, hd, hdec, ↓reduceIte,
    respond, hx, bytes_ofVector hlen]

/-- What is known after `StartRecv` or `Recv_Handle`. -/
structure Received (C : Crypto κ) (e d : κ) (side : Side) (a b b' : Peer κ)
    (flight : List Byte) : Prop where
  ok : b'.Ok C e d
  flow : Flow C e side a b' flight
  exchange : b'.exchange ≠ .before
  sent : b'.sent = b.sent
  unsent : b'.unsent = b.unsent

theorem receive_received (hk : Keyed C e d) (hb : b.Ok C e d) (hx : b.exchange ≠ .before)
    (h : Flow C e side a b flight) :
    Received C e d side a b (b.receive C side.other) flight := by
  obtain ⟨old, hw, hdr⟩ := h.stream
  cases hm : b.recvbuffer.msgs with
  | nil =>
    have hr : b.receive C side.other = { b with reading := true } := by
      simp only [receive, PacketProcessor.getMsg, hm]
    rw [hr]
    exact ⟨⟨hb.running, hb.sound, hb.secure, hb.encryptor, hb.decryptor, hb.silent, hb.queue,
      fun _ => hx⟩, h.congrReader rfl rfl rfl, hx, rfl, rfl⟩
  | cons msg rest =>
    cases hex : b.exchange with
    | before => exact absurd hex hx
    | failed => exact absurd hex hb.sound
    | waiting =>
      obtain ⟨hr, hmsg⟩ := receive_key hk hb hex hm h
      have hsilent := hb.silent (by rw [hex]; decide)
      rw [hr]
      refine ⟨⟨hb.running, ?_, rfl, ?_, ?_, fun hn => absurd rfl hn, hb.queue, fun hr => by cases hr⟩,
        ⟨⟨old, hw, ?_⟩, h.inOrder, h.small⟩, ?_, rfl, rfl⟩
      · intro hf
        cases hf
      · rw [if_pos rfl, hsilent.1]
        rfl
      · rw [if_pos rfl, hsilent.2]
        rfl
      · rw [taken, hex, if_neg (by decide)] at hdr
        rw [taken, if_pos rfl, hsilent.2, Side.other_other, ← hmsg]
        refine ⟨?_, hdr.2⟩
        rw [← hdr.1, hm]
        rfl
      · intro hf
        cases hf
    | done =>
      obtain ⟨m, hpm, hcm, hr⟩ := receive_message hk hb hex hm h
      rw [hr]
      refine ⟨⟨hb.running, hb.sound, hb.secure, hb.encryptor, ?_, fun hn => absurd hex hn, hb.queue,
        fun _ => hx⟩, ⟨⟨old, hw, ?_⟩, hpm, h.small⟩, hx, rfl, rfl⟩
      · rw [if_pos hex, hcm]
      · rw [taken, if_pos hex] at hdr
        rw [taken, if_pos hex, hcm]
        refine ⟨?_, hdr.2⟩
        rw [← hdr.1, hm]
        simp

theorem enqueue_queue (p : Peer κ) (frame : List Byte)
    (h : p.sending = none ↔ p.sendQueue = []) :
    (p.enqueue frame).sending = none ↔ (p.enqueue frame).sendQueue = [] := by
  unfold enqueue
  cases hq : p.sendQueue with
  | nil => simp
  | cons f rest => simp [h, hq]

theorem sendHandle_queue {p : Peer κ} {bytes : List Byte} (h : p.sending = some bytes)
    (hq : p.sending = none ↔ p.sendQueue = []) (n : Nat) :
    (p.sendHandle bytes n).sending = none ↔ (p.sendHandle bytes n).sendQueue = [] := by
  unfold sendHandle
  split
  · rw [h] at hq
    simpa using hq
  · rw [List.head?_eq_none_iff]

/-- The key goes out unencrypted. -/
theorem send_key (hb : b.Ok C e d) (hx : b.exchange = .before) (bytes : List Byte) :
    b.send C bytes = b.enqueue (PacketProcessor.encapsulate bytes) := by
  have hsec : b.isSecure = false := by rw [hb.secure, hx]; rfl
  have henc : Outbox.encode C.crypt b.isSecure b.encryptor bytes =
      (.ok (PacketProcessor.encapsulate bytes), b.encryptor) := by
    rw [Outbox.encode, hsec]
    rfl
  rw [send, henc]

/-- A message goes out as the cipher that is its turn. -/
theorem send_message (hk : Keyed C e d) (hb : b.Ok C e d) (hx : b.exchange = .done)
    (m : List Byte) : ∃ c, C.ciphers e (b.sent ++ [m]) = C.ciphers e b.sent ++ [c] ∧
      b.send C m =
        ({ b with encryptor := C.after e (b.sent ++ [m]) } : Peer κ).enqueue
          (PacketProcessor.encapsulate c) := by
  obtain ⟨c, hc, -, hcs, -⟩ := hk.inverts.crypt b.sent m
  have hsec : b.isSecure = true := by rw [hb.secure, hx]; rfl
  have he : b.encryptor = C.after e b.sent := by rw [hb.encryptor, hx, if_pos rfl]
  refine ⟨c, hcs, ?_⟩
  rw [send, Outbox.encode, hsec, if_pos rfl, he, hc]
  rfl

end Peer

/-! ## The steps -/

namespace Connection
variable {κ : Type} {C : Crypto κ} {e d : κ} {c c' : Connection κ}

/-- The run invariant. -/
def Inv (C : Crypto κ) (e d : κ) (c : Connection κ) : Prop :=
  ∀ side, (c.peers side).Ok C e d ∧
    Flow C e side (c.peers side) (c.peers side.other) (c.flight side)

theorem start_inv : Inv C e d (start C) := by
  intro side
  refine ⟨Peer.start_ok C e d, ⟨[], rfl, ?_⟩, List.prefix_refl _, fun h => absurd rfl h⟩
  have hnil : Lib.Incremental.Extractor.drain frames [] = ([], []) :=
    Lib.Incremental.drain_of_none rfl
  unfold Drained
  rw [hnil]
  exact ⟨rfl, rfl⟩

theorem other_ne (side : Side) : side.other ≠ side := by cases side <;> decide

/-- The invariant from the facts about one side, the other, and the two directions. -/
theorem inv_of_sides (side : Side) (hp : (c.peers side).Ok C e d)
    (hq : (c.peers side.other).Ok C e d)
    (hf : Flow C e side (c.peers side) (c.peers side.other) (c.flight side))
    (hg : Flow C e side.other (c.peers side.other) (c.peers side) (c.flight side.other)) :
    Inv C e d c := by
  intro s
  by_cases hs : s = side
  · subst hs
    exact ⟨hp, hf⟩
  · have ho : s = side.other := by cases s <;> cases side <;> first | rfl | exact absurd rfl hs
    subst ho
    rw [Side.other_other]
    exact ⟨hq, hg⟩

/-- A step of one side. -/
theorem Inv.setPeer (h : Inv C e d c) {side : Side} {p : Peer κ} {out inc : List Byte}
    (hpeers : c'.peers = Function.update c.peers side p) (hout : c'.flight side = out)
    (hinc : c'.flight side.other = inc) (hp : p.Ok C e d)
    (hf : Flow C e side p (c.peers side.other) out)
    (hg : Flow C e side.other (c.peers side.other) p inc) : Inv C e d c' := by
  have hself : c'.peers side = p := by rw [hpeers, Function.update_self]
  have hother : c'.peers side.other = c.peers side.other := by
    rw [hpeers, Function.update_of_ne (other_ne side)]
  refine inv_of_sides side ?_ ?_ ?_ ?_
  · rw [hself]
    exact hp
  · rw [hother]
    exact (h side.other).1
  · rw [hself, hother, hout]
    exact hf
  · rw [hself, hother, hinc]
    exact hg

/-- The direction a side reads. -/
theorem Inv.incoming (h : Inv C e d c) (side : Side) :
    Flow C e side.other (c.peers side.other) (c.peers side) (c.flight side.other) := by
  have hflow := (h side.other).2
  rwa [Side.other_other] at hflow

theorem keyExchange_inv (hk : Keyed C e d) (h : Inv C e d c) {side : Side}
    (hfit : (C.publicKey side).length < 2 ^ 31) (hs : c.keyExchange C side = some c') :
    Inv C e d c' := by
  obtain ⟨hx, hs⟩ := Option.ite_none_right_eq_some.mp hs
  cases hs
  obtain ⟨hp, hf⟩ := h side
  have hg := h.incoming side
  have hsilent := hp.silent (by rw [hx]; decide)
  -- the state of the side between its `Send` and its `StartRecv`
  set q : Peer κ := { (c.peers side).enqueue (PacketProcessor.encapsulate (C.publicKey side)) with
    exchange := .waiting } with hq
  have hqx : q.exchange = .waiting := rfl
  have hqs : q.sent = [] := hsilent.1
  have hqok : q.Ok C e d := by
    refine ⟨hp.running, by rw [hqx]; decide, ?_, ?_, ?_, fun _ => hsilent,
      Peer.enqueue_queue _ _ hp.queue, fun _ => by rw [hqx]; decide⟩
    · have hsec := hp.secure
      rw [hx] at hsec
      exact hsec
    · have henc := hp.encryptor
      rw [hx] at henc
      exact henc
    · have hdec := hp.decryptor
      rw [hx] at hdec
      exact hdec
  have hqf : Flow C e side q (c.peers side.other) (c.flight side) := by
    refine hf.send (m := C.publicKey side) ?_ (Peer.unsent_enqueue hp.queue _)
      (List.prefix_refl _) ?_
    · rw [Peer.payloads, Peer.payloads, hx, hqx, if_pos rfl, if_neg (by decide), hqs]
      rfl
    · rw [hqs]
      intro m hm
      rw [List.mem_singleton.mp hm]
      exact hfit
  have hqg : Flow C e side.other (c.peers side.other) q (c.flight side.other) := by
    refine hg.congrReader rfl ?_ rfl
    rw [Peer.taken, Peer.taken, hx, hqx, if_neg (by decide), if_neg (by decide)]
  have hr := Peer.receive_received hk hqok (by rw [hqx]; decide) hqg
  rw [Side.other_other] at hr
  have hkey : (c.peers side).keyExchange C side = q.receive C side := by
    rw [Peer.keyExchange, Peer.send_key hp hx]
  rw [hkey]
  refine h.setPeer rfl rfl rfl hr.ok ?_ hr.flow
  refine hqf.congrWriter ⟨fun hb => absurd hb hr.exchange, fun hb => ?_⟩ hr.sent hr.unsent
  rw [hqx] at hb
  cases hb

theorem send_inv (hk : Keyed C e d) (h : Inv C e d c) {side : Side} {bytes : List Byte}
    (hfit : bytes.length < 2 ^ 31) (hs : c.send C side bytes = some c') : Inv C e d c' := by
  obtain ⟨hx, hs⟩ := Option.ite_none_right_eq_some.mp hs
  obtain ⟨hp, hf⟩ := h side
  obtain ⟨m, hcs, hsend⟩ := Peer.send_message hk hp hx bytes
  have hbefore : (c.peers side).exchange ≠ .before := by rw [hx]; decide
  dsimp only at hs
  rw [hsend] at hs
  cases hs
  refine h.setPeer rfl rfl rfl ⟨hp.running, hp.sound, hp.secure, ?_, hp.decryptor,
    fun hn => absurd hx hn, Peer.enqueue_queue _ _ hp.queue, fun _ => hbefore⟩ ?_ ?_
  · exact (if_pos hx).symm
  · refine hf.send (m := m) ?_ (Peer.unsent_enqueue hp.queue _) (List.prefix_append _ _) ?_
    · have hb : ∀ sent, (({ (c.peers side).enqueue (PacketProcessor.encapsulate m) with
          encryptor := C.after e sent, sent } : Peer κ)).payloads C e side =
          C.publicKey side :: C.ciphers e sent := fun sent => if_neg hbefore
      have hold : (c.peers side).payloads C e side =
          C.publicKey side :: C.ciphers e (c.peers side).sent := if_neg hbefore
      rw [hold, List.cons_append, ← hcs]
      exact hb _
    · intro x hx
      rcases List.mem_cons.mp hx with rfl | hx
      · exact hf.small hbefore _ List.mem_cons_self
      · rcases List.mem_append.mp hx with hx | hx
        · exact hf.small hbefore x (List.mem_cons_of_mem _ hx)
        · rw [List.mem_singleton.mp hx]
          exact hfit
  · exact (h.incoming side).congrReader rfl rfl rfl

theorem sent_inv (h : Inv C e d c) {side : Side} {written : Written}
    (hlive : written.live = true) (hs : c.sent side written = some c') : Inv C e d c' := by
  unfold sent at hs
  split at hs
  · cases hs
  rename_i bytes hb
  obtain ⟨-, hs⟩ := Option.ite_none_right_eq_some.mp hs
  rw [Written.bytes_of_live hlive] at hs
  generalize written.count = n at hs
  cases hs
  obtain ⟨hp, hf⟩ := h side
  have hsame : ((c.peers side).sendHandle bytes n) = { c.peers side with
      sendQueue := ((c.peers side).sendHandle bytes n).sendQueue
      sending := ((c.peers side).sendHandle bytes n).sending } := by
    unfold Peer.sendHandle
    split <;> rfl
  refine h.setPeer rfl (Function.update_self ..)
    (Function.update_of_ne (other_ne side) _ _) ?_ (hf.sent hb n) ?_
  · have hqueue := Peer.sendHandle_queue hb hp.queue n
    rw [hsame] at hqueue ⊢
    exact ⟨hp.running, hp.sound, hp.secure, hp.encryptor, hp.decryptor, hp.silent, hqueue, hp.reads⟩
  · rw [hsame]
    exact (h.incoming side).congrReader rfl rfl rfl

/-- A side has received: the other direction is as it was. -/
theorem Inv.received (h : Inv C e d c) {side : Side} {p : Peer κ} {inc : List Byte}
    (hx : (c.peers side).exchange ≠ .before)
    (hr : Peer.Received C e d side.other (c.peers side.other) (c.peers side) p inc)
    (hpeers : c'.peers = Function.update c.peers side p) (hout : c'.flight side = c.flight side)
    (hinc : c'.flight side.other = inc) : Inv C e d c' := by
  refine h.setPeer hpeers hout hinc hr.ok ?_ hr.flow
  refine (h side).2.congrWriter ?_ hr.sent hr.unsent
  exact ⟨fun hb => absurd hb hr.exchange, fun hb => absurd hb hx⟩

theorem startRecv_inv (hk : Keyed C e d) (h : Inv C e d c) {side : Side}
    (hs : c.startRecv C side = some c') : Inv C e d c' := by
  obtain ⟨⟨hx, -⟩, hs⟩ := Option.ite_none_right_eq_some.mp hs
  cases hs
  have hbefore : (c.peers side).exchange ≠ .before := by rw [hx]; decide
  have hr := Peer.receive_received hk (h side).1 hbefore (h.incoming side)
  rw [Side.other_other] at hr
  exact h.received hbefore hr rfl rfl rfl

theorem received_inv (hk : Keyed C e d) (h : Inv C e d c) {side : Side} {n : Nat}
    (hfit : (c.peers side).recvbuffer.recvbuffer.length + n < 2 ^ 31)
    (hs : c.received C side n = some c') : Inv C e d c' := by
  obtain ⟨⟨hreading, -, hn⟩, hs⟩ := Option.ite_none_right_eq_some.mp hs
  cases hs
  have hp := (h side).1
  have hbefore := hp.reads hreading
  obtain ⟨recvbuffer, hr, hflow⟩ := (h.incoming side).read hn hfit
  have hok : ({ c.peers side with recvbuffer } : Peer κ).Ok C e d :=
    ⟨hp.running, hp.sound, hp.secure, hp.encryptor, hp.decryptor, hp.silent, hp.queue, hp.reads⟩
  have hrec := Peer.receive_received hk hok hbefore hflow
  rw [Side.other_other] at hrec
  have hhandle : (c.peers side).recvHandle C side ((c.flight side.other).take n) =
      ({ c.peers side with recvbuffer } : Peer κ).receive C side := by
    rw [Peer.recvHandle, hr]
  rw [hhandle]
  exact h.received hbefore ⟨hrec.ok, hrec.flow, hrec.exchange, hrec.sent, hrec.unsent⟩ rfl
    (Function.update_of_ne (other_ne side).symm _ _) (Function.update_self ..)

theorem step_inv (hk : Keyed C e d) (h : Inv C e d c) {l : Label} (hfit : c.fits C l)
    (hs : c.step C l = some c') : Inv C e d c' := by
  obtain ⟨-, hs⟩ := Option.ite_none_left_eq_some.mp hs
  cases l with
  | keyExchange side => exact keyExchange_inv hk h hfit hs
  | send side bytes => exact send_inv hk h hfit hs
  | sent side written => exact sent_inv h hfit hs
  | startRecv side => exact startRecv_inv hk h hs
  | received side n => exact received_inv hk h hfit hs

theorem Inv.delivers (hk : Keyed C e d) (h : Inv C e d c) : c.Delivers where
  unbroken side := ⟨(h side).1.running, (h side).1.sound⟩
  inOrder side := (h.incoming side).inOrder
  complete side hq hflight hmsgs := by
    have ha := (h side.other).1
    have hb := (h side).1
    have hflow := h.incoming side
    have hunsent : (c.peers side.other).unsent = [] := by
      rw [Peer.unsent, ha.queue.mpr hq, hq]
      rfl
    have hall := (hflow.payloads_initial (hk.publicKey _) hk.inverts).2 hflight hunsent
    rw [hmsgs, List.append_nil, Peer.taken, Peer.payloads] at hall
    by_cases hdone : (c.peers side).exchange = .done
    · rw [if_pos hdone] at hall
      split at hall
      · cases hall
      · have hlen := congrArg List.length (List.cons.inj hall).2
        rw [Crypto.length_ciphers, Crypto.length_ciphers] at hlen
        exact hflow.inOrder.eq_of_length hlen
    · rw [if_neg hdone] at hall
      split at hall
      · rename_i hbefore
        rw [(hb.silent hdone).2, (ha.silent (by rw [hbefore]; decide)).1]
      · cases hall

/-- **Secure channel delivery.** In every run in which fewer than 2^31 bytes are sent at once and
buffered for one frame, and every write takes its bytes before their vector is gone, the handlers
of each side get the messages of the other, in order and unaltered, and all of them once nothing is
under way. -/
theorem run_delivers (C : Crypto κ) (hC : C.Agrees) (labels : List Label)
    (h : Meets (step C) (fun c l => c.fits C l) (start C) labels) :
    Always (step C) Delivers (start C) labels := by
  obtain ⟨e, d, hk⟩ := hC.keyed
  refine always_of_meets (I := Inv C e d) (fun c hc => hc.delivers hk) ?_ start_inv h
  intro c l c' hc hfit hs
  exact step_inv hk hc hfit hs

/-! ## A conversation -/

/-- The padding of the cipher, to blocks of 16 bytes. -/
def pad (m : List Byte) : List Byte :=
  m ++ List.replicate (16 - m.length % 16) (UInt8.ofNat (16 - m.length % 16))

/-- What the padding was put behind. -/
def unpad (block : List Byte) : Option (List Byte) :=
  block.getLast?.map fun n => block.take (block.length - n.toNat)

theorem unpad_pad (m : List Byte) : unpad (pad m) = some m := by
  obtain ⟨k, hk⟩ : ∃ k, 16 - m.length % 16 = k + 1 := ⟨15 - m.length % 16, by omega⟩
  have hlast : (pad m).getLast? = some (UInt8.ofNat (k + 1)) := by
    rw [pad, hk, List.replicate_succ', ← List.append_assoc, List.getLast?_concat]
  have hn : (UInt8.ofNat (k + 1)).toNat = k + 1 := by
    rw [UInt8.toNat_ofNat']
    exact Nat.mod_eq_of_lt (by omega)
  have hlen : (pad m).length = m.length + (k + 1) := by
    rw [pad, hk, List.length_append, List.length_replicate]
  rw [unpad, hlast, Option.map_some, hn, hlen, Nat.add_sub_cancel, pad, List.take_left]

/-- Two public keys on P-256. -/
def sampleKey : Side → List Byte
  | .left =>
    [4, 53, 45, 133, 7, 138, 153, 122, 90, 64, 49, 77, 35, 211, 20, 151, 219, 72, 174, 120, 67, 91,
     8, 71, 62, 143, 186, 85, 162, 192, 49, 72, 244, 13, 196, 6, 146, 74, 239, 127, 48, 178, 233,
     34, 103, 29, 56, 230, 195, 171, 107, 69, 75, 119, 110, 137, 226, 32, 242, 184, 95, 111, 144, 2,
     14]
  | .right =>
    [4, 10, 10, 85, 46, 79, 124, 227, 103, 176, 13, 19, 215, 45, 180, 130, 238, 152, 199, 32, 6,
     132, 90, 125, 41, 195, 132, 97, 157, 246, 233, 189, 36, 14, 221, 78, 114, 217, 155, 244, 21,
     221, 0, 151, 120, 68, 166, 31, 129, 167, 0, 88, 217, 140, 163, 100, 216, 97, 29, 150, 115, 90,
     24, 90, 109]

/-- What both sides compute of them. -/
def sampleSecret : List Byte :=
  [116, 91, 77, 135, 53, 50, 209, 242, 177, 9, 24, 152, 178, 161, 36, 97, 55, 44, 35, 247, 142, 229,
   45, 170, 107, 12, 230, 5, 142, 178, 23, 58]

def sampleDerived : List Byte :=
  [226, 131, 122, 139, 95, 126, 27, 179, 115, 100, 144, 180, 243, 88, 142, 180, 113, 80, 29, 48, 6,
   199, 66, 35, 22, 183, 186, 79, 215, 64, 72, 145, 172, 57, 157, 127, 118, 45, 103, 165, 151, 216,
   196, 15, 25, 31, 255, 225]

/-- The ciphers of `[1, 2]` and of the empty message behind it. -/
def sampleFirst : List Byte :=
  [210, 177, 44, 177, 44, 137, 7, 151, 171, 255, 189, 174, 177, 203, 133, 251]

def sampleSecond : List Byte :=
  [164, 5, 238, 2, 128, 220, 145, 47, 174, 106, 26, 200, 196, 50, 113, 99]

/-- The cipher of `[0xee]` as the first message. -/
def samplePattern : List Byte :=
  [180, 66, 217, 97, 180, 182, 81, 211, 116, 133, 110, 208, 146, 216, 146, 224]

/-- What AES-256-CBC makes of the padded messages of the conversation below, by the number of the
call; nothing happens to others. -/
def sampleBlocks : Nat → Equiv.Perm (List Byte)
  | 0 => Equiv.swap (pad [1, 2]) sampleFirst *
      Equiv.swap (pad [PacketProcessor.pattern]) samplePattern
  | 1 => Equiv.swap (pad []) sampleSecond
  | _ => 1

theorem sampleBlocks_of_length (n : Nat) {block : List Byte} (h : block.length ≠ 16) :
    sampleBlocks n block = block := by
  have hne : ∀ other : List Byte, other.length = 16 → block ≠ other := by
    rintro other hother rfl
    exact h hother
  match n with
  | 0 =>
    rw [sampleBlocks, Equiv.Perm.mul_apply,
      Equiv.swap_apply_of_ne_of_ne (hne _ (by decide)) (hne _ (by decide)),
      Equiv.swap_apply_of_ne_of_ne (hne _ (by decide)) (hne _ (by decide))]
  | 1 =>
    rw [sampleBlocks, Equiv.swap_apply_of_ne_of_ne (hne _ (by decide)) (hne _ (by decide))]
  | _ + 2 => rfl

theorem sampleBlocks_ne_nil (n : Nat) {block : List Byte} (h : block ≠ []) :
    sampleBlocks n block ≠ [] := by
  intro hnil
  have hfix : sampleBlocks n [] = [] := sampleBlocks_of_length n (by decide)
  exact h ((sampleBlocks n).injective (hnil.trans hfix.symm))

/-- An `Encryptor` for encryption or not, and the number of its calls. -/
def sample : Crypto (Bool × Nat) where
  publicKey := sampleKey
  computeKey side key := if key = sampleKey side.other then some sampleSecret else none
  kdf secret n :=
    if secret = sampleSecret ∧ n = 48 then sampleDerived else List.replicate n 0
  unkeyed isEncrypt := (isEncrypt, 0)
  setKey k _ _ := (k.1, 0)
  crypt k m :=
    if k.1 then (.ok (sampleBlocks k.2 (pad m)), (k.1, k.2 + 1))
    else match unpad ((sampleBlocks k.2).symm m) with
      | some bytes => (.ok bytes, (k.1, k.2 + 1))
      | none => (.error (.stackTrace "wrong final block length"), (k.1, k.2 + 1))

theorem after_sample (k : Bool × Nat) (ms : List (List Byte)) :
    sample.after k ms = (k.1, k.2 + ms.length) := by
  induction ms using List.reverseRecOn with
  | nil => rfl
  | append_singleton ms m ih =>
    have hnext : ∀ j : Bool × Nat, (sample.crypt j m).2 = (j.1, j.2 + 1) := by
      intro j
      simp only [sample]
      split
      · rfl
      · split <;> rfl
    rw [Crypto.after_concat, ih, hnext, List.length_append, List.length_singleton, Nat.add_assoc]

theorem sample_agrees : sample.Agrees where
  publicKey side := by cases side <;> decide
  shared := ⟨sampleDerived, by decide, fun side => ⟨sampleSecret, if_pos rfl, by simp [sample]⟩⟩
  inverts key iv := by
    intro ms m
    rw [after_sample, after_sample, Crypto.length_ciphers]
    refine ⟨sampleBlocks ms.length (pad m), ?_, sampleBlocks_ne_nil _ ?_, ?_⟩
    · simp [sample]
    · intro hnil
      have hunpad := unpad_pad m
      rw [hnil] at hunpad
      cases hunpad
    · simp [sample, unpad_pad]

/-- The left side's key arrives first, in two parts, and the right side sends before its own key is
read. -/
def conversation : List Label :=
  [.keyExchange .left, .keyExchange .right, .sent .left (.taken 50), .received .right 40,
    .sent .left (.taken 17), .received .right 27, .send .right [1, 2], .send .right [],
    .sent .right (.taken 68), .sent .right (.taken 10), .sent .right (.taken 8),
    .sent .right (.taken 19), .received .left 105, .startRecv .left, .startRecv .left,
    .send .left [PacketProcessor.pattern], .startRecv .right, .sent .left (.taken 18),
    .received .right 18]

theorem run_delivers_conversation :
    Always (step sample) Delivers (start sample) conversation ∧
      ∃ c, run (step sample) (start sample) conversation = some c ∧
        (c.peers .left).delivered = [[1, 2], []] ∧
        (c.peers .right).delivered = [[PacketProcessor.pattern]] := by
  refine ⟨run_delivers sample sample_agrees conversation (by decide +kernel), ?_⟩
  exact exists_run_of_any (by decide +kernel)

/-- Both sides have the key, and the right one reads. -/
def opening : List Label :=
  [.keyExchange .left, .keyExchange .right, .sent .left (.taken 67), .sent .right (.taken 68),
    .received .left 68, .received .right 67, .startRecv .right]

/-! ## A vector that is gone -/

/-- The transport takes the bytes of the frame of `[0xee]` when their memory holds zeros, and the
message is never delivered. -/
theorem stale_not_delivered : sample.Agrees ∧
    ∃ t, run (step sample) (start sample) (opening ++ [.send .left [PacketProcessor.pattern],
      .sent .left (.stale (List.replicate 18 0)), .received .right 18]) = some t ∧
      ¬ t.Delivers := by
  have h : ∃ t, run (step sample) (start sample) (opening ++ [.send .left [PacketProcessor.pattern],
      .sent .left (.stale (List.replicate 18 0)), .received .right 18]) = some t ∧
      (t.peers .left).sendQueue = [] ∧ t.flight .left = [] ∧
      (t.peers .right).recvbuffer.msgs = [] ∧
      (t.peers .right).delivered ≠ (t.peers .left).sent := exists_run_of_any (by decide +kernel)
  obtain ⟨t, ht, hqueue, hflight, hmsgs, hne⟩ := h
  exact ⟨sample_agrees, t, ht, fun hd => hne (hd.complete .right hqueue hflight hmsgs)⟩

/-! ## A frame that is never found -/

/-- A side whose key exchange is done, with nothing under way. -/
def ready (reading : Bool) : Peer (Bool × Nat) where
  exchange := .done
  isSecure := true
  encryptor := (true, 0)
  decryptor := (false, 0)
  recvbuffer := {}
  reading := reading
  sendQueue := []
  sending := none
  ended := false
  sent := []
  delivered := []

/-- What goes out for a first message. -/
def frame (m : List Byte) : List Byte := PacketProcessor.encapsulate (sampleBlocks 0 (pad m))

/-- A side that has sent one message, with so much in its queue. -/
def sender (m : List Byte) (queue : List (List Byte)) : Peer (Bool × Nat) :=
  { ready false with encryptor := (true, 1), sendQueue := queue, sending := queue.head?, sent := [m] }

/-- Of a frame of 2^31 bytes or more no part is recognised. -/
theorem recv_frame {m x chunk : List Byte} {n : Nat} (hlarge : 2 ^ 31 ≤ (frame m).length)
    (hfits : -2 ^ 31 < toInt ((frame m).take n).length) (hx : x ++ chunk = (frame m).take n) :
    PacketProcessor.recv ⟨[], x⟩ chunk = some ⟨[], x ++ chunk⟩ := by
  refine Chunking.recv_of_cut_none ?_ ?_
  · dsimp only
    rw [hx]
    exact hfits
  · dsimp only
    rw [hx, List.take_take]
    refine cut_take_encapsulate ?_
    have hseen := seen_lt ((frame m).take n).length
    exact lt_of_lt_of_le (lt_of_le_of_lt (Nat.min_le_left _ _) hseen) hlarge

/-- The two sides and the bytes from left to right. -/
def At (c : Connection (Bool × Nat)) (p q : Peer (Bool × Nat)) (flight : List Byte) : Prop :=
  c.peers .left = p ∧ c.peers .right = q ∧ c.flight .left = flight

instance (c : Connection (Bool × Nat)) (p q : Peer (Bool × Nat)) (flight : List Byte) :
    Decidable (c.At p q flight) :=
  inferInstanceAs (Decidable (_ ∧ _ ∧ _))

section Large
variable {c : Connection (Bool × Nat)} {m : List Byte}

theorem step_send (h : c.At (ready false) (ready true) []) :
    ∃ t, step sample c (.send .left m) = some t ∧ t.At (sender m [frame m]) (ready true) [] := by
  obtain ⟨hl, hr, hf⟩ := h
  refine ⟨c.setPeer .left (sender m [frame m]), ?_, rfl, hr, hf⟩
  simp [step, Label.side, send, hl, ready, sender, Peer.send, Outbox.encode, sample, Peer.enqueue,
    frame, Except.map]

theorem step_sent (hpos : 0 < (frame m).length) (h : c.At (sender m [frame m]) (ready true) []) :
    ∃ t, step sample c (.sent .left (.taken (frame m).length)) = some t ∧
      t.At (sender m []) (ready true) (frame m) := by
  obtain ⟨hl, hr, hf⟩ := h
  refine ⟨(c.setPeer .left (sender m [])).setFlight .left (frame m), ?_, rfl, hr, rfl⟩
  simp [step, Label.side, sent, hl, hf, ready, sender, Peer.sendHandle, hpos, Written.count,
    Written.bytes]

theorem step_received (hlarge : 2 ^ 31 ≤ (frame m).length) {x y : List Byte} {n k : Nat}
    (hn : 0 < n) (hle : n ≤ y.length) (hx : x ++ y.take n = (frame m).take k)
    (hfits : -2 ^ 31 < toInt ((frame m).take k).length)
    (h : c.At (sender m []) { ready true with recvbuffer := ⟨[], x⟩ } y) :
    ∃ t, step sample c (.received .right n) = some t ∧
      t.At (sender m []) { ready true with recvbuffer := ⟨[], (frame m).take k⟩ } (y.drop n) := by
  obtain ⟨hl, hr, hf⟩ := h
  have hrecv := recv_frame hlarge hfits hx
  refine ⟨(c.setPeer .right { ready true with
    recvbuffer := ⟨[], (frame m).take k⟩ }).setFlight .left (y.drop n), ?_, hl, rfl, rfl⟩
  rw [hx] at hrecv
  simp [step, Label.side, received, hr, hf, ready, Side.other, hn, hle, Peer.recvHandle, hrecv,
    Peer.receive, PacketProcessor.getMsg]

/-- A message whose frame is that long is sent, read in two parts and never delivered. -/
theorem not_delivers_of_large (h : c.At (ready false) (ready true) []) {i j : Nat}
    (hlen : i + j = (frame m).length) (hi : 0 < i) (hj : 0 < j)
    (hlarge : 2 ^ 31 ≤ (frame m).length) (hfirst : -2 ^ 31 < toInt i)
    (hboth : -2 ^ 31 < toInt (i + j)) :
    ∃ t, run (step sample) c [.send .left m, .sent .left (.taken (frame m).length),
      .received .right i, .received .right j] = some t ∧ ¬ t.Delivers := by
  have htake : ∀ k ≤ i + j, ((frame m).take k).length = k := by
    intro k hk
    rw [List.length_take]
    omega
  obtain ⟨c₁, hs₁, h₁⟩ := step_send (m := m) h
  obtain ⟨c₂, hs₂, h₂⟩ := step_sent (by omega) h₁
  obtain ⟨c₃, hs₃, h₃⟩ := step_received (x := []) (k := i) hlarge hi (by omega) rfl
    (by rw [htake i (by omega)]; exact hfirst) h₂
  obtain ⟨c₄, hs₄, hl, hr, hf⟩ := step_received (n := j) (k := i + j) hlarge hj
    (by rw [List.length_drop]; omega) (List.take_add ..).symm
    (by rw [htake (i + j) (le_refl _)]; exact hboth) h₃
  refine ⟨c₄, ?_, fun hd => ?_⟩
  · rw [run_cons_of_some hs₁, run_cons_of_some hs₂, run_cons_of_some hs₃, run_cons_of_some hs₄]
    rfl
  · -- nothing is under way, and the message has not come out
    have hall := hd.complete .right (by rw [Side.other, hl]; rfl)
      (by rw [Side.other, hf, List.drop_drop, hlen, List.drop_length]) (by rw [hr])
    rw [Side.other, hl, hr] at hall
    cases hall

end Large

/-- 2^31 - 32 bytes, of which sixteen are escaped. -/
def huge : List Byte := List.replicate 16 PacketProcessor.pattern ++ List.replicate (2 ^ 31 - 48) 0

theorem length_huge : huge.length = 2 ^ 31 - 32 := by
  rw [huge, List.length_append, List.length_replicate, List.length_replicate]
  rfl

theorem pad_huge : pad huge = List.replicate 16 PacketProcessor.pattern ++
    (List.replicate (2 ^ 31 - 48) 0 ++ List.replicate 16 16) := by
  rw [pad, length_huge, huge, List.append_assoc]
  rfl

theorem length_pad_huge : (pad huge).length = 2 ^ 31 - 16 := by
  rw [pad_huge, List.length_append, List.length_append, List.length_replicate,
    List.length_replicate, List.length_replicate]
  rfl

theorem length_frame_huge : (frame huge).length = 2 ^ 31 + 2 := by
  have hp : PacketProcessor.pattern ∉
      List.replicate (2 ^ 31 - 48) 0 ++ List.replicate 16 16 := by
    rw [List.mem_append]
    rintro (h | h)
    · exact absurd (List.eq_of_mem_replicate h) (by decide)
    · exact absurd (List.eq_of_mem_replicate h) (by decide)
  have hescaped : (PacketProcessor.escape (List.replicate 16 PacketProcessor.pattern)).length =
      32 := by decide
  rw [frame, sampleBlocks_of_length 0 (by rw [length_pad_huge]; decide),
    PacketProcessor.encapsulate, pad_huge, escape_append, escape_of_not_mem hp,
    List.length_append, List.length_append, List.length_append, hescaped, List.length_replicate,
    List.length_replicate]
  rfl

/-- Read in two parts, the message `huge` is never delivered, though every write takes its bytes in
time. -/
theorem huge_not_delivered :
    ∃ t, run (step sample) (start sample) (opening ++ [.send .left huge,
      .sent .left (.taken (frame huge).length), .received .right (2 ^ 30),
      .received .right (2 ^ 30 + 2)]) = some t ∧ ¬ t.Delivers := by
  have hopen : ∃ c, run (step sample) (start sample) opening = some c ∧
      c.At (ready false) (ready true) [] := exists_run_of_any (by decide +kernel)
  obtain ⟨c, hc, hat⟩ := hopen
  have hlen := length_frame_huge
  have hboth : toInt (2 ^ 30 + (2 ^ 30 + 2)) = -2 ^ 31 + 2 := by
    unfold toInt
    decide
  obtain ⟨t, ht, hn⟩ := not_delivers_of_large hat (i := 2 ^ 30) (j := 2 ^ 30 + 2)
    (by rw [hlen]; rfl) (by decide) (by decide) (by rw [hlen]; decide)
    (by rw [toInt_of_lt (by decide)]; decide) (by rw [hboth]; decide)
  refine ⟨t, ?_, hn⟩
  rw [run_append, hc]
  exact ht

end Connection
end DrgbServer.Network
