import DrgbServer.Utils.Framing

/-! # The iterator of `decapsulate`

`decapsulate` steps over a `pattern` without a look at the end. `split` takes a `pattern`
and what follows it in two steps unless they are a pair, `decapsulate` takes them in one;
both come to the end of a frame at the same place. -/
namespace DrgbServer.Utils.Unescape
open PacketProcessor Framing

/-- How the loop of `decapsulate` ends. -/
inductive Unescaped
  /-- the iterator is `end()`; so many bytes were escapes -/
  | finished (result : List Byte) (skipped : Nat)
  /-- the return inside of the loop -/
  | atEof (result : List Byte)
  /-- `end()` is dereferenced -/
  | beyond
deriving DecidableEq

/-- The loop of `decapsulate` from an iterator on, with the result so far. -/
def unescapeFrom (result : List Byte) (skipped : Nat) : List Byte → Unescaped
  | [] => .finished result skipped
  | a :: rest =>
    if a = pattern then match rest with
      | [] => .beyond
      | b :: rest =>
        if b = eof then .atEof result else unescapeFrom (result ++ [b]) (skipped + 1) rest
    else unescapeFrom (result ++ [a]) skipped rest

def unescape (data : List Byte) : Unescaped := unescapeFrom [] 0 data

/-- What `flush` hands to `decapsulate`, in order, and the buffer that it leaves; `none` where
the bound of `split` overflows. -/
def handed (recvbuffer : List Byte) : List (List Byte) × Option (List Byte) :=
  (split recvbuffer).pelim ([], none) fun ptr _h =>
    if _hptr : 0 ≤ ptr then
      let data := recvbuffer.take ptr.toNat
      let (calls, left) := handed (recvbuffer.drop (ptr.toNat + 2))
      (if 0 < data.length then data :: calls else calls, left)
    else ([], some recvbuffer)
termination_by recvbuffer.length
decreasing_by
  have := split_toNat_bound _h _hptr
  simp only [List.length_drop]
  omega

/-- The same over a stream that comes in chunks. -/
def handedAll : List Byte → List (List Byte) → List (List Byte) × Option (List Byte)
  | recvbuffer, [] => ([], some recvbuffer)
  | recvbuffer, chunk :: rest =>
    let (calls, left) := handed (recvbuffer ++ chunk)
    match left with
    | none => (calls, none)
    | some left =>
      let (more, last) := handedAll left rest
      (calls ++ more, last)

/-! ## One frame -/

theorem unescapeFrom_of_ne {a : Byte} (ha : a ≠ pattern) (result : List Byte) (skipped : Nat)
    (rest : List Byte) :
    unescapeFrom result skipped (a :: rest) = unescapeFrom (result ++ [a]) skipped rest := by
  rw [unescapeFrom.eq_def]
  simp [ha]

theorem unescapeFrom_pattern {b : Byte} (hb : b ≠ eof) (result : List Byte) (skipped : Nat)
    (rest : List Byte) : unescapeFrom result skipped (pattern :: b :: rest) =
      unescapeFrom (result ++ [b]) (skipped + 1) rest := by
  rw [unescapeFrom.eq_def]
  simp [hb]

/-- The loop comes to the end of the bytes with this message. -/
def Ends (data message : List Byte) (skipped : Nat) : Prop :=
  decapsulate data = some message ∧ message.length + skipped = data.length ∧
    ∀ result before, unescapeFrom result before data =
      .finished (result ++ message) (before + skipped)

theorem ends_nil : Ends [] [] 0 :=
  ⟨rfl, rfl, fun result before => by rw [unescapeFrom, List.append_nil, Nat.add_zero]⟩

theorem Ends.plain {data message : List Byte} {skipped : Nat} (h : Ends data message skipped)
    {a : Byte} (ha : a ≠ pattern) : Ends (a :: data) (a :: message) skipped := by
  obtain ⟨hdata, hlen, hloop⟩ := h
  refine ⟨by rw [decapsulate_of_ne ha, hdata]; rfl, ?_, fun result before => ?_⟩
  · rw [List.length_cons, List.length_cons, ← hlen]
    omega
  · rw [unescapeFrom_of_ne ha, hloop, List.append_assoc]
    rfl

theorem Ends.escaped {data message : List Byte} {skipped : Nat} (h : Ends data message skipped)
    {b : Byte} (hb : b ≠ eof) : Ends (pattern :: b :: data) (b :: message) (skipped + 1) := by
  obtain ⟨hdata, hlen, hloop⟩ := h
  refine ⟨by rw [decapsulate_pattern hb, hdata]; rfl, ?_, fun result before => ?_⟩
  · simp only [List.length_cons, ← hlen]
    omega
  · rw [unescapeFrom_pattern hb, hloop, List.append_assoc, Nat.add_assoc, Nat.add_comm 1]
    rfl

/-- A `pattern` before an ordinary byte is skipped like any escape. -/
theorem Ends.lone {data message : List Byte} {skipped : Nat} {b : Byte}
    (h : Ends (b :: data) message skipped) (hb : b ≠ pattern) (he : b ≠ eof) :
    Ends (pattern :: b :: data) message (skipped + 1) := by
  obtain ⟨hdata, hlen, hloop⟩ := h
  refine ⟨?_, ?_, fun result before => ?_⟩
  · rw [decapsulate_pattern he, ← decapsulate_of_ne hb, hdata]
  · rw [List.length_cons, ← hlen]
    omega
  · rw [unescapeFrom_pattern he, ← unescapeFrom_of_ne hb, hloop, Nat.add_assoc, Nat.add_comm 1]

/-- What stands before a terminator of the scan is unescaped to its end. -/
theorem ends_of_cut {b d r : List Byte} (h : cut b = some (d, r)) :
    ∃ message skipped, Ends d message skipped := by
  fun_induction cut b generalizing d with
  | case1 a b rest hp ih =>
    obtain ⟨⟨d', r'⟩, hc, he⟩ := Option.map_eq_some_iff.mp h
    cases he
    obtain ⟨message, skipped, hends⟩ := ih hc
    have hb : b ≠ eof := by
      rw [hp.2]
      decide
    rw [hp.1]
    exact ⟨_, _, hends.escaped hb⟩
  | case2 a b rest hp he =>
    cases h
    exact ⟨_, _, ends_nil⟩
  | case3 a b rest hp he ih =>
    obtain ⟨⟨d', r'⟩, hc, he'⟩ := Option.map_eq_some_iff.mp h
    cases he'
    obtain ⟨message, skipped, hends⟩ := ih hc
    by_cases ha : a = pattern
    · -- the scan comes to the byte behind a lone `pattern` next, so it is in the frame
      have hb : b ≠ pattern := fun hb => hp ⟨ha, hb⟩
      obtain _ | ⟨x, d''⟩ := d'
      · obtain ⟨rfl, -⟩ := List.cons.inj (cut_eq hc)
        exact absurd rfl hb
      · obtain ⟨rfl, -⟩ := List.cons.inj (cut_eq hc)
        rw [ha]
        exact ⟨_, _, hends.lone hb fun heof => he ⟨ha, heof⟩⟩
    · exact ⟨_, _, hends.plain ha⟩
  | case4 b hb => cases h

/-- The messages of the frames handed over. -/
def Unescapes (data message : List Byte) : Prop :=
  ∃ skipped, unescape data = .finished message skipped ∧ skipped ≤ data.length ∧
    message.length = data.length - skipped

theorem Ends.unescapes {data message : List Byte} {skipped : Nat} (h : Ends data message skipped) :
    Unescapes data message := by
  obtain ⟨-, hlen, hloop⟩ := h
  refine ⟨skipped, ?_, by omega, by omega⟩
  rw [unescape, hloop, List.nil_append, Nat.zero_add]

/-! ## The frames of a buffer -/

/-- What a scan finds stands before a terminator. -/
theorem cut_of_split {recvbuffer : List Byte} {ptr : Int} (h : split recvbuffer = some ptr)
    (hptr : 0 ≤ ptr) : ∃ b r, cut b = some (recvbuffer.take ptr.toNat, r) := by
  have hlen : (recvbuffer.take (seen recvbuffer.length)).length = seen recvbuffer.length := by
    rw [List.length_take]
    exact min_eq_left (seen_le _)
  have hsplit := split_eq (b := recvbuffer.take (seen recvbuffer.length))
    (c := recvbuffer.drop (seen recvbuffer.length))
    (by rw [List.take_append_drop]; exact (split_cases h).1)
    (by rw [List.take_append_drop, hlen])
  rw [List.take_append_drop, h, Option.some.injEq] at hsplit
  cases hcut : cut (recvbuffer.take (seen recvbuffer.length)) with
  | none =>
    rw [hcut] at hsplit
    rw [hsplit] at hptr
    exact absurd hptr (by decide)
  | some found =>
    obtain ⟨d, r⟩ := found
    rw [hcut] at hsplit
    have hd : recvbuffer.take d.length = d := by
      have hprefix := congrArg (List.take d.length) (cut_eq hcut)
      rw [List.take_left' rfl, List.take_take] at hprefix
      have hle : d.length ≤ seen recvbuffer.length := by
        rw [← hlen, cut_eq hcut, List.length_append]
        exact Nat.le_add_right ..
      rwa [min_eq_left hle] at hprefix
    refine ⟨recvbuffer.take (seen recvbuffer.length), r, ?_⟩
    rw [hsplit, Option.elim_some, Int.toNat_natCast, hd]
    exact hcut

/-- What the processor is after the calls: nothing is known of it where the bound overflows. -/
def after (msgs : List (List Byte)) (left : Option (List Byte)) : Option PacketProcessor :=
  left.map fun recvbuffer => ⟨msgs, recvbuffer⟩

/-- `flush` queues the messages of what it hands over. Induction on the length of the buffer. -/
theorem flush_handed (msgs : List (List Byte)) (recvbuffer : List Byte) : ∃ new,
    flush ⟨msgs, recvbuffer⟩ = after (msgs ++ new) (handed recvbuffer).2 ∧
      List.Forall₂ Unescapes (handed recvbuffer).1 new := by
  induction hn : recvbuffer.length using Nat.strongRecOn generalizing msgs recvbuffer with
  | _ n ih =>
    cases hs : split recvbuffer with
    | none =>
      rw [flush_of_split_none hs, handed, Option.pelim_none' hs]
      exact ⟨[], rfl, .nil⟩
    | some ptr =>
      by_cases hptr : 0 ≤ ptr
      · have hlen := split_toNat_bound hs hptr
        have hshort : (recvbuffer.drop (ptr.toNat + 2)).length < n := by
          rw [List.length_drop]
          omega
        rw [flush_of_nonneg hs hptr, handed, Option.pelim_some' hs, dif_pos hptr]
        dsimp only
        by_cases hdata : 0 < (recvbuffer.take ptr.toNat).length
        · obtain ⟨b, r, hcut⟩ := cut_of_split hs hptr
          obtain ⟨message, skipped, hends⟩ := ends_of_cut hcut
          obtain ⟨new, hflush, hnew⟩ := ih _ hshort (msgs ++ [message]) _ rfl
          refine ⟨message :: new, ?_, ?_⟩
          · rw [if_pos hdata, hends.1, Option.bind_some, hflush, List.append_assoc]
            rfl
          · rw [if_pos hdata]
            exact .cons hends.unescapes hnew
        · obtain ⟨new, hflush, hnew⟩ := ih _ hshort msgs _ rfl
          exact ⟨new, by rw [if_neg hdata, hflush], by rwa [if_neg hdata]⟩
      · rw [flush_of_neg hs (Int.not_le.mp hptr), handed, Option.pelim_some' hs, dif_neg hptr]
        exact ⟨[], by rw [List.append_nil]; rfl, .nil⟩

/-- And so do all chunks of a stream. -/
theorem recv_handed (p : PacketProcessor) (chunks : List (List Byte)) : ∃ new,
    chunks.foldlM recv p = after (p.msgs ++ new) (handedAll p.recvbuffer chunks).2 ∧
      List.Forall₂ Unescapes (handedAll p.recvbuffer chunks).1 new := by
  induction chunks generalizing p with
  | nil => exact ⟨[], by rw [List.append_nil]; rfl, .nil⟩
  | cons chunk rest ih =>
    obtain ⟨new, hflush, hnew⟩ := flush_handed p.msgs (p.recvbuffer ++ chunk)
    cases hhanded : handed (p.recvbuffer ++ chunk) with
    | mk calls left =>
      rw [hhanded] at hflush hnew
      rw [List.foldlM_cons, recv, hflush, handedAll, hhanded]
      cases left with
      | none => exact ⟨new, rfl, hnew⟩
      | some left =>
        obtain ⟨more, hrest, hmore⟩ := ih ⟨p.msgs ++ new, left⟩
        refine ⟨new ++ more, ?_, List.rel_append hnew hmore⟩
        rw [after, Option.map_some, Option.bind_eq_bind, Option.bind_some, hrest,
          List.append_assoc]

theorem decapsulate_encapsulate (m s : List Byte) : decapsulate (encapsulate m ++ s) = some m := by
  have hterminated : decapsulate (escape m ++ pattern :: eof :: s) = some m := by
    induction m with
    | nil => rfl
    | cons b m ih =>
      by_cases hb : b = pattern
      · rw [escape, if_pos hb, hb, List.cons_append, List.cons_append,
          decapsulate_pattern (by decide), ih]
        rfl
      · rw [escape, if_neg hb, List.cons_append, decapsulate_of_ne hb, ih]
        rfl
  rw [encapsulate, List.append_assoc]
  exact hterminated

/-- **Unescaping never runs off a frame.** Whatever comes in, in whatever chunks and on top of
whatever is in the buffer: each time `flush` calls `decapsulate` the loop comes to the end of the
data, without the return inside of it, with the data less the escapes; these are the messages
queued, in order. These are the calls made before a bound of `split` overflows, if one does. What
was encapsulated is decapsulated whatever stands behind it. -/
theorem unescaping_stays_in_frame :
    (∀ (p : PacketProcessor) (chunks : List (List Byte)), ∃ new,
      (chunks.foldlM recv p = (handedAll p.recvbuffer chunks).2.map fun left =>
          ⟨p.msgs ++ new, left⟩) ∧
        List.Forall₂ (fun data message => ∃ skipped, unescape data = .finished message skipped ∧
          skipped ≤ data.length ∧ message.length = data.length - skipped)
          (handedAll p.recvbuffer chunks).1 new) ∧
    ∀ m s, decapsulate (encapsulate m ++ s) = some m :=
  ⟨recv_handed, decapsulate_encapsulate⟩

end DrgbServer.Utils.Unescape
