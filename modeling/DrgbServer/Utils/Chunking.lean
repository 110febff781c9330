import DrgbServer.Utils.Framing

/-! # When framing depends on the chunks

A decision of `split` is final: `cut` is stable, so while fewer than 2^31 bytes have
come, well formed or not, the frames taken are those of the whole stream at once
(`feed_of_lt`). Of a longer stream one byte first and 2^31 - 1 bytes behind it make
a buffer whose size is the least `int`, and the bound of the loop overflows
(`exists_overflow`). -/
namespace DrgbServer.Utils.Chunking
open DrgbServer.Lib.Incremental PacketProcessor Framing

/-- A fresh processor after the chunks `cs`. -/
def feed (cs : List (List Byte)) : Option PacketProcessor := cs.foldlM recv {}

/-- A way of cutting the stream; `Recv` is told the length of a chunk as an `int`. -/
def Cuts (s : List Byte) (cs : List (List Byte)) : Prop :=
  cs.flatten = s ∧ ∀ c ∈ cs, c.length < 2 ^ 31

/-- Any two ways of cutting the stream leave the same queue and the same buffer,
and at its end a chunk may be received in two parts or at once. -/
def Insensitive (s : List Byte) : Prop :=
  (∀ cs cs', Cuts s cs → Cuts s cs' → ∃ p, feed cs = some p ∧ feed cs' = some p) ∧
  ∀ cs b c, Cuts s (cs ++ [b ++ c]) →
    ((feed cs).bind fun p => (p.recv b).bind fun q => q.recv c) =
      (feed cs).bind fun p => p.recv (b ++ c)

/-! ## Feeding -/

theorem feed_concat (cs : List (List Byte)) (c : List Byte) :
    feed (cs ++ [c]) = (feed cs).bind fun p => p.recv c := by
  unfold feed
  rw [List.foldlM_append]
  cases List.foldlM recv {} cs <;> simp [List.foldlM]

theorem cuts_append {s t : List Byte} {cs ds : List (List Byte)} (h : Cuts s cs)
    (h' : Cuts t ds) : Cuts (s ++ t) (cs ++ ds) := by
  refine ⟨by rw [List.flatten_append, h.1, h'.1], ?_⟩
  intro c hc
  rcases List.mem_append.mp hc with hc | hc
  · exact h.2 c hc
  · exact h'.2 c hc

theorem cuts_singleton {s : List Byte} (h : s.length < 2 ^ 31) : Cuts s [s] :=
  ⟨by simp, by simpa using h⟩

/-- Byte by byte, every stream can be fed. -/
theorem exists_cuts (s : List Byte) : ∃ cs, Cuts s cs := by
  induction s with
  | nil => exact ⟨[], rfl, by simp⟩
  | cons a s ih =>
    obtain ⟨cs, hcs⟩ := ih
    exact ⟨[a] :: cs, cuts_append (cuts_singleton (s := [a]) (by simp)) hcs⟩

/-- No frame in the part that is seen: the chunk is buffered. -/
theorem recv_of_cut_none {p : PacketProcessor} {c : List Byte}
    (hfits : -2 ^ 31 < toInt (p.recvbuffer ++ c).length)
    (h : cut ((p.recvbuffer ++ c).take (seen (p.recvbuffer ++ c).length)) = none) :
    p.recv c = some ⟨p.msgs, p.recvbuffer ++ c⟩ := by
  have hl : seen (p.recvbuffer ++ c).length =
      ((p.recvbuffer ++ c).take (seen (p.recvbuffer ++ c).length)).length := by
    rw [List.length_take, Nat.min_eq_left (seen_le _)]
  have hflush := flush_append p.msgs
    (b := (p.recvbuffer ++ c).take (seen (p.recvbuffer ++ c).length))
    (c := (p.recvbuffer ++ c).drop (seen (p.recvbuffer ++ c).length))
    (by rw [List.take_append_drop]; exact hfits) (by rw [List.take_append_drop]; exact hl)
  rw [drain_of_none h, List.take_append_drop] at hflush
  rw [recv, hflush]
  simp [decoded]

/-- A buffer of 2^31 bytes: the size is the least `int`. -/
theorem recv_overflow {p : PacketProcessor} {c : List Byte}
    (h : p.recvbuffer.length + c.length = 2 ^ 31) : p.recv c = none := by
  refine flush_of_split_none (split_of_overflow ?_)
  rw [List.length_append, h]
  unfold toInt
  decide

theorem feed_append_of_none {cs : List (List Byte)} (h : feed cs = none) (ds : List (List Byte)) :
    feed (cs ++ ds) = none := by
  unfold feed at h ⊢
  rw [List.foldlM_append, h]
  rfl

/-! ## Streams that fit -/

/-- One drain of the whole stream, from a fresh processor. -/
def atOnce (s : List Byte) : PacketProcessor := ⟨decoded (frames.drain s).1, (frames.drain s).2⟩

theorem atOnce_of_cut_none {s : List Byte} (h : cut s = none) : atOnce s = ⟨[], s⟩ := by
  rw [atOnce, drain_of_none h]
  rfl

theorem recv_atOnce {s c : List Byte} (h : s.length + c.length < 2 ^ 31) :
    (atOnce s).recv c = some (atOnce (s ++ c)) := by
  have hle := length_drain_rest_le (E := frames) s
  have hfits : (atOnce s).recvbuffer.length + c.length < 2 ^ 31 :=
    lt_of_le_of_lt (Nat.add_le_add_right hle _) h
  rw [recv_eq hfits, atOnce, atOnce, drain_append s c, decoded_append]

/-- Whatever the chunks are. Induction on them from the right. -/
theorem feed_of_lt {s : List Byte} {cs : List (List Byte)} (hc : cs.flatten = s)
    (h : s.length < 2 ^ 31) : feed cs = some (atOnce s) := by
  subst hc
  induction cs using List.reverseRecOn with
  | nil => rw [List.flatten_nil, atOnce_of_cut_none rfl]; rfl
  | append_singleton cs c ih =>
    rw [List.flatten_append, List.flatten_singleton] at h ⊢
    rw [List.length_append] at h
    rw [feed_concat, ih (by omega), Option.bind_some, recv_atOnce h]

/-! ## Streams that do not -/

theorem exists_overflow {s : List Byte} (h : 2 ^ 31 ≤ s.length) :
    ∃ cs, Cuts s cs ∧ feed cs = none := by
  have hfirst : (s.take 1).length = 1 := by rw [List.length_take]; omega
  have hsecond : ((s.drop 1).take (2 ^ 31 - 1)).length = 2 ^ 31 - 1 := by
    rw [List.length_take, List.length_drop]; omega
  obtain ⟨cs, hcs⟩ := exists_cuts ((s.drop 1).drop (2 ^ 31 - 1))
  refine ⟨[s.take 1] ++ [(s.drop 1).take (2 ^ 31 - 1)] ++ cs, ?_, feed_append_of_none ?_ cs⟩
  · have hcuts := cuts_append (cuts_append (cuts_singleton (s := s.take 1) (by omega))
      (cuts_singleton (s := (s.drop 1).take (2 ^ 31 - 1)) (by omega))) hcs
    rwa [List.append_assoc, List.take_append_drop, List.take_append_drop] at hcuts
  · have hone : feed [s.take 1] = some ⟨[], s.take 1⟩ := by
      rw [feed_of_lt List.flatten_singleton (by omega),
        atOnce_of_cut_none (cut_of_length_le_one (by omega))]
    rw [feed_concat, hone, Option.bind_some]
    exact recv_overflow (by rw [hsecond]; dsimp only; omega)

/-- **Framing and chunks.** For every byte stream, all ways of cutting it leave the same queue
and the same buffer if and only if it has fewer than 2^31 bytes. -/
theorem insensitive_iff_lt (s : List Byte) : Insensitive s ↔ s.length < 2 ^ 31 := by
  constructor
  · intro h
    by_contra hlong
    obtain ⟨cs, hcs, hnone⟩ := exists_overflow (Nat.le_of_not_lt hlong)
    obtain ⟨p, hp, -⟩ := h.1 cs cs hcs hcs
    rw [hnone] at hp
    cases hp
  · intro h
    refine ⟨fun cs cs' hcs hcs' => ⟨atOnce s, feed_of_lt hcs.1 h, feed_of_lt hcs'.1 h⟩, ?_⟩
    intro cs b c hcs
    have hparts : feed (cs ++ [b] ++ [c]) = some (atOnce s) :=
      feed_of_lt (by rw [← hcs.1]; simp) h
    rw [feed_concat, feed_concat, Option.bind_assoc] at hparts
    rw [hparts, ← feed_concat, feed_of_lt hcs.1 h]

/-! ## A frame in front of 2^31 - 2 bytes -/

section Frame
variable {z : List Byte}

/-- Three bytes first, the frame is taken off. -/
theorem feed_frame_first (hz : z.length = 2 ^ 31 - 2) (hcut : cut z = none) :
    feed [[0, pattern, eof], z] = some ⟨[[0]], z⟩ := by
  have hnext : frames.next [0, pattern, eof] = some ([0], []) := rfl
  have hframe : atOnce [0, pattern, eof] = ⟨[[0]], []⟩ := by
    rw [atOnce, drain_of_some hnext, drain_of_none (E := frames) (b := []) rfl]
    rfl
  have hfirst : feed [[0, pattern, eof]] = some ⟨[[0]], []⟩ := by
    rw [feed_of_lt List.flatten_singleton (by decide), hframe]
  have hlen : ([] : List Byte).length + z.length < 2 ^ 31 := by
    rw [hz]
    decide
  have hlast := feed_concat [[0, pattern, eof]] z
  rw [hfirst, Option.bind_some, recv_eq hlen, List.nil_append,
    drain_of_none (E := frames) hcut] at hlast
  exact hlast

/-- Two bytes first, the second chunk makes a buffer of 2^31 + 1 bytes, which is seen with a
negative size. -/
theorem feed_frame_cut (hz : z.length = 2 ^ 31 - 2) :
    feed [[0, pattern], [eof] ++ z] = some ⟨[], [0, pattern, eof] ++ z⟩ := by
  have hfirst : feed [[0, pattern]] = some ⟨[], [0, pattern]⟩ := by
    rw [feed_of_lt List.flatten_singleton (by decide), atOnce_of_cut_none rfl]
  have hlen : ([0, pattern] ++ ([eof] ++ z)).length = 2 ^ 31 + 1 := by
    simp only [List.length_append, List.length_cons, List.length_nil, hz]
    decide
  have hsize : toInt (2 ^ 31 + 1) = -2 ^ 31 + 1 := by
    unfold toInt
    decide
  have hlast := feed_concat [[0, pattern]] ([eof] ++ z)
  rw [hfirst, Option.bind_some, recv_of_cut_none] at hlast
  · exact hlast
  · rw [hlen, hsize]
    decide
  · refine cut_of_length_le_one ?_
    rw [hlen, seen, hsize, List.length_take]
    exact (Nat.min_le_left _ _).trans (by decide)

end Frame

def zeros : List Byte := List.replicate (2 ^ 31 - 2) 0

theorem zeros_length : zeros.length = 2 ^ 31 - 2 := by rw [zeros, List.length_replicate]

theorem cut_zeros : cut zeros = none := by
  cases hc : cut zeros with
  | none => rfl
  | some found =>
    obtain ⟨d, r⟩ := found
    have hmem : pattern ∈ zeros := by rw [cut_eq hc]; simp
    exact absurd (List.eq_of_mem_replicate hmem) (by decide)

theorem frame_depends_on_chunks :
    Cuts ([0, pattern, eof] ++ zeros) [[0, pattern, eof], zeros] ∧
    Cuts ([0, pattern, eof] ++ zeros) [[0, pattern], [eof] ++ zeros] ∧
    feed [[0, pattern, eof], zeros] = some ⟨[[0]], zeros⟩ ∧
    feed [[0, pattern], [eof] ++ zeros] = some ⟨[], [0, pattern, eof] ++ zeros⟩ ∧
    ¬ Insensitive ([0, pattern, eof] ++ zeros) := by
  have hz : ([eof] ++ zeros).length < 2 ^ 31 := by
    rw [List.length_append, zeros_length]; decide
  have h1 : Cuts ([0, pattern, eof] ++ zeros) [[0, pattern, eof], zeros] :=
    cuts_append (cuts_singleton (by decide)) (cuts_singleton (by rw [zeros_length]; decide))
  have h2 : Cuts ([0, pattern, eof] ++ zeros) [[0, pattern], [eof] ++ zeros] :=
    cuts_append (s := [0, pattern]) (cuts_singleton (by decide)) (cuts_singleton hz)
  have hfirst := feed_frame_first zeros_length cut_zeros
  have hcut := feed_frame_cut zeros_length
  refine ⟨h1, h2, hfirst, hcut, fun h => ?_⟩
  obtain ⟨p, hp, hp'⟩ := h.1 _ _ h1 h2
  rw [hfirst] at hp
  rw [hcut, ← hp] at hp'
  have hmsgs : ([] : List (List Byte)) = [[0]] :=
    congrArg PacketProcessor.msgs (Option.some.inj hp')
  cases hmsgs

end DrgbServer.Utils.Chunking
