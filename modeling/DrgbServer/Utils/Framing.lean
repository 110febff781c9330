import DrgbServer.Lib.Incremental
import DrgbServer.Lib.Transition
import DrgbServer.Utils.PacketProcessor
import Mathlib.Data.List.Induction

/-! # Framing survives fragmentation below 2^31 buffered bytes

`cut` is the scan of `split` without machine integers: the bytes before the
first terminator and the bytes after it. It is a stable extractor, so draining
a stream through it does not depend on how the stream is cut into chunks. While
the buffer stays below 2^31 bytes `flush` computes exactly this drain
(`flush_eq`); once the buffer has reached 2^31 bytes it never gets shorter than
that again (`flush_large`). -/
namespace DrgbServer.Utils.Framing
open DrgbServer.Lib.Incremental DrgbServer.Lib.Transition PacketProcessor

/-! ## The scan on unbounded integers -/

def cut : List Byte → Option (List Byte × List Byte)
  | a :: b :: rest =>
    if a = pattern ∧ b = pattern then (cut rest).map fun p => (a :: b :: p.1, p.2)
    else if a = pattern ∧ b = eof then some ([], rest)
    else (cut (b :: rest)).map fun p => (a :: p.1, p.2)
  | _ => none

theorem cut_eq {b d r : List Byte} (h : cut b = some (d, r)) : b = d ++ pattern :: eof :: r := by
  fun_induction cut b generalizing d with
  | case1 a b rest hp ih =>
    obtain ⟨⟨d', r'⟩, hc, he⟩ := Option.map_eq_some_iff.mp h
    cases he
    simp [← ih hc]
  | case2 a b rest hp he => cases h; simp [he.1, he.2]
  | case3 a b rest hp he ih =>
    obtain ⟨⟨d', r'⟩, hc, he⟩ := Option.map_eq_some_iff.mp h
    cases he
    simp [← ih hc]
  | case4 b hb => cases h

theorem cut_of_length_le_one {b : List Byte} (h : b.length ≤ 1) : cut b = none := by
  rcases b with _ | ⟨a, _ | ⟨a', rest⟩⟩
  · rfl
  · rfl
  · simp only [List.length_cons] at h; omega

theorem cut_append {b d r : List Byte} (c : List Byte) (h : cut b = some (d, r)) :
    cut (b ++ c) = some (d, r ++ c) := by
  fun_induction cut b generalizing d with
  | case1 a b rest hp ih =>
    obtain ⟨⟨d', r'⟩, hc, he⟩ := Option.map_eq_some_iff.mp h
    cases he
    simp [cut, hp, ih hc]
  | case2 a b rest hp he =>
    cases h
    rw [List.cons_append, List.cons_append, cut, if_neg hp, if_pos he]
  | case3 a b rest hp he ih =>
    obtain ⟨⟨d', r'⟩, hc, he'⟩ := Option.map_eq_some_iff.mp h
    cases he'
    have hc' : cut (b :: (rest ++ c)) = some (d', r' ++ c) := ih hc
    rw [List.cons_append, List.cons_append, cut, if_neg hp, if_neg he, hc']
    rfl
  | case4 b hb => cases h

/-- The frames of a stream, each as the bytes before its terminator. -/
def frames : Extractor Byte (List Byte) where
  next := cut
  shorter h := by rw [cut_eq h]; simp only [List.length_append, List.length_cons]; omega
  stable := cut_append

/-- The scan looks at the byte at its bound and the bytes before it only; the
bytes behind them do not matter. -/
theorem splitFrom_eq {bound : Int} {i : Nat} {b : List Byte} (c : List Byte)
    (h : bound + 1 = i + b.length) :
    splitFrom bound i (b ++ c) = (cut b).elim (-1) fun p => (i : Int) + p.1.length := by
  fun_induction cut b generalizing i with
  | case1 a b rest hp ih =>
    have hi : (i : Int) < bound := by simp only [List.length_cons] at h; omega
    rw [List.cons_append, List.cons_append, splitFrom, if_pos hi, if_pos hp,
      ih (by simp only [List.length_cons] at h; omega)]
    cases cut rest with
    | none => rfl
    | some p => simp only [Option.map_some, Option.elim_some, List.length_cons]; omega
  | case2 a b rest hp he =>
    have hi : (i : Int) < bound := by simp only [List.length_cons] at h; omega
    rw [List.cons_append, List.cons_append, splitFrom, if_pos hi, if_neg hp, if_pos he]
    simp
  | case3 a b rest hp he ih =>
    have hi : (i : Int) < bound := by simp only [List.length_cons] at h; omega
    rw [List.cons_append, List.cons_append, splitFrom, if_pos hi, if_neg hp, if_neg he,
      ← List.cons_append, ih (by simp only [List.length_cons] at h ⊢; omega)]
    cases cut (b :: rest) with
    | none => rfl
    | some p => simp only [Option.map_some, Option.elim_some, List.length_cons]; omega
  | case4 b hb =>
    have hlen : b.length ≤ 1 := by
      rcases b with _ | ⟨a, _ | ⟨a', rest⟩⟩
      · simp
      · simp
      · exact absurd rfl (hb a a' rest)
    rw [splitFrom.eq_def]
    split
    · rw [if_neg (by omega)]; rfl
    · rfl

/-- How much of a buffer of `n` bytes the scan of `split` looks at. -/
def seen (n : Nat) : Nat := (toInt n).toNat

theorem seen_of_lt {n : Nat} (h : n < 2 ^ 31) : seen n = n := by
  rw [seen, toInt_of_lt h, Int.toNat_natCast]

theorem seen_le (n : Nat) : seen n ≤ n := by
  have := toInt_le n
  unfold seen; omega

theorem seen_lt (n : Nat) : seen n < 2 ^ 31 := by
  have := toInt_lt n
  unfold seen; omega

theorem seen_sub {n c : Nat} (h : c ≤ seen n) : seen (n - c) = seen n - c := by
  rcases Nat.eq_zero_or_pos c with rfl | hc
  · rfl
  · unfold seen at *
    rw [toInt_sub (by omega)]
    omega

/-- After bytes that were looked at are gone the bound does not overflow. -/
theorem fits_sub {n c : Nat} (h : c ≤ seen n) (hc : 0 < c) : -2 ^ 31 < toInt (n - c) := by
  unfold seen at h
  rw [toInt_sub (by omega)]
  omega

theorem split_eq {b c : List Byte} (hfits : -2 ^ 31 < toInt (b ++ c).length)
    (h : seen (b ++ c).length = b.length) :
    split (b ++ c) = some ((cut b).elim (-1) fun p => (p.1.length : Int)) := by
  rw [split_of_fits hfits]
  by_cases hpos : 0 ≤ toInt (b ++ c).length
  · rw [splitFrom_eq c (by unfold seen at h; omega)]
    cases cut b <;> simp
  · -- a negative size: nothing is looked at
    have hb : b = [] := List.length_eq_zero_iff.mp (by unfold seen at h; omega)
    subst hb
    have hs : splitFrom (toInt ([] ++ c).length - 1) 0 ([] ++ c) < 0 := by
      by_contra hs
      have := splitFrom_bound _ _ _ (Int.not_lt.mp hs)
      omega
    have hm := splitFrom_ge (toInt ([] ++ c).length - 1) 0 ([] ++ c)
    rw [show cut [] = none from rfl, Option.elim_none, Option.some.injEq]
    omega

/-- `decapsulate` stays in step with the scan: on what stands before a
terminator it never steps past the end. -/
theorem decapsulate_cut {b d r : List Byte} (h : cut b = some (d, r)) :
    ∃ m, decapsulate d = some m := by
  fun_induction cut b generalizing d with
  | case1 a b rest hp ih =>
    obtain ⟨⟨d', r'⟩, hc, he⟩ := Option.map_eq_some_iff.mp h
    cases he
    obtain ⟨m, hm⟩ := ih hc
    refine ⟨b :: m, ?_⟩
    have hb : b ≠ eof := by rw [hp.2]; decide
    rw [hp.1, decapsulate_pattern hb, hm]
    rfl
  | case2 a b rest hp he => cases h; exact ⟨[], rfl⟩
  | case3 a b rest hp he ih =>
    obtain ⟨⟨d', r'⟩, hc, he'⟩ := Option.map_eq_some_iff.mp h
    cases he'
    obtain ⟨m, hm⟩ := ih hc
    by_cases ha : a = pattern
    · -- a lone `pattern`: the byte behind it belongs to the same frame
      have hb : b ≠ pattern := fun hb => hp ⟨ha, hb⟩
      have heq := cut_eq hc
      cases d' with
      | nil => rw [List.nil_append, List.cons.injEq] at heq; exact absurd heq.1 hb
      | cons x d'' =>
        rw [List.cons_append, List.cons.injEq] at heq
        obtain ⟨rfl, -⟩ := heq
        refine ⟨m, ?_⟩
        rw [ha, decapsulate_pattern (fun h => he ⟨ha, h⟩), ← decapsulate_of_ne hb]
        exact hm
    · exact ⟨a :: m, by rw [decapsulate_of_ne ha, hm]; rfl⟩
  | case4 b hb => cases h

/-! ## `flush` as a drain -/

/-- The messages `flush` queues for the frames it takes off the buffer. -/
def decoded (ds : List (List Byte)) : List (List Byte) := (ds.filter (· ≠ [])).filterMap decapsulate

theorem decoded_append (ds es : List (List Byte)) : decoded (ds ++ es) = decoded ds ++ decoded es := by
  simp [decoded]

/-- `flush` takes all frames off the part of the buffer that `split` looks at
and leaves the bytes behind it. -/
theorem flush_append (msgs : List (List Byte)) {b c : List Byte}
    (hfits : -2 ^ 31 < toInt (b ++ c).length) (h : seen (b ++ c).length = b.length) :
    flush ⟨msgs, b ++ c⟩ = some ⟨msgs ++ decoded (frames.drain b).1, (frames.drain b).2 ++ c⟩ := by
  induction b using drain_induction (E := frames) generalizing msgs with
  | none b hb =>
    have hs : split (b ++ c) = some (-1) := by
      rw [split_eq hfits h, show cut b = none from hb]; rfl
    rw [flush_of_neg hs (by decide), drain_of_none hb]
    simp [decoded]
  | some b d r hb ih =>
    have hc : cut b = some (d, r) := hb
    have hs : split (b ++ c) = some (d.length : Int) := by rw [split_eq hfits h, hc]; rfl
    have hbl : b.length = d.length + 2 + r.length := by
      rw [cut_eq hc]; simp only [List.length_append, List.length_cons]; omega
    have hrc : (b ++ c).length - (d.length + 2) = (r ++ c).length := by
      simp only [List.length_append]; omega
    have hlen : seen (r ++ c).length = r.length := by
      have hsub := seen_sub (n := (b ++ c).length) (c := d.length + 2) (by omega)
      rw [hrc] at hsub
      omega
    have hleft : -2 ^ 31 < toInt (r ++ c).length := by
      rw [← hrc]
      exact fits_sub (by omega) (by omega)
    have htake : (b ++ c).take d.length = d := by rw [cut_eq hc]; simp
    have hdrop : (b ++ c).drop (d.length + 2) = r ++ c := by
      rw [cut_eq hc, ← List.drop_drop]; simp
    obtain ⟨m, hm⟩ := decapsulate_cut hc
    rw [flush_of_nonneg hs (Int.natCast_nonneg _), drain_of_some hb]
    simp only [Int.toNat_natCast, htake, hdrop]
    cases d with
    | nil => simpa [decoded] using ih msgs hleft hlen
    | cons x d =>
      rw [if_pos (by simp), hm, Option.bind_some, ih _ hleft hlen]
      simp [decoded, hm]

theorem flush_eq (p : PacketProcessor) (h : p.recvbuffer.length < 2 ^ 31) :
    p.flush = some ⟨p.msgs ++ decoded (frames.drain p.recvbuffer).1,
      (frames.drain p.recvbuffer).2⟩ := by
  have hfits : -2 ^ 31 < toInt (p.recvbuffer ++ []).length := by
    rw [List.append_nil, toInt_of_lt h]
    omega
  simpa using flush_append p.msgs hfits (by simpa using seen_of_lt h)

theorem recv_eq {p : PacketProcessor} {chunk : List Byte}
    (h : p.recvbuffer.length + chunk.length < 2 ^ 31) :
    p.recv chunk = some ⟨p.msgs ++ decoded (frames.drain (p.recvbuffer ++ chunk)).1,
      (frames.drain (p.recvbuffer ++ chunk)).2⟩ :=
  flush_eq _ (by simpa using h)

/-- A buffer of 2^31 bytes or more never gets below that again: the wrapped
size the scan works with is the most one round can remove. -/
theorem flush_large {p q : PacketProcessor} (h : 2 ^ 31 ≤ p.recvbuffer.length)
    (hq : p.flush = some q) : 2 ^ 31 ≤ q.recvbuffer.length := by
  have hround : ∀ (b : List Byte) (ptr : Int), 2 ^ 31 ≤ b.length → split b = some ptr → 0 ≤ ptr →
      2 ^ 31 ≤ (b.drop (ptr.toNat + 2)).length := by
    intro b ptr hb hs hptr
    have hsp := split_bound hs hptr
    simp only [List.length_drop]
    unfold toInt at hsp
    rw [Int.bmod_def] at hsp
    split at hsp <;> omega
  obtain ⟨msgs, b⟩ := p
  induction hn : b.length using Nat.strongRecOn generalizing msgs b with
  | _ n ih =>
    cases hs : split b with
    | none =>
      rw [flush_of_split_none hs] at hq
      cases hq
    | some ptr =>
      by_cases hptr : 0 ≤ ptr
      · have hlen := split_toNat_bound hs hptr
        have hshort : (b.drop (ptr.toNat + 2)).length < n := by rw [List.length_drop]; omega
        rw [flush_of_nonneg hs hptr] at hq
        split at hq
        · obtain ⟨m, -, hq⟩ := Option.bind_eq_some_iff.mp hq
          exact ih _ hshort _ _ (hround b ptr h hs hptr) hq rfl
        · exact ih _ hshort _ _ (hround b ptr h hs hptr) hq rfl
      · rw [flush_of_neg hs (Int.not_le.mp hptr)] at hq
        cases hq
        exact h

/-! ## Streams of encapsulated messages -/

def wire (ms : List (List Byte)) : List Byte := ms.flatMap encapsulate

/-- The messages whose whole frame lies in the first `n` bytes of `wire ms`. -/
def whole : List (List Byte) → Nat → List (List Byte)
  | [], _ => []
  | m :: ms, n =>
    if (encapsulate m).length ≤ n then m :: whole ms (n - (encapsulate m).length) else []

/-- How many of the first `n` bytes of `wire ms` belong to the frame that is
not complete there. -/
def pending : List (List Byte) → Nat → Nat
  | [], n => n
  | m :: ms, n =>
    if (encapsulate m).length ≤ n then pending ms (n - (encapsulate m).length) else n

/-- The messages a reader has been given by then: empty ones are dropped. -/
def arrived (ms : List (List Byte)) (n : Nat) : List (List Byte) := (whole ms n).filter (· ≠ [])

theorem cut_escape (m s : List Byte) :
    cut (escape m ++ pattern :: eof :: s) = some (escape m, s) := by
  induction m with
  | nil => simp [escape, cut, show eof ≠ pattern by decide]
  | cons b m ih =>
    by_cases hb : b = pattern
    · simp [escape, hb, cut, ih]
    · simp only [escape, if_neg hb, List.cons_append]
      cases hm : escape m ++ pattern :: eof :: s with
      | nil => rw [hm] at ih; cases ih
      | cons c rest => rw [hm] at ih; simp [cut, hb, ih]

theorem cut_encapsulate (m s : List Byte) : cut (encapsulate m ++ s) = some (escape m, s) := by
  simpa [encapsulate] using cut_escape m s

/-- No proper part of a frame looks like a frame: more bytes would have to
leave the decision as it is. -/
theorem cut_take_encapsulate {m : List Byte} {n : Nat} (h : n < (encapsulate m).length) :
    cut ((encapsulate m).take n) = none := by
  cases hc : cut ((encapsulate m).take n) with
  | none => rfl
  | some p =>
    obtain ⟨d, r⟩ := p
    have hs := cut_append ((encapsulate m).drop n) hc
    rw [List.take_append_drop] at hs
    have he := cut_encapsulate m []
    rw [List.append_nil, hs, Option.some.injEq, Prod.mk.injEq] at he
    have hl := congrArg List.length he.2
    simp only [List.length_append, List.length_drop, List.length_nil] at hl
    omega

theorem decapsulate_escape (m : List Byte) : decapsulate (escape m) = some m := by
  induction m with
  | nil => rfl
  | cons b m ih =>
    by_cases hb : b = pattern
    · rw [escape, if_pos hb, hb, decapsulate_pattern (by decide), ih]; rfl
    · rw [escape, if_neg hb, decapsulate_of_ne hb, ih]; rfl

theorem escape_eq_nil {m : List Byte} : escape m = [] ↔ m = [] := by
  cases m with
  | nil => simp [escape]
  | cons b m => simp only [escape]; split <;> simp

theorem decoded_escape (ms : List (List Byte)) :
    decoded (ms.map escape) = ms.filter (· ≠ []) := by
  induction ms with
  | nil => rfl
  | cons m ms ih =>
    rw [List.map_cons, show escape m :: ms.map escape = [escape m] ++ ms.map escape from rfl,
      decoded_append, ih]
    by_cases hm : m = []
    · simp [decoded, hm, escape]
    · simp [decoded, hm, escape_eq_nil, decapsulate_escape]

/-- Draining the first `n` bytes of a wire stream: the complete frames, and as
many bytes as are pending. -/
theorem drain_wire (ms : List (List Byte)) (n : Nat) (hn : n ≤ (wire ms).length) :
    (frames.drain ((wire ms).take n)).1 = (whole ms n).map escape ∧
      (frames.drain ((wire ms).take n)).2.length = pending ms n := by
  induction ms generalizing n with
  | nil =>
    have hn : n = 0 := by simpa [wire] using hn
    subst hn
    simp [wire, drain_of_none (E := frames) (b := []) rfl, whole, pending]
  | cons m ms ih =>
    have hw : wire (m :: ms) = encapsulate m ++ wire ms := rfl
    rw [hw, List.length_append] at hn
    by_cases hl : (encapsulate m).length ≤ n
    · obtain ⟨h1, h2⟩ := ih (n - (encapsulate m).length) (by omega)
      have htake : (wire (m :: ms)).take n =
          encapsulate m ++ (wire ms).take (n - (encapsulate m).length) := by
        rw [hw, List.take_append, List.take_of_length_le hl]
      rw [htake, drain_of_some (E := frames) (cut_encapsulate m _)]
      simp [whole, pending, hl, h1, h2]
    · have htake : (wire (m :: ms)).take n = (encapsulate m).take n := by
        rw [hw, List.take_append_of_le_length (by omega)]
      rw [htake, drain_of_none (E := frames) (cut_take_encapsulate (by omega))]
      simp only [whole, pending, if_neg hl, List.map_nil, List.length_take, true_and]
      omega

theorem whole_length (ms : List (List Byte)) : whole ms (wire ms).length = ms := by
  induction ms with
  | nil => rfl
  | cons m ms ih =>
    have hw : (wire (m :: ms)).length = (encapsulate m).length + (wire ms).length := by
      simp [wire]
    rw [whole, hw, if_pos (by omega), Nat.add_sub_cancel_left, ih]

theorem pending_length (ms : List (List Byte)) : pending ms (wire ms).length = 0 := by
  induction ms with
  | nil => rfl
  | cons m ms ih =>
    have hw : (wire (m :: ms)).length = (encapsulate m).length + (wire ms).length := by
      simp [wire]
    rw [pending, hw, if_pos (by omega), Nat.add_sub_cancel_left, ih]

theorem whole_initial (ms : List (List Byte)) (n : Nat) : whole ms n <+: ms := by
  induction ms generalizing n with
  | nil => exact List.nil_prefix
  | cons m ms ih =>
    rw [whole]
    split
    · exact List.cons_prefix_cons.mpr ⟨rfl, ih _⟩
    · exact List.nil_prefix

theorem wire_append (ms ns : List (List Byte)) : wire (ms ++ ns) = wire ms ++ wire ns :=
  List.flatMap_append

/-! ## A reader and its chunks -/

/-- What the owner of a processor does with it. -/
inductive Op where
  | recv (chunk : List Byte)
  | getMsg

structure Reader where
  proc : PacketProcessor := {}
  /-- the messages `getMsg` has returned so far -/
  got : List (List Byte) := []

/-- A `getMsg` on an empty queue throws and changes nothing. -/
def step (s : Reader) : Op → Option Reader
  | .recv chunk => (s.proc.recv chunk).map fun p => { s with proc := p }
  | .getMsg => match s.proc.getMsg with
    | none => some s
    | some (m, p) => some ⟨p, s.got ++ [m]⟩

/-- The bytes fed so far. -/
def fed (ops : List Op) : List Byte := ops.flatMap fun
  | .recv chunk => chunk
  | .getMsg => []

/-- The results of `getMsg` until it throws. -/
def getAll (p : PacketProcessor) : List (List Byte) :=
  match _h : p.getMsg with
  | none => []
  | some (m, q) => m :: getAll q
termination_by p.msgs.length
decreasing_by
  unfold getMsg at _h
  split at _h
  · cases _h
  · next hm => cases _h; simp [hm]

theorem getAll_eq (p : PacketProcessor) : getAll p = p.msgs := by
  obtain ⟨msgs, b⟩ := p
  induction msgs with
  | nil => rw [getAll]; rfl
  | cons m rest ih => rw [getAll]; simp only [getMsg]; rw [ih]

/-- After every prefix of the calls the reader can obtain exactly the messages
whose frames have arrived, in order; at the end all of them, with nothing left
in the buffer. -/
def RoundTrip (ms : List (List Byte)) (ops : List Op) : Prop :=
  (∀ pre, pre <+: ops → ∃ s, run step {} pre = some s ∧
    s.got ++ getAll s.proc = arrived ms (fed pre).length) ∧
  ∃ s, run step {} ops = some s ∧ s.got ++ getAll s.proc = ms.filter (· ≠ []) ∧
    s.proc.recvbuffer = []

/-- At every `recv` the bytes of the incomplete frame together with the new
chunk number fewer than 2^31. -/
def Fits (ms : List (List Byte)) (ops : List Op) : Prop :=
  ∀ pre chunk, pre ++ [Op.recv chunk] <+: ops →
    pending ms (fed pre).length + chunk.length < 2 ^ 31

theorem Fits.mono {ms : List (List Byte)} {pre ops : List Op} (h : Fits ms ops)
    (hp : pre <+: ops) : Fits ms pre := fun p c hc => h p c (hc.trans hp)

theorem fed_append (xs ys : List Op) : fed (xs ++ ys) = fed xs ++ fed ys := by simp [fed]

/-- What was fed by a prefix of the calls is a prefix of the stream. -/
theorem fed_take {ms : List (List Byte)} {pre ops : List Op} (h : fed ops = wire ms)
    (hp : pre <+: ops) : fed pre = (wire ms).take (fed pre).length := by
  obtain ⟨t, rfl⟩ := hp
  rw [← h, fed_append, List.take_left]

/-- The reader's state after `bytes` have been fed: the drain of `bytes`. -/
def Drained (s : Reader) (bytes : List Byte) : Prop :=
  s.got ++ s.proc.msgs = decoded (frames.drain bytes).1 ∧
    s.proc.recvbuffer = (frames.drain bytes).2

theorem step_drained {s : Reader} {bytes : List Byte} (h : Drained s bytes) (op : Op)
    (hop : ∀ chunk, op = .recv chunk → s.proc.recvbuffer.length + chunk.length < 2 ^ 31) :
    ∃ t, step s op = some t ∧ Drained t (bytes ++ fed [op]) := by
  obtain ⟨hm, hb⟩ := h
  cases op with
  | recv chunk =>
    refine ⟨_, by rw [step, recv_eq (hop chunk rfl)]; rfl, ?_, ?_⟩
    · simp only [fed, List.flatMap_cons, List.flatMap_nil, List.append_nil]
      rw [drain_append bytes chunk, decoded_append, ← hm, hb, List.append_assoc]
    · simp only [fed, List.flatMap_cons, List.flatMap_nil, List.append_nil]
      rw [drain_append bytes chunk, hb]
  | getMsg =>
    simp only [fed, List.flatMap_cons, List.flatMap_nil, List.append_nil]
    cases hq : s.proc.msgs with
    | nil => exact ⟨s, by simp [step, getMsg, hq], hm, hb⟩
    | cons m rest =>
      refine ⟨⟨{ s.proc with msgs := rest }, s.got ++ [m]⟩, by simp [step, getMsg, hq], ?_, hb⟩
      rw [← hm, hq]; simp

/-- While the buffer fits, every prefix of the calls leaves the reader with the
drain of what was fed. Induction on the calls from the right. -/
theorem run_drained {ms : List (List Byte)} {ops : List Op} (h : fed ops = wire ms)
    (pre : List Op) (hp : pre <+: ops) (hf : Fits ms pre) :
    ∃ s, run step {} pre = some s ∧ Drained s (fed pre) := by
  induction pre using List.reverseRecOn with
  | nil => exact ⟨{}, rfl, by simp [Drained, fed, drain_of_none (E := frames) (b := []) rfl, decoded]⟩
  | append_singleton pre op ih =>
    have hpre : pre <+: ops := (List.prefix_append pre [op]).trans hp
    obtain ⟨s, hs, hd⟩ := ih hpre (hf.mono (List.prefix_append pre [op]))
    have hpend : s.proc.recvbuffer.length = pending ms (fed pre).length := by
      have htake := fed_take h hpre
      have hle : (fed pre).length ≤ (wire ms).length := by
        rw [htake, List.length_take]; exact Nat.min_le_right _ _
      rw [hd.2, htake, (drain_wire ms _ hle).2, ← htake]
    obtain ⟨t, ht, hd'⟩ := step_drained hd op (by
      rintro chunk rfl
      rw [hpend]
      exact hf pre chunk (List.prefix_refl _))
    refine ⟨t, ?_, by rw [fed_append]; exact hd'⟩
    rw [run_append, hs, Option.bind_some, run_cons_of_some ht, run_nil]

theorem Drained.got_getAll {ms : List (List Byte)} {s : Reader} {bytes : List Byte}
    (h : Drained s bytes) (hb : bytes = (wire ms).take bytes.length)
    (hle : bytes.length ≤ (wire ms).length) :
    s.got ++ getAll s.proc = arrived ms bytes.length ∧
      s.proc.recvbuffer.length = pending ms bytes.length := by
  obtain ⟨h1, h2⟩ := drain_wire ms bytes.length hle
  rw [← hb] at h1 h2
  exact ⟨by rw [getAll_eq, h.1, h1, decoded_escape]; rfl, by rw [h.2, h2]⟩

/-- Of messages that are not empty the reader has a beginning, and all once their bytes are fed. -/
theorem Drained.initial_of_wire {ms : List (List Byte)} {s : Reader} {bytes rest : List Byte}
    (h : Drained s bytes) (hw : wire ms = bytes ++ rest) (hne : ∀ m ∈ ms, m ≠ []) :
    s.got ++ s.proc.msgs <+: ms ∧ (rest = [] → s.got ++ s.proc.msgs = ms) := by
  have hle : bytes.length ≤ (wire ms).length := by rw [hw, List.length_append]; omega
  have htake : bytes = (wire ms).take bytes.length := by rw [hw, List.take_left]
  have hgot := (h.got_getAll htake hle).1
  rw [getAll_eq, arrived, List.filter_eq_self.mpr] at hgot
  · rw [hgot]
    refine ⟨whole_initial ms _, fun hr => ?_⟩
    rw [hr, List.append_nil] at hw
    rw [← hw, whole_length]
  · intro m hm
    exact decide_eq_true (hne m ((whole_initial ms _).subset hm))

theorem roundTrip_of_fits {ms : List (List Byte)} {ops : List Op} (h : fed ops = wire ms)
    (hf : Fits ms ops) : RoundTrip ms ops := by
  have hall : ∀ pre, pre <+: ops → ∃ s, run step {} pre = some s ∧
      s.got ++ getAll s.proc = arrived ms (fed pre).length ∧
      s.proc.recvbuffer.length = pending ms (fed pre).length := by
    intro pre hp
    obtain ⟨s, hs, hd⟩ := run_drained h pre hp (hf.mono hp)
    have htake := fed_take h hp
    refine ⟨s, hs, hd.got_getAll htake ?_⟩
    rw [htake, List.length_take]; exact Nat.min_le_right _ _
  refine ⟨fun pre hp => ?_, ?_⟩
  · obtain ⟨s, hs, hg, -⟩ := hall pre hp
    exact ⟨s, hs, hg⟩
  · obtain ⟨s, hs, hg, hb⟩ := hall ops (List.prefix_refl _)
    rw [h, pending_length] at hb
    rw [h, arrived, whole_length] at hg
    exact ⟨s, hs, hg, List.length_eq_zero_iff.mp hb⟩

/-- Once 2^31 bytes have piled up, no call shortens the buffer below that. -/
theorem step_large {s t : Reader} {op : Op} (hs : 2 ^ 31 ≤ s.proc.recvbuffer.length)
    (ht : step s op = some t) : 2 ^ 31 ≤ t.proc.recvbuffer.length := by
  cases op with
  | recv chunk =>
    obtain ⟨p, hp, rfl⟩ := Option.map_eq_some_iff.mp ht
    exact flush_large (by simp only [List.length_append]; omega) hp
  | getMsg =>
    simp only [step] at ht
    split at ht
    · cases ht; exact hs
    · next m p hm =>
      cases ht
      unfold getMsg at hm
      split at hm
      · cases hm
      · cases hm; exact hs

theorem fits_of_roundTrip {ms : List (List Byte)} {ops : List Op} (h : fed ops = wire ms)
    (hr : RoundTrip ms ops) : Fits ms ops := by
  obtain ⟨-, u, hu, -, hempty⟩ := hr
  -- the first `recv` that does not fit would leave a buffer that never empties
  have hall : ∀ pre, pre <+: ops → Fits ms pre := by
    intro pre
    induction pre using List.reverseRecOn with
    | nil => rintro - p c ⟨t, ht⟩; simp at ht
    | append_singleton pre op ih =>
      intro hp
      have hpre : pre <+: ops := (List.prefix_append pre [op]).trans hp
      have hf := ih hpre
      intro p c hc
      rcases (List.prefix_concat_iff.mp hc) with heq | hlt
      · obtain ⟨rfl, rfl⟩ : p = pre ∧ Op.recv c = op := by
          simpa using List.append_inj' heq rfl
        obtain ⟨s, hs, hd⟩ := run_drained h p hpre hf
        have htake := fed_take h hpre
        have hle : (fed p).length ≤ (wire ms).length := by
          rw [htake, List.length_take]; exact Nat.min_le_right _ _
        have hpend := (hd.got_getAll htake hle).2
        by_contra hbig
        obtain ⟨rest, rfl⟩ := hp
        rw [List.append_assoc, run_append, hs, Option.bind_some, List.singleton_append,
          run_cons] at hu
        obtain ⟨t, ht, hu⟩ := Option.bind_eq_some_iff.mp hu
        have hlarge : 2 ^ 31 ≤ t.proc.recvbuffer.length := by
          obtain ⟨q, hq, rfl⟩ := Option.map_eq_some_iff.mp ht
          exact flush_large (by simp only [List.length_append]; omega) hq
        have := run_invariant_all (I := fun s : Reader => 2 ^ 31 ≤ s.proc.recvbuffer.length)
          (fun s a t hs ht => step_large hs ht) hlarge hu
        rw [hempty] at this
        simp at this
      · exact hf p c hlt
  exact hall ops (List.prefix_refl _)

/-- **Framing round trip.** For every list of messages and every sequence of
calls that feeds exactly their frames, in any chunks and with `getMsg` calls at
any points, the reader obtains the messages as their frames complete, if and
only if the buffer stays below 2^31 bytes at every `recv`. -/
theorem roundTrip_iff_fits (ms : List (List Byte)) (ops : List Op) (h : fed ops = wire ms) :
    RoundTrip ms ops ↔ Fits ms ops :=
  ⟨fits_of_roundTrip h, roundTrip_of_fits h⟩

/-- A chunk border inside an escape pair, another inside the terminator. -/
theorem roundTrip_iff_fits_split_escape :
    fed [.recv [1, 0xee], .recv [0xee, 0xee], .recv [], .recv [0xff]] = wire [[1, 0xee]] ∧
    (RoundTrip [[1, 0xee]] [.recv [1, 0xee], .recv [0xee, 0xee], .recv [], .recv [0xff]] ↔
      Fits [[1, 0xee]] [.recv [1, 0xee], .recv [0xee, 0xee], .recv [], .recv [0xff]]) :=
  ⟨by decide, roundTrip_iff_fits _ _ (by decide)⟩

theorem not_roundTrip_of_large_frame {m a b : List Byte} (hab : a ++ b = encapsulate m)
    (hb : b ≠ []) (hm : 2 ^ 31 ≤ (encapsulate m).length) :
    ¬ RoundTrip [m] [.recv a, .recv b] := by
  intro hr
  have hf := fits_of_roundTrip (by simp [fed, wire, hab]) hr
  have hlt := hf [.recv a] b (List.prefix_refl _)
  have hlen : a.length + b.length = (encapsulate m).length := by rw [← hab, List.length_append]
  have hpos := List.length_pos_iff.mpr hb
  have hfed : (fed [.recv a]).length = a.length := by simp [fed]
  rw [hfed, pending, if_neg (by omega)] at hlt
  omega

theorem escape_of_not_mem {m : List Byte} (h : pattern ∉ m) : escape m = m := by
  induction m with
  | nil => rfl
  | cons b m ih =>
    simp only [List.mem_cons, not_or] at h
    rw [escape, if_neg (Ne.symm h.1), ih h.2]

theorem escape_append (m n : List Byte) : escape (m ++ n) = escape m ++ escape n := by
  induction m with
  | nil => rfl
  | cons b m ih => by_cases hb : b = pattern <;> simp [escape, hb, ih]

/-- A message whose frame is one byte longer than 2^31. -/
def twoGib : List Byte := List.replicate (2 ^ 31 - 1) 0

theorem encapsulate_twoGib_length : (encapsulate twoGib).length = 2 ^ 31 + 1 := by
  have hp : pattern ∉ twoGib := by
    intro h
    exact absurd (List.eq_of_mem_replicate h) (by decide)
  rw [encapsulate, escape_of_not_mem hp, List.length_append, twoGib, List.length_replicate]
  rfl

/-- Fed in two chunks, each of a length that `recv` can be given, the message
`twoGib` never comes out. -/
theorem roundTrip_fails_twoGib :
    ((encapsulate twoGib).take (2 ^ 30)).length < 2 ^ 31 ∧
    ((encapsulate twoGib).drop (2 ^ 30)).length < 2 ^ 31 ∧
    fed [.recv ((encapsulate twoGib).take (2 ^ 30)), .recv ((encapsulate twoGib).drop (2 ^ 30))] =
      wire [twoGib] ∧
    ¬ RoundTrip [twoGib] [.recv ((encapsulate twoGib).take (2 ^ 30)),
      .recv ((encapsulate twoGib).drop (2 ^ 30))] := by
  have hlen := encapsulate_twoGib_length
  have hdrop : ((encapsulate twoGib).drop (2 ^ 30)).length = 2 ^ 30 + 1 := by
    rw [List.length_drop]; omega
  refine ⟨?_, by rw [hdrop]; decide, ?_, ?_⟩
  · rw [List.length_take, hlen]; decide
  · simp only [fed, wire, List.flatMap_cons, List.flatMap_nil, List.append_nil,
      List.take_append_drop]
  · refine not_roundTrip_of_large_frame (List.take_append_drop _ _) ?_ (by rw [hlen]; decide)
    intro hnil
    rw [hnil] at hdrop
    cases hdrop

end DrgbServer.Utils.Framing
