import DrgbServer.Utils.MyTypes

/-! # `PacketProcessor`: messages in a byte stream

A message travels as its bytes with every `pattern` doubled, closed by
`pattern eof`. `recv` appends what arrived to `recvbuffer` and `flush` moves the
completed messages to `msgs`. `split` counts with `int`: the size of the buffer
is converted before the scan starts, so from 2^31 bytes on the scan sees a
wrapped length, and at exactly 2^31 its bound `size - 1` overflows. `decapsulate`
steps its iterator past a `pattern` without looking for the end. What is
undefined is `none` here. -/
namespace DrgbServer.Utils

structure PacketProcessor where
  msgs : List (List Byte) := []
  recvbuffer : List Byte := []
deriving DecidableEq

namespace PacketProcessor

def eof : Byte := 0xff
def pattern : Byte := 0xee

/-- The loop of `split` from index `i`, on the bytes from there on. -/
def splitFrom (bound : Int) (i : Nat) : List Byte → Int
  | a :: b :: rest =>
    if (i : Int) < bound then
      if a = pattern ∧ b = pattern then splitFrom bound (i + 2) rest
      else if a = pattern ∧ b = eof then i
      else splitFrom bound (i + 1) (b :: rest)
    else -1
  | _ => -1

/-- `none` where `size - 1` overflows. -/
def split (recvbuffer : List Byte) : Option Int :=
  (int (toInt recvbuffer.length - 1)).map fun bound => splitFrom bound 0 recvbuffer

def decapsulate : List Byte → Option (List Byte)
  | [] => some []
  | a :: rest =>
    if a = pattern then match rest with
      | [] => none
      | b :: rest => if b = eof then some [] else (decapsulate rest).map (b :: ·)
    else (decapsulate rest).map (a :: ·)

theorem decapsulate_of_ne {a : Byte} (ha : a ≠ pattern) (rest : List Byte) :
    decapsulate (a :: rest) = (decapsulate rest).map (a :: ·) := by
  rw [decapsulate.eq_def]; simp [ha]

theorem decapsulate_pattern {b : Byte} (hb : b ≠ eof) (rest : List Byte) :
    decapsulate (pattern :: b :: rest) = (decapsulate rest).map (b :: ·) := by
  rw [decapsulate.eq_def]; simp [hb]

def escape : List Byte → List Byte
  | [] => []
  | b :: rest => if b = pattern then pattern :: b :: escape rest else b :: escape rest

def encapsulate (data : List Byte) : List Byte := escape data ++ [pattern, eof]

/-! ## What a scan returns -/

/-- The terminator a scan returns lies inside the part it was told to look at. -/
theorem splitFrom_bound (bound : Int) (i : Nat) (b : List Byte) (h : 0 ≤ splitFrom bound i b) :
    (i : Int) ≤ splitFrom bound i b ∧ splitFrom bound i b + 1 ≤ bound := by
  fun_induction splitFrom bound i b with
  | case1 i a b rest hi hp ih => obtain ⟨h1, h2⟩ := ih h; exact ⟨by omega, h2⟩
  | case2 i a b rest hi hp he => exact ⟨Int.le_refl _, by omega⟩
  | case3 i a b rest hi hp he ih => obtain ⟨h1, h2⟩ := ih h; exact ⟨by omega, h2⟩
  | case4 i a b rest hi => omega
  | case5 i b hb => omega

theorem splitFrom_ge (bound : Int) (i : Nat) (b : List Byte) : -1 ≤ splitFrom bound i b := by
  fun_induction splitFrom bound i b with
  | case1 i a b rest hi hp ih => exact ih
  | case2 i a b rest hi hp he => omega
  | case3 i a b rest hi hp he ih => exact ih
  | case4 i a b rest hi => exact Int.le_refl _
  | case5 i b hb => exact Int.le_refl _

theorem split_of_fits {b : List Byte} (h : -2 ^ 31 < toInt b.length) :
    split b = some (splitFrom (toInt b.length - 1) 0 b) := by
  have hlt := toInt_lt b.length
  rw [split, int_of_fits (by omega)]
  rfl

theorem split_of_overflow {b : List Byte} (h : toInt b.length = -2 ^ 31) : split b = none := by
  rw [split, int, if_neg (by omega)]
  rfl

theorem split_cases {b : List Byte} {ptr : Int} (h : split b = some ptr) :
    -2 ^ 31 < toInt b.length ∧ splitFrom (toInt b.length - 1) 0 b = ptr := by
  obtain ⟨bound, hb, hptr⟩ := Option.map_eq_some_iff.mp h
  obtain ⟨hfits, hb⟩ := Option.ite_none_right_eq_some.mp hb
  cases hb
  exact ⟨by omega, hptr⟩

theorem split_bound {b : List Byte} {ptr : Int} (h : split b = some ptr) (hptr : 0 ≤ ptr) :
    ptr + 2 ≤ toInt b.length := by
  obtain ⟨-, rfl⟩ := split_cases h
  have := (splitFrom_bound _ _ _ hptr).2
  omega

theorem split_toNat_bound {b : List Byte} {ptr : Int} (h : split b = some ptr) (hptr : 0 ≤ ptr) :
    ptr.toNat + 2 ≤ b.length := by
  have h1 := split_bound h hptr
  have h2 := toInt_le b.length
  omega

/-! ## Receiving -/

/-- The loop of `flush`: one round takes the bytes before a terminator off the
buffer and queues them, unless there are none. -/
def flush (p : PacketProcessor) : Option PacketProcessor :=
  (split p.recvbuffer).pbind fun ptr _h =>
    if _hptr : 0 ≤ ptr then
      let data := p.recvbuffer.take ptr.toNat
      let recvbuffer := p.recvbuffer.drop (ptr.toNat + 2)
      if 0 < data.length then
        (decapsulate data).bind fun m =>
          flush ⟨p.msgs ++ [m], recvbuffer⟩
      else flush ⟨p.msgs, recvbuffer⟩
    else some p
termination_by p.recvbuffer.length
decreasing_by
  all_goals
    have := split_toNat_bound _h _hptr
    simp only [List.length_drop]
    omega

theorem flush_of_split_none {p : PacketProcessor} (h : split p.recvbuffer = none) :
    p.flush = none := by
  rw [flush, Option.pbind_none' h]

/-- The end of the loop. -/
theorem flush_of_neg {p : PacketProcessor} {ptr : Int} (h : split p.recvbuffer = some ptr)
    (hptr : ptr < 0) : p.flush = some p := by
  rw [flush, Option.pbind_some' h, dif_neg (Int.not_le.mpr hptr)]

/-- One round of the loop. -/
theorem flush_of_nonneg {p : PacketProcessor} {ptr : Int} (h : split p.recvbuffer = some ptr)
    (hptr : 0 ≤ ptr) : p.flush =
      if 0 < (p.recvbuffer.take ptr.toNat).length then
        (decapsulate (p.recvbuffer.take ptr.toNat)).bind fun m =>
          flush ⟨p.msgs ++ [m], p.recvbuffer.drop (ptr.toNat + 2)⟩
      else flush ⟨p.msgs, p.recvbuffer.drop (ptr.toNat + 2)⟩ := by
  rw [flush, Option.pbind_some' h, dif_pos hptr]

def recv (p : PacketProcessor) (data : List Byte) : Option PacketProcessor :=
  flush { p with recvbuffer := p.recvbuffer ++ data }

/-- `none` is the exception thrown on an empty queue. -/
def getMsg (p : PacketProcessor) : Option (List Byte × PacketProcessor) :=
  match p.msgs with
  | [] => none
  | m :: rest => some (m, { p with msgs := rest })

end PacketProcessor

end DrgbServer.Utils
