import DrgbServer.Lib.Counting
import DrgbServer.Lib.Simulation
import DrgbServer.Lib.Tape
import DrgbServer.Utils.ByteQueue

/-! # `ByteQueue` is a queue of typed fields

`push` and `pop` compute the place of every byte, the one in the data and the other in the
queue, and go through it backwards for the endianness that the system has not. A value is
what `memcpy` makes of its bytes. Any sequence of the methods that keeps the sizes below
2^31 gives the answers of a tape of bytes, and where each field is popped with its own type
those of a tape of fields. -/
namespace DrgbServer.Utils
open DrgbServer.Lib DrgbServer.Lib.Counting DrgbServer.Lib.Simulation

/-- A type that `memcpy` may copy. -/
class TriviallyCopyable (α : Type) where
  size : Nat
  size_pos : 1 ≤ size
  bytes : α → List Byte
  ofBytes : List Byte → α
  length_bytes : ∀ v, (bytes v).length = size
  ofBytes_bytes : ∀ v, ofBytes (bytes v) = v

attribute [simp] TriviallyCopyable.length_bytes TriviallyCopyable.ofBytes_bytes

/-- The value with the bytes of another in reverse. -/
def reversed {α : Type} [TriviallyCopyable α] (v : α) : α :=
  TriviallyCopyable.ofBytes (TriviallyCopyable.bytes v).reverse

namespace ByteQueue

/-! ## The source -/

/-- An element by an `int`; `none` outside of the array. -/
def elementAt (l : List Byte) (i : Int) : Option Byte := if 0 ≤ i then l[i.toNat]? else none

/-- `sizeof(T) / sizeof(byte)` as an `unsigned int`. -/
def lenOf (size : Nat) : Nat := size % 2 ^ 32

/-- `value(i)` of `push`. -/
def pushed (p : List Byte) (len : Nat) (endian : Bool) (i : Nat) : Option Byte :=
  if isLittleEndianSystem = endian then elementAt p (toInt i)
  else elementAt p ((len - toInt i - 1) % 2 ^ 32)

/-- `push<T>` of a value with these bytes. -/
def pushData (q : ByteQueue) (p : List Byte) (endian : Bool) : Option ByteQueue :=
  let len := lenOf p.length
  ((List.range len).mapM (pushed p len endian)).map fun values =>
    { q with bytes := q.bytes ++ values }

/-- `value(ptr, len, i)` of `pop`. -/
def popped (q : ByteQueue) (len : Nat) (endian : Bool) (i : Nat) : Option Byte :=
  if isLittleEndianSystem = endian then
    (int (toInt q.ptr + toInt i)).bind (elementAt q.bytes)
  else
    (int (toInt q.ptr + toInt len)).bind fun index =>
      (int (index - toInt i)).bind fun index => (int (index - 1)).bind (elementAt q.bytes)

/-- `pop<T>` up to its `memcpy`. -/
def popData (q : ByteQueue) (size : Nat) (peek endian : Bool) :
    Option (Except Exn (List Byte) × ByteQueue) :=
  let len := lenOf size
  if (q.ptr + len) % 2 ^ 64 > q.bytes.length then
    some (.error (.outOfRange "ByteQueue : Byte Out of Range"), q)
  else ((List.range len).mapM (q.popped len endian)).map fun b =>
    (.ok b, if peek then q else { q with ptr := (q.ptr + len) % 2 ^ 64 })

/-- `for(int i = 0;i<n;i++)` over a `size_t`; the last `i++` has to fit too. -/
def forInt {β : Type} (n : Nat) (body : Nat → Option β) : Option (List β) :=
  (List.range n).mapM fun i => (body i).bind fun b => (int (i + 1)).map fun _ => b

/-- The indices that `popstr(len, peek)` reads at. -/
def textPlaces (q : ByteQueue) (len : Nat) : Option (List Nat) :=
  forInt len fun i => some ((i + q.ptr) % 2 ^ 64)

/-- The bytes at indices; `none` outside of the vector. -/
def bytesAt (q : ByteQueue) (places : List Nat) : Option (List Byte) :=
  places.mapM (q.bytes[·]?)

/-- `popstr(len, peek)`. -/
def popTextLen (q : ByteQueue) (len : Nat) (peek : Bool) :
    Option (Except Exn (List Byte) × ByteQueue) :=
  if (q.ptr + len) % 2 ^ 64 > q.bytes.length then
    some (.error (.outOfRange "ByteQueue::pop(int) : Byte Out of Range"), q)
  else ((q.textPlaces len).bind q.bytesAt).map fun bstream =>
    (.ok bstream, if peek then q else { q with ptr := (q.ptr + len) % 2 ^ 64 })

/-- `popstr(peek)`. -/
def popText (q : ByteQueue) (peek : Bool) : Option (Except Exn (List Byte) × ByteQueue) :=
  q.popTextLen q.remain peek

def reset (q : ByteQueue) : ByteQueue := { q with ptr := 0 }

/-! ## The bytes that are read and written -/

/-- A loop that reads the bytes of a list in order. -/
theorem mapM_range {f : Nat → Option Byte} (l : List Byte) (h : ∀ i < l.length, f i = l[i]?) :
    (List.range l.length).mapM f = some l :=
  mapM_range_eq_some_iff.mpr ⟨rfl, h⟩

/-- An `int` counts below 2^31. -/
theorem forInt_of_lt {β : Type} {n : Nat} (hn : n < 2 ^ 31) (body : Nat → Option β) :
    forInt n body = (List.range n).mapM body := by
  refine mapM_range_congr fun i hi => ?_
  rw [int_of_fits (by omega)]
  cases body i with
  | none => rfl
  | some b => rfl

/-- And at 2^31 it has overflowed. -/
theorem forInt_of_le {β : Type} {n : Nat} (hn : 2 ^ 31 ≤ n) (body : Nat → Option β) :
    forInt n body = none := by
  refine mapM_range_eq_none (i := 2 ^ 31 - 1) (by omega) ?_
  rw [int_of_overflow (by omega)]
  cases body (2 ^ 31 - 1) with
  | none => rfl
  | some b => rfl

/-- The bytes at places one after the other. -/
theorem bytesAt_range (q : ByteQueue) {start len : Nat} (h : start + len ≤ q.bytes.length) :
    q.bytesAt ((List.range len).map (start + ·)) = some ((q.bytes.drop start).take len) := by
  rw [bytesAt, List.mapM_map]
  refine mapM_range_eq_some_iff.mpr ⟨by rw [List.length_take, List.length_drop]; omega, ?_⟩
  intro i hi
  rw [List.getElem?_take_of_lt hi, List.getElem?_drop]
  rfl

/-- The places of a text that is no longer than what is left. -/
theorem textPlaces_of_le {q : ByteQueue} {len : Nat} (hlen : len < 2 ^ 31)
    (hsum : q.ptr + len < 2 ^ 64) :
    q.textPlaces len = some ((List.range len).map (q.ptr + ·)) := by
  rw [textPlaces, forInt_of_lt hlen, mapM_range_some]
  refine congrArg some (List.map_congr_left fun i hi => ?_)
  have hi := List.mem_range.mp hi
  rw [Nat.mod_eq_of_lt (by omega), Nat.add_comm]

theorem elementAt_natCast (l : List Byte) (i : Nat) : elementAt l i = l[i]? :=
  if_pos (Int.natCast_nonneg i)

theorem length_oriented (endian : Bool) (data : List Byte) :
    (oriented endian data).length = data.length := by
  unfold oriented
  split
  · rfl
  · exact List.length_reverse

theorem oriented_oriented (endian : Bool) (data : List Byte) :
    oriented endian (oriented endian data) = data := by
  unfold oriented
  split
  · rfl
  · exact List.reverse_reverse data

/-- Through the other endianness a field is read backwards. -/
theorem oriented_not (endian : Bool) (data : List Byte) :
    oriented (!endian) (oriented endian data) = data.reverse := by
  unfold oriented
  cases endian <;> cases isLittleEndianSystem <;> simp

theorem lenOf_of_lt {size : Nat} (h : size < 2 ^ 31) : lenOf size = size :=
  Nat.mod_eq_of_lt (by omega)

/-- The bytes that the closure of `push` gives. -/
theorem pushed_eq {p : List Byte} (hp : p.length ≤ 2 ^ 31) (endian : Bool) {i : Nat}
    (hi : i < p.length) : pushed p p.length endian i = (oriented endian p)[i]? := by
  rw [pushed, oriented, toInt_of_lt (by omega)]
  split
  · exact elementAt_natCast p i
  · have hplace : ((p.length - i - 1 : Int) % 2 ^ 32) = ((p.length - 1 - i : Nat) : Int) := by
      rw [Int.emod_eq_of_lt (by omega) (by omega)]
      omega
    rw [hplace, elementAt_natCast, List.getElem?_reverse hi]

/-- `push` appends the bytes in the order of the endianness. -/
theorem pushData_eq (q : ByteQueue) {p : List Byte} (hp : p.length < 2 ^ 31) (endian : Bool) :
    q.pushData p endian = some { q with bytes := q.bytes ++ oriented endian p } := by
  have hread : (List.range p.length).mapM (pushed p p.length endian) =
      some (oriented endian p) := by
    rw [← length_oriented endian p]
    refine mapM_range _ fun i hi => ?_
    rw [length_oriented] at hi ⊢
    exact pushed_eq hp.le endian hi
  rw [pushData, lenOf_of_lt hp, hread]
  rfl

/-- `len` bytes of the vector from a place on. -/
def windowAt (q : ByteQueue) (place len : Nat) : List Byte := (q.bytes.drop place).take len

/-- Up to where an `int` reaches in the sums of `pop`. -/
def limit (endian : Bool) : Nat := if isLittleEndianSystem = endian then 2 ^ 31 else 2 ^ 31 - 1

theorem limit_le (endian : Bool) : limit endian ≤ 2 ^ 31 := by
  unfold limit
  split <;> omega

theorem le_limit (endian : Bool) : 2 ^ 31 - 1 ≤ limit endian := by
  unfold limit
  split <;> omega

theorem length_windowAt {q : ByteQueue} {place len : Nat} (h : place + len ≤ q.bytes.length) :
    (q.windowAt place len).length = len := by
  rw [windowAt, List.length_take, List.length_drop]
  omega

/-- What the loop of `pop` reads: the bytes from the place that the pointer is as an `int`. -/
theorem mapM_popped_of_start {q : ByteQueue} {start len : Nat} {endian : Bool}
    (hstart : toInt q.ptr = start) (hlimit : start + len ≤ limit endian)
    (hfit : start + len ≤ q.bytes.length) :
    (List.range len).mapM (q.popped len endian) =
      some (oriented endian (q.windowAt start len)) := by
  have hwindow := length_windowAt hfit
  have hle := limit_le endian
  have hread := mapM_range (f := q.popped len endian) (oriented endian (q.windowAt start len)) ?_
  · rwa [length_oriented, hwindow] at hread
  intro i hi
  rw [length_oriented, hwindow] at hi
  have hget : ∀ k < len, (q.windowAt start len)[k]? = q.bytes[start + k]? := by
    intro k hk
    rw [windowAt, List.getElem?_take_of_lt hk, List.getElem?_drop]
  rw [popped, oriented, hstart, toInt_of_lt (n := i) (by omega)]
  by_cases hsystem : isLittleEndianSystem = endian
  · rw [if_pos hsystem, if_pos hsystem, int_of_fits (by omega), Option.bind_some, hget i hi]
    exact elementAt_natCast q.bytes (start + i)
  · rw [limit, if_neg hsystem] at hlimit
    have hplace : ((start : Int) + len - i - 1) = ((start + (len - 1 - i) : Nat) : Int) := by omega
    rw [if_neg hsystem, if_neg hsystem, toInt_of_lt (n := len) (by omega),
      int_of_fits (by omega), Option.bind_some, int_of_fits (by omega), Option.bind_some, hplace,
      int_of_fits (by omega), Option.bind_some, elementAt_natCast,
      List.getElem?_reverse (by rw [hwindow]; exact hi), hwindow, hget _ (by omega)]

/-- Below 2^31 it is the window at the pointer. -/
theorem mapM_popped {q : ByteQueue} {len : Nat} (hlen : q.ptr + len ≤ q.bytes.length)
    (hsize : q.bytes.length < 2 ^ 31) (endian : Bool) :
    (List.range len).mapM (q.popped len endian) = some (oriented endian (q.window len)) := by
  have hlimit := le_limit endian
  exact mapM_popped_of_start (toInt_of_lt (by omega)) (by omega) hlen

/-! ## The tape of a queue -/

/-- What has been read and what has not. -/
def tape (q : ByteQueue) : Tape Byte := ⟨q.bytes.take q.ptr, q.bytes.drop q.ptr⟩

/-- The pointer stands in the queue, and an `int` counts its bytes. -/
structure InRange (q : ByteQueue) : Prop where
  ptr_le : q.ptr ≤ q.bytes.length
  small : q.bytes.length < 2 ^ 31

@[simp] theorem contents_tape (q : ByteQueue) : q.tape.contents = q.bytes :=
  List.take_append_drop ..

theorem InRange.remain_eq {q : ByteQueue} (hq : q.InRange) : q.remain = q.tape.unread.length := by
  obtain ⟨hptr, hsmall⟩ := hq
  rw [remain, size, tape, List.length_drop]
  omega

theorem InRange.length_unread {q : ByteQueue} (hq : q.InRange) :
    q.ptr + q.tape.unread.length = q.bytes.length := by
  have hptr := hq.ptr_le
  rw [tape, List.length_drop]
  omega

theorem InRange.append {q : ByteQueue} (hq : q.InRange) {data : List Byte}
    (hsize : q.bytes.length + data.length < 2 ^ 31) :
    InRange { q with bytes := q.bytes ++ data } where
  ptr_le := by
    rw [List.length_append]
    exact hq.ptr_le.trans (Nat.le_add_right ..)
  small := by rwa [List.length_append]

theorem InRange.tape_append {q : ByteQueue} (hq : q.InRange) (data : List Byte) :
    tape { q with bytes := q.bytes ++ data } = q.tape.put data := by
  rw [tape, List.take_append_of_le_length hq.ptr_le, List.drop_append_of_le_length hq.ptr_le]
  rfl

theorem InRange.move {q : ByteQueue} (hq : q.InRange) {len : Nat}
    (hlen : len ≤ q.tape.unread.length) : InRange { q with ptr := q.ptr + len } where
  ptr_le := by
    have hunread := hq.length_unread
    dsimp only
    omega
  small := hq.small

theorem tape_move (q : ByteQueue) (len : Nat) :
    tape { q with ptr := q.ptr + len } = q.tape.advance len := by
  rw [tape, tape, Tape.advance, List.take_add, List.drop_drop]

theorem tape_reset (q : ByteQueue) : q.reset.tape = q.tape.rewind := by
  rw [Tape.rewind, ← Tape.contents, contents_tape]
  rfl

/-- `pop` throws and leaves the queue alone where it has too few bytes, and else reads the next
ones in the order of the endianness. -/
theorem InRange.popData_eq {q : ByteQueue} (hq : q.InRange) {size : Nat} (hsize : size < 2 ^ 31)
    (peek endian : Bool) :
    q.popData size peek endian = some (
      if q.tape.unread.length < size then
        (.error (.outOfRange "ByteQueue : Byte Out of Range"), q)
      else (.ok (oriented endian (q.tape.unread.take size)),
        if peek then q else { q with ptr := q.ptr + size })) := by
  have hunread := hq.length_unread
  have hsmall := hq.small
  have hsum : (q.ptr + size) % 2 ^ 64 = q.ptr + size := Nat.mod_eq_of_lt (by omega)
  rw [popData, lenOf_of_lt hsize, hsum]
  by_cases hfew : q.tape.unread.length < size
  · rw [if_pos hfew, if_pos (by omega)]
  · rw [if_neg hfew, if_neg (by omega), mapM_popped (by omega) hsmall]
    rfl

/-- `popstr` reads all that is left. -/
theorem InRange.popText_eq {q : ByteQueue} (hq : q.InRange) (peek : Bool) :
    q.popText peek = some (.ok q.tape.unread,
      if peek then q else { q with ptr := q.ptr + q.tape.unread.length }) := by
  have hunread := hq.length_unread
  have hsmall := hq.small
  have hsum : (q.ptr + q.tape.unread.length) % 2 ^ 64 = q.ptr + q.tape.unread.length :=
    Nat.mod_eq_of_lt (by omega)
  have hread : (q.bytes.drop q.ptr).take q.tape.unread.length = q.tape.unread :=
    List.take_length
  rw [popText, hq.remain_eq, popTextLen, hsum, if_neg (by omega),
    textPlaces_of_le (by omega) (by omega), Option.bind_some, q.bytesAt_range (by omega), hread]
  rfl

/-! ## With the default endianness -/

/-- What a method that throws leaves is the queue it was called on. -/
def kept (q : ByteQueue) :
    Except Exn (List Byte × ByteQueue) → Except Exn (List Byte) × ByteQueue
  | .ok (b, q') => (.ok b, q')
  | .error e => (.error e, q)

theorem pushData_defaultEndian (q : ByteQueue) {data : List Byte} (h : data.length < 2 ^ 31) :
    q.pushData data q.defaultEndian = some (q.push data) :=
  pushData_eq q h q.defaultEndian

theorem InRange.popData_defaultEndian {q : ByteQueue} (hq : q.InRange) {size : Nat}
    (hsize : size < 2 ^ 31) (peek : Bool) :
    q.popData size peek q.defaultEndian = some (q.kept (q.pop size peek)) := by
  have hsmall := hq.small
  have hptr := hq.ptr_le
  have hsum : (q.ptr + size) % 2 ^ 64 = q.ptr + size := Nat.mod_eq_of_lt (by omega)
  rw [popData, pop, lenOf_of_lt hsize, hsum]
  by_cases hfew : q.ptr + size > q.bytes.length
  · rw [if_pos hfew, if_pos hfew]
    rfl
  · rw [if_neg hfew, if_neg hfew, mapM_popped (not_lt.mp hfew) hsmall]
    rfl

theorem InRange.popText_eq_popstr {q : ByteQueue} (hq : q.InRange) (peek : Bool) :
    q.popText peek = some (q.kept (q.popstr peek)) := by
  have hunread := hq.length_unread
  have hsmall := hq.small
  have hsum : (q.ptr + q.tape.unread.length) % 2 ^ 64 = q.ptr + q.tape.unread.length :=
    Nat.mod_eq_of_lt (by omega)
  have hfit : ¬ q.ptr + q.tape.unread.length > q.bytes.length := by omega
  have hwindow : q.window q.tape.unread.length = q.tape.unread := List.take_length
  rw [hq.popText_eq, popstr, popstrLen, hq.remain_eq, hsum, if_neg hfit, hwindow]
  rfl

end ByteQueue

/-! ## Calls on a queue -/

section
variable {Ty : Type} (Val : Ty → Type) [∀ t, TriviallyCopyable (Val t)]

/-- A field as it was handed over: a value with the endianness of its `push`, or one byte of a
text. -/
inductive Field
  | value (t : Ty) (v : Val t) (endian : Bool)
  | raw (b : Byte)

variable {Val}

/-- The bytes of a field in the queue. -/
def Field.stored : Field Val → List Byte
  | .value _ v endian => ByteQueue.oriented endian (TriviallyCopyable.bytes v)
  | .raw b => [b]

theorem stored_raws (datas : List Byte) :
    (datas.map (Field.raw : Byte → Field Val)).flatMap Field.stored = datas := by
  rw [List.flatMap_map]
  exact List.flatMap_singleton' datas

variable (Val)

/-- Another queue to add, and the fields that its bytes are. -/
structure Adder where
  queue : ByteQueue
  fields : List (Field Val)
  stored_fields : fields.flatMap Field.stored = queue.bytes

/-- Any queue is the single bytes in it. -/
def Adder.ofQueue (queue : ByteQueue) : Adder Val :=
  ⟨queue, queue.bytes.map .raw, stored_raws queue.bytes⟩

inductive Call
  | push (t : Ty) (v : Val t) (endian : Bool)
  | pushstr (data : List Byte)
  | pushraw (datas : List Byte)
  | append (adder : Adder Val)
  | pop (t : Ty) (peek endian : Bool)
  | popstr (peek : Bool)
  | reset

inductive Answer
  | done
  | value (t : Ty) (v : Val t)
  | text (s : List Byte)
  | thrown (e : Exn)
  | undefined

variable {Val}

/-- The number of bytes that a call hands over. -/
def Call.handed : Call Val → Nat
  | .push t _ _ => TriviallyCopyable.size (Val t)
  | .pushstr data => data.length
  | .pushraw datas => datas.length
  | .append adder => adder.queue.bytes.length
  | .pop .. | .popstr _ | .reset => 0

/-- What a method that reads answers. -/
def ByteQueue.answered (q : ByteQueue) (answer : List Byte → Answer Val) :
    Option (Except Exn (List Byte) × ByteQueue) → Answer Val × ByteQueue
  | some (.ok b, q') => (answer b, q')
  | some (.error e, q') => (.thrown e, q')
  | none => (.undefined, q)

/-- A call of the methods. -/
def ByteQueue.call (q : ByteQueue) : Call Val → Answer Val × ByteQueue
  | .push _ v endian =>
    ((q.pushData (TriviallyCopyable.bytes v) endian).map (Answer.done, ·)).getD (.undefined, q)
  | .pushstr data => (.done, q.pushraw data)
  | .pushraw datas => (.done, q.pushraw datas)
  | .append adder => (.done, q.add adder.queue)
  | .pop t peek endian =>
    q.answered (fun b => .value t (TriviallyCopyable.ofBytes b))
      (q.popData (TriviallyCopyable.size (Val t)) peek endian)
  | .popstr peek => q.answered .text (q.popText peek)
  | .reset => (.done, q.reset)

/-! ## Two tapes -/

/-- The calls on a tape of bytes. -/
def callBytes (t : Tape Byte) : Call Val → Answer Val × Tape Byte
  | .push _ v endian => (.done, t.put (ByteQueue.oriented endian (TriviallyCopyable.bytes v)))
  | .pushstr data => (.done, t.put data)
  | .pushraw datas => (.done, t.put datas)
  | .append adder => (.done, t.put adder.queue.bytes)
  | .pop ty peek endian =>
    if t.unread.length < TriviallyCopyable.size (Val ty) then
      (.thrown (.outOfRange "ByteQueue : Byte Out of Range"), t)
    else
      (.value ty (TriviallyCopyable.ofBytes
          (ByteQueue.oriented endian (t.unread.take (TriviallyCopyable.size (Val ty))))),
        if peek then t else t.advance (TriviallyCopyable.size (Val ty)))
  | .popstr peek => (.text t.unread, if peek then t else t.advance t.unread.length)
  | .reset => (.done, t.rewind)

/-- The calls on a tape of fields: a `pop` gives the next value as it was pushed, or with its bytes
reversed for the other endianness. -/
def callFields (t : Tape (Field Val)) : Call Val → Answer Val × Tape (Field Val)
  | .push ty v endian => (.done, t.put [.value ty v endian])
  | .pushstr data => (.done, t.put (data.map .raw))
  | .pushraw datas => (.done, t.put (datas.map .raw))
  | .append adder => (.done, t.put adder.fields)
  | .pop ty peek endian =>
    if (t.expand Field.stored).unread.length < TriviallyCopyable.size (Val ty) then
      (.thrown (.outOfRange "ByteQueue : Byte Out of Range"), t)
    else match t.unread with
      | .value ty' v pushed :: _ =>
        (.value ty' (if endian = pushed then v else reversed v),
          if peek then t else t.advance 1)
      | _ => (.undefined, t)
  | .popstr peek =>
    (.text (t.expand Field.stored).unread, if peek then t else t.advance t.unread.length)
  | .reset => (.done, t.rewind)

/-- A `pop` that has bytes enough is of the type that the next field was pushed with. -/
def Matches (t : Tape (Field Val)) : Call Val → Prop
  | .pop ty _ _ =>
    TriviallyCopyable.size (Val ty) ≤ (t.expand Field.stored).unread.length →
      ∃ v endian rest, t.unread = .value ty v endian :: rest
  | _ => True

/-! ## The steps -/

theorem call_pop_of_few {q : ByteQueue} (hq : q.InRange) {ty : Ty}
    (hsize : TriviallyCopyable.size (Val ty) < 2 ^ 31)
    (hfew : q.tape.unread.length < TriviallyCopyable.size (Val ty)) (peek endian : Bool) :
    q.call (.pop ty peek endian : Call Val) =
      (.thrown (.outOfRange "ByteQueue : Byte Out of Range"), q) := by
  rw [ByteQueue.call, hq.popData_eq hsize, if_pos hfew]
  rfl

theorem call_pop_of_enough {q : ByteQueue} (hq : q.InRange) {ty : Ty}
    (hsize : TriviallyCopyable.size (Val ty) < 2 ^ 31)
    (henough : ¬ q.tape.unread.length < TriviallyCopyable.size (Val ty)) (peek endian : Bool) :
    q.call (.pop ty peek endian : Call Val) =
      (.value ty (TriviallyCopyable.ofBytes
          (ByteQueue.oriented endian (q.tape.unread.take (TriviallyCopyable.size (Val ty))))),
        if peek then q else { q with ptr := q.ptr + TriviallyCopyable.size (Val ty) }) := by
  rw [ByteQueue.call, hq.popData_eq hsize, if_neg henough]
  rfl

theorem call_popstr {q : ByteQueue} (hq : q.InRange) (peek : Bool) :
    q.call (.popstr peek : Call Val) =
      (.text q.tape.unread,
        if peek then q else { q with ptr := q.ptr + q.tape.unread.length }) := by
  rw [ByteQueue.call, hq.popText_eq]
  rfl

/-- The queue does what its tape of bytes does. -/
theorem call_simulates (hsizes : ∀ ty, TriviallyCopyable.size (Val ty) < 2 ^ 31) {q : ByteQueue}
    (hq : q.InRange) {c : Call Val} (hc : q.bytes.length + c.handed < 2 ^ 31) :
    (q.call c).1 = (callBytes q.tape c).1 ∧ (q.call c).2.tape = (callBytes q.tape c).2 ∧
      (q.call c).2.InRange := by
  cases c with
  | push ty v endian =>
    have hlen : (TriviallyCopyable.bytes v).length < 2 ^ 31 := by
      rw [TriviallyCopyable.length_bytes]
      exact hsizes ty
    rw [ByteQueue.call, ByteQueue.pushData_eq q hlen]
    refine ⟨rfl, hq.tape_append _, hq.append ?_⟩
    rw [ByteQueue.length_oriented, TriviallyCopyable.length_bytes]
    exact hc
  | pushstr data => exact ⟨rfl, hq.tape_append data, hq.append hc⟩
  | pushraw datas => exact ⟨rfl, hq.tape_append datas, hq.append hc⟩
  | append adder => exact ⟨rfl, hq.tape_append adder.queue.bytes, hq.append hc⟩
  | pop ty peek endian =>
    rw [callBytes]
    by_cases hfew : q.tape.unread.length < TriviallyCopyable.size (Val ty)
    · rw [call_pop_of_few hq (hsizes ty) hfew, if_pos hfew]
      exact ⟨rfl, rfl, hq⟩
    · rw [call_pop_of_enough hq (hsizes ty) hfew, if_neg hfew]
      cases peek with
      | true => exact ⟨rfl, rfl, hq⟩
      | false => exact ⟨rfl, q.tape_move _, hq.move (not_lt.mp hfew)⟩
  | popstr peek =>
    rw [call_popstr hq, callBytes]
    cases peek with
    | true => exact ⟨rfl, rfl, hq⟩
    | false => exact ⟨rfl, q.tape_move _, hq.move le_rfl⟩
  | reset => exact ⟨rfl, q.tape_reset, Nat.zero_le _, hq.small⟩

/-- A value read back. -/
theorem ofBytes_oriented {α : Type} [TriviallyCopyable α] (v : α) (pushed endian : Bool) :
    TriviallyCopyable.ofBytes
        (ByteQueue.oriented endian (ByteQueue.oriented pushed (TriviallyCopyable.bytes v))) =
      if endian = pushed then v else reversed v := by
  split_ifs with h
  · rw [h, ByteQueue.oriented_oriented, TriviallyCopyable.ofBytes_bytes]
  · rw [Bool.eq_not.mpr h, ByteQueue.oriented_not, reversed]

/-- The tape of bytes does what the tape of fields does. -/
theorem callBytes_simulates (t : Tape (Field Val)) {c : Call Val} (hc : Matches t c) :
    (callBytes (t.expand Field.stored) c).1 = (callFields t c).1 ∧
      (callBytes (t.expand Field.stored) c).2 = (callFields t c).2.expand Field.stored := by
  cases c with
  | push ty v endian => exact ⟨rfl, by simp [callBytes, callFields, Field.stored]⟩
  | pushstr data => exact ⟨rfl, by simp [callBytes, callFields, stored_raws]⟩
  | pushraw datas => exact ⟨rfl, by simp [callBytes, callFields, stored_raws]⟩
  | append adder => exact ⟨rfl, by simp [callBytes, callFields, adder.stored_fields]⟩
  | pop ty peek endian =>
    rw [callBytes, callFields]
    by_cases hfew : (t.expand Field.stored).unread.length < TriviallyCopyable.size (Val ty)
    · rw [if_pos hfew, if_pos hfew]
      exact ⟨rfl, rfl⟩
    obtain ⟨v, pushed, rest, hnext⟩ := hc (not_lt.mp hfew)
    have hlen : (Field.value ty v pushed).stored.length = TriviallyCopyable.size (Val ty) := by
      rw [Field.stored, ByteQueue.length_oriented, TriviallyCopyable.length_bytes]
    have htake : (t.expand Field.stored).unread.take (TriviallyCopyable.size (Val ty)) =
        ByteQueue.oriented pushed (TriviallyCopyable.bytes v) := by
      rw [Tape.expand, hnext, List.flatMap_cons, List.take_left' hlen]
      rfl
    rw [if_neg hfew, if_neg hfew, htake, ofBytes_oriented, hnext]
    refine ⟨rfl, ?_⟩
    cases peek with
    | true => rfl
    | false =>
      have hadvance := Tape.expand_advance_one Field.stored hnext
      rw [hlen] at hadvance
      exact hadvance.symm
  | popstr peek =>
    refine ⟨rfl, ?_⟩
    cases peek with
    | true => rfl
    | false => exact (t.expand_advance_all Field.stored).symm
  | reset => exact ⟨rfl, (t.expand_rewind Field.stored).symm⟩

/-- The bytes on the tape are those that were on it and those handed over. -/
theorem length_contents_callBytes (t : Tape Byte) (c : Call Val) :
    (callBytes t c).2.contents.length = t.contents.length + c.handed := by
  cases c with
  | push ty v endian =>
    simp [callBytes, Call.handed, ByteQueue.length_oriented]
  | pushstr data => simp [callBytes, Call.handed]
  | pushraw datas => simp [callBytes, Call.handed]
  | append adder => simp [callBytes, Call.handed]
  | pop ty peek endian =>
    rw [callBytes]
    split_ifs <;> simp [Call.handed]
  | popstr peek => cases peek <;> simp [callBytes, Call.handed]
  | reset => simp [callBytes, Call.handed]

/-- Where the total size is small it is so at every call. -/
theorem admits_of_total {t : Tape Byte} {calls : List (Call Val)}
    (htotal : t.contents.length + (calls.map Call.handed).sum < 2 ^ 31) :
    Admits callBytes (fun t c => t.contents.length + c.handed < 2 ^ 31) t calls := by
  induction calls generalizing t with
  | nil => trivial
  | cons c rest ih =>
    rw [List.map_cons, List.sum_cons] at htotal
    refine ⟨by omega, ih ?_⟩
    rw [length_contents_callBytes]
    omega

/-- Any calls on a queue are answered as the tape of its bytes answers them. -/
theorem observe_call (hsizes : ∀ ty, TriviallyCopyable.size (Val ty) < 2 ^ 31) {q : ByteQueue}
    (hq : q.InRange) {calls : List (Call Val)}
    (htotal : q.bytes.length + (calls.map Call.handed).sum < 2 ^ 31) :
    (observe ByteQueue.call q calls).1 = (observe callBytes q.tape calls).1 ∧
      (observe ByteQueue.call q calls).2.tape = (observe callBytes q.tape calls).2 ∧
      (observe ByteQueue.call q calls).2.InRange := by
  refine observe_eq (R := fun (q : ByteQueue) t => q.tape = t ∧ q.InRange) ?_ ⟨rfl, hq⟩
    (admits_of_total (by rwa [ByteQueue.contents_tape]))
  intro q t c ⟨htape, hrange⟩ hc
  subst t
  rw [ByteQueue.contents_tape] at hc
  exact call_simulates hsizes hrange hc

/-- And the tape of bytes as any tape of fields that it stores. -/
theorem observe_callBytes {t : Tape (Field Val)} {calls : List (Call Val)}
    (hcalls : Admits callFields Matches t calls) :
    (observe callBytes (t.expand Field.stored) calls).1 = (observe callFields t calls).1 ∧
      (observe callBytes (t.expand Field.stored) calls).2 =
        (observe callFields t calls).2.expand Field.stored := by
  refine observe_eq (R := fun s t => s = t.expand Field.stored) ?_ rfl hcalls
  intro s t c hs hc
  subst s
  exact callBytes_simulates t hc

/-- A `pop` throws where fewer bytes are left than the type has, and nowhere else. -/
theorem call_pop_throws_iff {q : ByteQueue} (hq : q.InRange) {ty : Ty}
    (hsize : TriviallyCopyable.size (Val ty) < 2 ^ 31) (peek endian : Bool) :
    (∃ e, (q.call (.pop ty peek endian : Call Val)).1 = .thrown e) ↔
      q.tape.unread.length < TriviallyCopyable.size (Val ty) := by
  constructor
  · rintro ⟨e, he⟩
    by_contra henough
    rw [call_pop_of_enough hq hsize henough] at he
    cases he
  · intro hfew
    exact ⟨_, by rw [call_pop_of_few hq hsize hfew]⟩

/-- Peeking leaves the queue as it is. -/
theorem call_peek {q : ByteQueue} (hq : q.InRange) {ty : Ty}
    (hsize : TriviallyCopyable.size (Val ty) < 2 ^ 31) (endian : Bool) :
    (q.call (.pop ty true endian : Call Val)).2 = q := by
  by_cases hfew : q.tape.unread.length < TriviallyCopyable.size (Val ty)
  · rw [call_pop_of_few hq hsize hfew]
  · rw [call_pop_of_enough hq hsize hfew, if_pos rfl]

/-- **A queue of typed fields.** Calls that keep the sizes below 2^31 are answered as a tape of the
unread bytes answers them, and as a tape of fields does where each is popped with its own type. At
any time a `pop` throws where too few bytes are unread and leaves the queue then, as peeking
does. -/
theorem queue_of_fields (hsizes : ∀ ty, TriviallyCopyable.size (Val ty) < 2 ^ 31) {q : ByteQueue}
    (hptr : q.ptr ≤ q.bytes.length) (calls : List (Call Val))
    (htotal : q.bytes.length + (calls.map Call.handed).sum < 2 ^ 31) :
    let reached := (observe ByteQueue.call q calls).2
    ((observe ByteQueue.call q calls).1 = (observe callBytes q.tape calls).1 ∧
      reached.tape = (observe callBytes q.tape calls).2) ∧
    (∀ t : Tape (Field Val), t.expand Field.stored = q.tape → Admits callFields Matches t calls →
      (observe ByteQueue.call q calls).1 = (observe callFields t calls).1 ∧
        reached.tape = (observe callFields t calls).2.expand Field.stored) ∧
    (∀ ty peek endian,
      ((∃ e, (reached.call (.pop ty peek endian : Call Val)).1 = .thrown e) ↔
        reached.tape.unread.length < TriviallyCopyable.size (Val ty)) ∧
      (reached.tape.unread.length < TriviallyCopyable.size (Val ty) →
        (reached.call (.pop ty peek endian : Call Val)).2 = reached)) ∧
    (∀ ty endian, (reached.call (.pop ty true endian : Call Val)).2 = reached) ∧
    (reached.call (.popstr true : Call Val)).2 = reached := by
  intro reached
  have hq : q.InRange := ⟨hptr, by omega⟩
  obtain ⟨hanswers, htape, hrange⟩ := observe_call hsizes hq htotal
  refine ⟨⟨hanswers, htape⟩, ?_, ?_, ?_, ?_⟩
  · intro t ht hmatches
    obtain ⟨hfields, hend⟩ := observe_callBytes hmatches
    rw [ht] at hfields hend
    exact ⟨hanswers.trans hfields, htape.trans hend⟩
  · intro ty peek endian
    refine ⟨call_pop_throws_iff hrange (hsizes ty) peek endian, fun hfew => ?_⟩
    rw [call_pop_of_few hrange (hsizes ty) hfew]
  · intro ty endian
    exact call_peek hrange (hsizes ty) endian
  · rw [call_popstr hrange, if_pos rfl]

end

/-! ## Two widths -/

instance : TriviallyCopyable UInt8 where
  size := 1
  size_pos := le_rfl
  bytes v := [v]
  ofBytes l := l.headD 0
  length_bytes _ := rfl
  ofBytes_bytes _ := rfl

instance : TriviallyCopyable UInt64 where
  size := 8
  size_pos := by decide
  bytes v := image 8 v.toNat
  ofBytes l := .ofNat (ofImage l)
  length_bytes v := length_image 8 v.toNat
  ofBytes_bytes v := by
    rw [ofImage_image v.toNat_lt, UInt64.ofNat_toNat]

inductive Width
  | one
  | eight

def Width.Val : Width → Type
  | .one => UInt8
  | .eight => UInt64

instance : ∀ w, TriviallyCopyable (Width.Val w)
  | .one => inferInstanceAs (TriviallyCopyable UInt8)
  | .eight => inferInstanceAs (TriviallyCopyable UInt64)

/-- A value and a byte with a text behind them, read back; the first also with the other
endianness, and the last read asks for more than there is. -/
def exchange : List (Call Width.Val) :=
  [.push .eight (0x0123456789abcdef : UInt64) true, .push .one (7 : UInt8) false,
    .pushstr [104, 105], .pop .eight true true, .pop .eight false false,
    .append (.ofQueue _ ⟨true, [33], 1⟩), .pop .one false false, .pop .eight false true,
    .popstr false]

theorem queue_of_fields_exchange :
    (observe ByteQueue.call ByteQueue.empty exchange).1 =
      [.done, .done, .done, .value .eight (0x0123456789abcdef : UInt64),
        .value .eight (0xefcdab8967452301 : UInt64), .done, .value .one (7 : UInt8),
        .thrown (.outOfRange "ByteQueue : Byte Out of Range"), .text [104, 105, 33]] := by
  have hsizes : ∀ w, TriviallyCopyable.size (Width.Val w) < 2 ^ 31 := by
    intro w
    cases w with
    | one => exact (by decide : 1 < 2 ^ 31)
    | eight => exact (by decide : 8 < 2 ^ 31)
  have htotal : ByteQueue.empty.bytes.length + (exchange.map Call.handed).sum < 2 ^ 31 :=
    (by decide : 12 < 2 ^ 31)
  have hqueue := (queue_of_fields hsizes (q := ByteQueue.empty) le_rfl exchange htotal).2.1
  have hmatches : Admits callFields Matches ⟨[], []⟩ exchange :=
    ⟨trivial, trivial, trivial, fun _ => ⟨_, _, _, rfl⟩, fun _ => ⟨_, _, _, rfl⟩, trivial,
      fun _ => ⟨_, _, _, rfl⟩, fun h => absurd h (by decide : ¬ 8 ≤ 3), trivial, trivial⟩
  exact (hqueue ⟨[], []⟩ rfl hmatches).1.trans rfl

end DrgbServer.Utils
