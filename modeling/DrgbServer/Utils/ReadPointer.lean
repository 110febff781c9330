import DrgbServer.Lib.Transition
import DrgbServer.Utils.Prepend

/-! # The read pointer stands in the queue

The objects of the class, and every method that changes one of them, in any order. A call
that is undefined, or that needs a vector of 2^63 bytes, ends the run; one that throws
leaves the object as it was. -/
namespace DrgbServer.Utils
open DrgbServer.Lib.Counting DrgbServer.Lib.Transition

namespace ByteQueue

/-! ## The source -/

/-- The constructor from a buffer. -/
def ofBuffer (buf : List Byte) : Option ByteQueue :=
  (forInt buf.length (buf[·]?)).map fun bytes => ⟨isLittleEndianSystem, bytes, 0⟩

def next (q : ByteQueue) (len : Int32) : Except Exn ByteQueue :=
  -- the `int` counts as an `unsigned long`
  let ptr := (q.ptr + (len.toInt % 2 ^ 64).toNat) % 2 ^ 64
  if ptr > q.bytes.length then
    .error (.outOfRange "ByteQueue::Next(int) : Byte Out of Range")
  else .ok { q with ptr }

def prev (q : ByteQueue) (len : Int32) : ByteQueue :=
  if len.toInt < 0 then { q with ptr := 0 }
  else { q with ptr := max ((q.ptr - len.toInt) % 2 ^ 64).toNat 0 }

def clear (q : ByteQueue) : ByteQueue := { q.reset with bytes := [] }

def setEndian (q : ByteQueue) (endian : Bool) : ByteQueue := { q with defaultEndian := endian }

/-- `split`; the range of the vector has to be one. -/
def split (q : ByteQueue) (start stop : Int64) : Option ByteQueue :=
  let first : Int := if start.toInt < 0 ∨ start.toInt ≥ q.bytes.length then
    (q.ptr : Int).bmod (2 ^ 64) else start.toInt
  let last : Int := if stop.toInt < 0 ∨ stop.toInt ≥ q.bytes.length then
    q.bytes.length else stop.toInt
  if 0 ≤ first ∧ first ≤ last then
    some ⟨q.defaultEndian, (q.bytes.take last.toNat).drop first.toNat, 0⟩
  else none

/-- What a vector of bytes may hold. -/
def held (q : ByteQueue) : Option ByteQueue :=
  if q.bytes.length < 2 ^ 63 then some q else none

end ByteQueue

namespace ReadPointer

/-! ## Calls in any order -/

/-- The objects by a number. -/
abbrev Objects := Nat → ByteQueue

inductive Op
  | create (i : Nat)
  | createVector (i : Nat) (bstream : List Byte)
  | createEndian (i : Nat) (endian : Bool)
  | createBuffer (i : Nat) (buf : List Byte)
  /-- the copy constructor and the assignment -/
  | copy (i j : Nat)
  /-- the move constructor and the move assignment -/
  | move (i j : Nat)
  /-- a new object from `operator+` -/
  | add (i j k : Nat)
  /-- `operator+=` -/
  | append (i j : Nat)
  | push (i : Nat) (data : List Byte) (endian : Bool)
  | pushHead (i : Nat) (data : List Byte) (endian : Bool)
  /-- `pushraw` and `push<std::string>` -/
  | pushraw (i : Nat) (datas : List Byte)
  | pop (i size : Nat) (peek endian : Bool)
  | pops (i cell : Nat) (size : UInt64) (peek endian : Bool)
  | popsAll (i cell : Nat) (peek : Bool)
  | popstr (i : Nat) (peek : Bool)
  | popstrLen (i : Nat) (len : UInt64) (peek : Bool)
  | setEndian (i : Nat) (endian : Bool)
  | next (i : Nat) (len : Int32)
  | prev (i : Nat) (len : Int32)
  | reset (i : Nat)
  | clear (i : Nat)
  | split (i j : Nat) (start stop : Int64)

/-- The object that a call changes, and what it becomes. -/
def changed (s : Objects) : Op → Option (Nat × ByteQueue)
  | .create i => some (i, .empty)
  | .createVector i bstream => (ByteQueue.ofVector bstream).held.map (i, ·)
  | .createEndian i endian => some (i, ⟨endian, [], 0⟩)
  | .createBuffer i buf => (ByteQueue.ofBuffer buf).map (i, ·)
  | .copy i j => some (i, s j)
  | .move i j => some (i, s j)
  | .add i j k => ((s j).add (s k)).held.map (i, ·)
  -- a vector does not insert a range of its own
  | .append i j => if i = j then none else ((s i).add (s j)).held.map (i, ·)
  | .push i data endian => (((s i).pushData data endian).bind ByteQueue.held).map (i, ·)
  | .pushHead i data endian => ((s i).pushHead data endian).bind fun
    | .error _ => none
    | .ok q => some (i, q)
  | .pushraw i datas => ((s i).pushraw datas).held.map (i, ·)
  | .pop i size peek endian => ((s i).popData size peek endian).map fun r => (i, r.2)
  | .pops i cell size peek endian =>
    ((s i).pops cell size.toNat peek endian).map fun r => (i, r.2)
  | .popsAll i cell peek => ((s i).popsAll cell peek).map fun r => (i, r.2)
  | .popstr i peek => ((s i).popText peek).map fun r => (i, r.2)
  | .popstrLen i len peek => ((s i).popTextLen len.toNat peek).map fun r => (i, r.2)
  | .setEndian i endian => some (i, (s i).setEndian endian)
  | .next i len => some (i, match (s i).next len with
    | .error _ => s i
    | .ok q => q)
  | .prev i len => some (i, (s i).prev len)
  | .reset i => some (i, (s i).reset)
  | .clear i => some (i, (s i).clear)
  | .split i j start stop => ((s j).split start stop).map (i, ·)

/-- What becomes of the object that a move takes from. -/
def moved (s : Objects) : Op → Objects
  | .move _ j => Function.update s j (s j).clear
  | _ => s

/-- A call. -/
def step (s : Objects) (op : Op) : Option Objects :=
  (changed s op).map fun (i, q) => moved (Function.update s i q) op

end ReadPointer

namespace ByteQueue

/-! ## The pointer -/

/-- The pointer stands in the queue, `Remain` is what is behind it, and where the check of `pop`
passes there are bytes enough. -/
structure InPlace (q : ByteQueue) : Prop where
  ptr_le : q.ptr ≤ q.bytes.length
  remain_eq : q.remain + q.ptr = q.bytes.length
  check : ∀ size, (q.ptr + lenOf size) % 2 ^ 64 ≤ q.bytes.length →
    q.ptr + lenOf size ≤ q.bytes.length

theorem Valid.inPlace {q : ByteQueue} (hq : q.Valid) : InPlace q := by
  obtain ⟨hptr, hlen⟩ := hq
  refine ⟨hptr, ?_, fun size hcheck => ?_⟩
  · rw [Valid.remain_eq ⟨hptr, hlen⟩]
    omega
  · have hsize : lenOf size < 2 ^ 32 := Nat.mod_lt size (by decide)
    rwa [Nat.mod_eq_of_lt (by omega)] at hcheck

theorem held_eq_some {q q' : ByteQueue} (h : held q = some q') :
    q' = q ∧ q.bytes.length < 2 ^ 63 := by
  rw [held] at h
  split_ifs at h with hlen
  exact ⟨(Option.some.inj h).symm, hlen⟩

/-- Bytes put anywhere but before the pointer's own. -/
theorem Valid.of_held {q q' : ByteQueue} (hq : q.ptr ≤ q.bytes.length) (h : held q = some q') :
    q'.Valid := by
  obtain ⟨rfl, hlen⟩ := held_eq_some h
  exact ⟨hq, hlen⟩

theorem ptr_le_of_append {q : ByteQueue} (hq : q.Valid) (datas : List Byte) :
    q.ptr ≤ (q.bytes ++ datas).length := by
  rw [List.length_append]
  exact hq.ptr_le.trans (Nat.le_add_right ..)

theorem Valid.move {q : ByteQueue} (hq : q.Valid) {ptr : Nat} (hptr : ptr ≤ q.bytes.length) :
    Valid { q with ptr } :=
  ⟨hptr, hq.length_lt⟩

/-- What a method that reads leaves. -/
theorem Valid.of_read {α : Type} {q q' : ByteQueue} (hq : q.Valid) {result : Except Exn α}
    {peek : Bool} {ptr : Nat} (hptr : ptr ≤ q.bytes.length) {read : Option α}
    (h : read.map (fun b => ((.ok b : Except Exn α), if peek then q else { q with ptr })) =
      some (result, q')) : q'.Valid := by
  obtain ⟨b, -, h⟩ := Option.map_eq_some_iff.mp h
  obtain ⟨-, rfl⟩ := Prod.mk.inj h
  cases peek with
  | true => exact hq
  | false => exact hq.move hptr

theorem Valid.popData {q q' : ByteQueue} (hq : q.Valid) {size : Nat} {peek endian : Bool}
    {result : Except Exn (List Byte)} (h : q.popData size peek endian = some (result, q')) :
    q'.Valid := by
  rw [ByteQueue.popData] at h
  by_cases hcheck : (q.ptr + lenOf size) % 2 ^ 64 > q.bytes.length
  · rw [if_pos hcheck] at h
    cases h
    exact hq
  · rw [if_neg hcheck] at h
    exact hq.of_read (not_lt.mp hcheck) h

theorem Valid.popTextLen {q q' : ByteQueue} (hq : q.Valid) {len : Nat} {peek : Bool}
    {result : Except Exn (List Byte)} (h : q.popTextLen len peek = some (result, q')) :
    q'.Valid := by
  rw [ByteQueue.popTextLen] at h
  by_cases hcheck : (q.ptr + len) % 2 ^ 64 > q.bytes.length
  · rw [if_pos hcheck] at h
    cases h
    exact hq
  · rw [if_neg hcheck] at h
    exact hq.of_read (not_lt.mp hcheck) h

theorem Valid.pops {q q' : ByteQueue} (hq : q.Valid) {cell size : Nat} {peek endian : Bool}
    {result : Except Exn (List (List Byte))}
    (h : q.pops cell size peek endian = some (result, q')) : q'.Valid := by
  rw [ByteQueue.pops] at h
  by_cases hcheck : (q.ptr + cell * q.requested size) % 2 ^ 64 > q.remain
  · rw [if_pos hcheck] at h
    cases h
    exact hq
  rw [if_neg hcheck] at h
  by_cases hreserve : q.requested size > (2 ^ 63 - 1) / cell
  · rw [if_pos hreserve] at h
    cases h
    exact hq
  · rw [if_neg hreserve] at h
    have hremain := hq.remain_eq
    exact hq.of_read ((not_lt.mp hcheck).trans (by omega)) h

theorem Valid.next {q q' : ByteQueue} (hq : q.Valid) {len : Int32} (h : q.next len = .ok q') :
    q'.Valid := by
  rw [ByteQueue.next] at h
  split_ifs at h with hcheck
  cases h
  exact hq.move (not_lt.mp hcheck)

theorem bytes_prev (q : ByteQueue) (len : Int32) : (q.prev len).bytes = q.bytes := by
  rw [prev]
  split_ifs
  · rfl
  · rfl

/-- `Prev` goes back as far as it is told where there is so much. -/
theorem prev_of_le {q : ByteQueue} (hq : q.Valid) {len : Int32} (h : len.toInt ≤ q.ptr) :
    (q.prev len).Valid := by
  have hptr := hq.ptr_le
  have hlen := hq.length_lt
  rw [prev]
  split_ifs with hneg
  · exact hq.move (Nat.zero_le _)
  · exact hq.move (by omega)

/-- And else behind the end of the queue. -/
theorem prev_of_lt {q : ByteQueue} (hq : q.Valid) {len : Int32} (h : (q.ptr : Int) < len.toInt) :
    q.bytes.length < (q.prev len).ptr := by
  have hlen := hq.length_lt
  have hsmall := len.toInt_lt
  rw [prev, if_neg (by omega)]
  dsimp only
  omega

theorem Valid.split {q q' : ByteQueue} (hq : q.Valid) {start stop : Int64}
    (h : q.split start stop = some q') : q'.Valid := by
  rw [ByteQueue.split] at h
  split_ifs at h
  all_goals
    cases h
    refine ⟨Nat.zero_le _, ?_⟩
    have hlen := hq.length_lt
    simp only [List.length_drop, List.length_take]
    omega

theorem Valid.pushData {q q' : ByteQueue} (hq : q.Valid) {data : List Byte} {endian : Bool}
    (h : (q.pushData data endian).bind held = some q') : q'.Valid := by
  obtain ⟨pushed, hpushed, h⟩ := Option.bind_eq_some_iff.mp h
  obtain ⟨values, -, rfl⟩ := Option.map_eq_some_iff.mp hpushed
  exact .of_held (ptr_le_of_append hq values) h

/-- The loop of `push_head` keeps what is in the vector, and the vector below its limit. -/
theorem length_of_insertFrom {value : Nat → Option Byte} {n i : Nat} {bytes bytes' : List Byte}
    (h : insertFrom value n i bytes = some (.ok bytes')) (hlen : bytes.length < 2 ^ 63) :
    bytes.length ≤ bytes'.length ∧ bytes'.length < 2 ^ 63 := by
  induction n generalizing i bytes with
  | zero =>
    cases h
    exact ⟨le_rfl, hlen⟩
  | succ n ih =>
    rw [insertFrom] at h
    obtain ⟨b, -, h⟩ := Option.bind_eq_some_iff.mp h
    split_ifs at h with hroom
    · have hinsert : bytes.length ≤ (bytes.insertIdx i b).length ∧
          (bytes.insertIdx i b).length ≤ bytes.length + 1 := by
        rw [List.length_insertIdx]
        split_ifs <;> omega
      obtain ⟨hle, hlt⟩ := ih h (by omega)
      exact ⟨hinsert.1.trans hle, hlt⟩
    · cases h

theorem Valid.pushHead {q q' : ByteQueue} (hq : q.Valid) {data : List Byte} {endian : Bool}
    (h : q.pushHead data endian = some (.ok q')) : q'.Valid := by
  obtain ⟨result, hloop, h⟩ := Option.map_eq_some_iff.mp h
  cases result with
  | error e => cases h
  | ok bytes =>
    cases h
    obtain ⟨hle, hlt⟩ := length_of_insertFrom hloop hq.length_lt
    exact ⟨hq.ptr_le.trans hle, hlt⟩

theorem valid_ofBuffer {buf : List Byte} {q : ByteQueue} (h : ofBuffer buf = some q) :
    q.Valid := by
  obtain ⟨bytes, hread, rfl⟩ := Option.map_eq_some_iff.mp h
  have hlen : buf.length < 2 ^ 31 := by
    by_contra hlarge
    rw [forInt_of_le (not_lt.mp hlarge)] at hread
    cases hread
  rw [forInt_of_lt hlen] at hread
  have hbytes := (mapM_range_eq_some_iff.mp hread).1
  refine ⟨Nat.zero_le _, ?_⟩
  dsimp only
  omega

end ByteQueue

namespace ReadPointer

/-! ## Runs -/

def AllValid (s : Objects) : Prop := ∀ i, (s i).Valid

/-- The pointers of all objects are in place. -/
def AllInPlace (s : Objects) : Prop := ∀ i, (s i).InPlace

/-- A call of `Prev` goes back no further than to the first byte. -/
def GoesBackWithin (s : Objects) : Op → Prop
  | .prev i len => len.toInt ≤ (s i).ptr
  | _ => True

theorem made_of_map {made : Option ByteQueue} {i j : Nat} {q : ByteQueue}
    (h : made.map (i, ·) = some (j, q)) : made = some q := by
  obtain ⟨q', hmade, h⟩ := Option.map_eq_some_iff.mp h
  obtain ⟨-, rfl⟩ := Prod.mk.inj h
  exact hmade

theorem read_of_map {α : Type} {read : Option (α × ByteQueue)} {i j : Nat} {q : ByteQueue}
    (h : (read.map fun r => (i, r.2)) = some (j, q)) : ∃ result, read = some (result, q) := by
  obtain ⟨⟨result, q'⟩, hread, h⟩ := Option.map_eq_some_iff.mp h
  obtain ⟨-, rfl⟩ := Prod.mk.inj h
  exact ⟨result, hread⟩

theorem valid_changed {s : Objects} (hs : AllValid s) {op : Op} (hop : GoesBackWithin s op)
    {i : Nat} {q : ByteQueue} (h : changed s op = some (i, q)) : q.Valid := by
  have hzero : (0 : Nat) < 2 ^ 63 := by decide
  cases op with
  | create | createEndian =>
    cases h
    exact ⟨le_rfl, hzero⟩
  | copy | move =>
    cases h
    exact hs _
  | createVector j bstream =>
    exact .of_held (Nat.zero_le _) (made_of_map h)
  | createBuffer j buf =>
    exact ByteQueue.valid_ofBuffer (made_of_map h)
  | add j k l =>
    exact .of_held (ByteQueue.ptr_le_of_append (hs k) _) (made_of_map h)
  | append j k =>
    rw [changed] at h
    split_ifs at h
    exact .of_held (ByteQueue.ptr_le_of_append (hs j) _) (made_of_map h)
  | pushraw j datas =>
    exact .of_held (ByteQueue.ptr_le_of_append (hs j) _) (made_of_map h)
  | push j data endian =>
    exact (hs j).pushData (made_of_map h)
  | pushHead j data endian =>
    obtain ⟨result, hpushed, h⟩ := Option.bind_eq_some_iff.mp h
    cases result with
    | error e => cases h
    | ok q =>
      cases h
      exact (hs _).pushHead hpushed
  | pop j size peek endian =>
    obtain ⟨result, hpopped⟩ := read_of_map h
    exact (hs j).popData hpopped
  | pops j cell size peek endian =>
    obtain ⟨result, hpopped⟩ := read_of_map h
    exact (hs j).pops hpopped
  | popsAll j cell peek =>
    obtain ⟨result, hpopped⟩ := read_of_map h
    exact (hs j).pops hpopped
  | popstr j peek =>
    obtain ⟨result, hpopped⟩ := read_of_map h
    exact (hs j).popTextLen hpopped
  | popstrLen j len peek =>
    obtain ⟨result, hpopped⟩ := read_of_map h
    exact (hs j).popTextLen hpopped
  | setEndian j endian =>
    cases h
    exact ⟨(hs _).ptr_le, (hs _).length_lt⟩
  | next j len =>
    cases hnext : (s j).next len with
    | error e =>
      rw [changed, hnext] at h
      cases h
      exact hs _
    | ok q =>
      rw [changed, hnext] at h
      cases h
      exact (hs _).next hnext
  | prev j len =>
    cases h
    exact ByteQueue.prev_of_le (hs _) hop
  | reset j =>
    cases h
    exact (hs _).move (Nat.zero_le _)
  | clear j =>
    cases h
    exact ⟨le_rfl, hzero⟩
  | split j k start stop =>
    exact (hs k).split (made_of_map h)

/-- Every call but a `Prev` that goes too far keeps the pointers in the queues. -/
theorem valid_step {s t : Objects} {op : Op} (hs : AllValid s) (hop : GoesBackWithin s op)
    (h : step s op = some t) : AllValid t := by
  obtain ⟨⟨i, q⟩, hchanged, rfl⟩ := Option.map_eq_some_iff.mp h
  have hq := valid_changed hs hop hchanged
  have hupdate : AllValid (Function.update s i q) := by
    intro j
    rcases eq_or_ne j i with rfl | hj
    · rwa [Function.update_self]
    · rw [Function.update_of_ne hj]
      exact hs j
  have hclear : ∀ j, (Function.update s i q j).clear.Valid := fun j =>
    ⟨le_rfl, show 0 < 2 ^ 63 by decide⟩
  cases op with
  | move k l =>
    intro j
    change (Function.update (Function.update s i q) l
      (Function.update s i q l).clear j).Valid
    rcases eq_or_ne j l with rfl | hj
    · rw [Function.update_self]
      exact hclear j
    · rw [Function.update_of_ne hj]
      exact hupdate j
  | _ => exact hupdate

/-- That one does not. -/
theorem not_inPlace_step {s t : Objects} {op : Op} (hs : AllValid s)
    (hop : ¬ GoesBackWithin s op) (h : step s op = some t) : ¬ AllInPlace t := by
  cases op with
  | prev i len =>
    cases h
    intro hplace
    have hptr : (Function.update s i ((s i).prev len) i).ptr ≤
      (Function.update s i ((s i).prev len) i).bytes.length := (hplace i).ptr_le
    rw [Function.update_self, ByteQueue.bytes_prev] at hptr
    exact absurd (ByteQueue.prev_of_lt (hs i) (not_le.mp hop)) (not_lt.mpr hptr)
  | _ => exact absurd trivial hop

/-- The objects before anything is called. -/
def start : Objects := fun _ => .empty

theorem valid_start : AllValid start := fun _ => ⟨le_rfl, show 0 < 2 ^ 63 by decide⟩

/-- **Where the pointers stay in the queues.** These are the runs in which no `Prev` goes back
further than to the first byte; what its documentation says of the others is never so. -/
theorem read_pointers_in_place_iff (ops : List Op) :
    (Always step AllInPlace start ops ↔ Meets step GoesBackWithin start ops) ∧
    ∀ q : ByteQueue, q.Valid → ∀ len : Int32,
      ((q.ptr : Int) < len.toInt → (q.prev len).ptr = 0) ↔ len.toInt ≤ q.ptr := by
  refine ⟨?_, fun q hq len => ?_⟩
  · exact always_iff_meets (I := AllValid) (fun s hs i => (hs i).inPlace)
      (fun s op t hs hop => valid_step hs hop) (fun s op t hs hop => not_inPlace_step hs hop)
      ops valid_start
  · refine ⟨fun h => ?_, fun h hlt => absurd hlt (not_lt.mpr h)⟩
    by_contra hlarge
    have hbehind := ByteQueue.prev_of_lt hq (not_le.mp hlarge)
    rw [h (not_le.mp hlarge)] at hbehind
    exact Nat.not_lt_zero _ hbehind

/-- `Prev(1)` on a new queue. -/
theorem not_in_place_after_prev : ¬ ∀ ops, Always step AllInPlace start ops := by
  intro h
  have hplace : AllInPlace (Function.update start 0 (ByteQueue.empty.prev 1)) := (h [.prev 0 1]).2
  have hptr := (hplace 0).ptr_le
  rw [Function.update_self] at hptr
  exact absurd hptr (by decide)

end ReadPointer
end DrgbServer.Utils
