import DrgbServer.Utils.MyTypes

/-! # `ByteQueue`: typed fields in a byte vector

A value of a trivially copyable type stands as its memory image, the list of its
bytes from the lowest address on, so `push<T>` and `pop<T>` depend on `T` through
`sizeof(T)` only. The read pointer is a 64-bit unsigned number and its sums wrap. -/
namespace DrgbServer.Utils

/-- `g_isLittleEndian` on the servers' machines. -/
def isLittleEndianSystem : Bool := true

/-- The memory image of an unsigned integer of `width` bytes. -/
def image : Nat → Nat → List Byte
  | 0, _ => []
  | width + 1, n => UInt8.ofNat (n % 256) :: image width (n / 256)

/-- The unsigned integer with a memory image. -/
def ofImage : List Byte → Nat
  | [] => 0
  | b :: rest => b.toNat + 256 * ofImage rest

/-- An `int` in memory. -/
def intImage (n : Int) : List Byte := image 4 (n % 2 ^ 32).toNat

/-- The `int` with a memory image. -/
def intOfImage (bytes : List Byte) : Int := (ofImage bytes : Int).bmod (2 ^ 32)

@[simp] theorem length_image (width n : Nat) : (image width n).length = width := by
  induction width generalizing n with
  | zero => rfl
  | succ width ih => rw [image, List.length_cons, ih]

theorem ofImage_image {width n : Nat} (h : n < 256 ^ width) : ofImage (image width n) = n := by
  induction width generalizing n with
  | zero =>
    rw [Nat.pow_zero] at h
    rw [image, ofImage]
    omega
  | succ width ih =>
    have hdiv : n / 256 < 256 ^ width := Nat.div_lt_of_lt_mul (by rwa [Nat.pow_succ'] at h)
    have hbyte : (UInt8.ofNat (n % 256)).toNat = n % 256 :=
      UInt8.toNat_ofNat_of_lt' (Nat.mod_lt n (by decide))
    rw [image, ofImage, ih hdiv, hbyte]
    omega

theorem intOfImage_intImage {n : Int} (h : -2 ^ 31 ≤ n) (h' : n < 2 ^ 31) :
    intOfImage (intImage n) = n := by
  have hpos : 0 ≤ n % 2 ^ 32 := Int.emod_nonneg n (by decide)
  have hlt : (n % 2 ^ 32).toNat < 256 ^ 4 := by omega
  have himage : (ofImage (image 4 (n % 2 ^ 32).toNat) : Int) = n % 2 ^ 32 := by
    rw [ofImage_image hlt, Int.toNat_of_nonneg hpos]
  have hmod : (n % 2 ^ 32).bmod (2 ^ 32) = n.bmod (2 ^ 32) := Int.emod_bmod n (2 ^ 32)
  unfold intOfImage intImage
  rw [himage, hmod]
  exact Int.bmod_eq_of_le h h'

structure ByteQueue where
  defaultEndian : Bool
  bytes : List Byte
  ptr : Nat
deriving DecidableEq

namespace ByteQueue

def empty : ByteQueue := ⟨isLittleEndianSystem, [], 0⟩

/-- The constructor from a vector; the loop counts to an `int`. -/
def ofVector (bstream : List Byte) : ByteQueue :=
  ⟨isLittleEndianSystem, bstream.take (toInt bstream.length).toNat, 0⟩

def size (q : ByteQueue) : Nat := q.bytes.length

def remain (q : ByteQueue) : Nat := (q.size + 2 ^ 64 - q.ptr) % 2 ^ 64

/-- `len` bytes from the read pointer on. -/
def window (q : ByteQueue) (len : Nat) : List Byte := (q.bytes.drop q.ptr).take len

def oriented (endian : Bool) (data : List Byte) : List Byte :=
  if isLittleEndianSystem = endian then data else data.reverse

def push (q : ByteQueue) (data : List Byte) : ByteQueue :=
  { q with bytes := q.bytes ++ oriented q.defaultEndian data }

def pushraw (q : ByteQueue) (datas : List Byte) : ByteQueue :=
  { q with bytes := q.bytes ++ datas }

/-- `pop<T>` with `sizeof(T) = len`. -/
def pop (q : ByteQueue) (len : Nat) (peek : Bool) : Except Exn (List Byte × ByteQueue) :=
  if (q.ptr + len) % 2 ^ 64 > q.bytes.length then
    .error (.outOfRange "ByteQueue : Byte Out of Range")
  else
    .ok (oriented q.defaultEndian (q.window len),
      if peek then q else { q with ptr := (q.ptr + len) % 2 ^ 64 })

/-- `popstr(len, peek)`. -/
def popstrLen (q : ByteQueue) (len : Nat) (peek : Bool) : Except Exn (List Byte × ByteQueue) :=
  if (q.ptr + len) % 2 ^ 64 > q.bytes.length then
    .error (.outOfRange "ByteQueue::pop(int) : Byte Out of Range")
  else
    .ok (q.window len, if peek then q else { q with ptr := (q.ptr + len) % 2 ^ 64 })

def popstr (q : ByteQueue) (peek : Bool) : Except Exn (List Byte × ByteQueue) :=
  q.popstrLen q.remain peek

/-- `Create<T>`. -/
def create (data : List Byte) : ByteQueue := empty.push data

/-- `operator+`; `operator+=` stores the same. -/
def add (q adder : ByteQueue) : ByteQueue := { q with bytes := q.bytes ++ adder.bytes }

/-! ## What a pop reads -/

theorem pop_of_le {q : ByteQueue} {len : Nat} (h : q.ptr + len ≤ q.bytes.length) (peek : Bool) :
    q.pop len peek = .ok (oriented q.defaultEndian (q.window len),
      if peek then q else { q with ptr := (q.ptr + len) % 2 ^ 64 }) := by
  have hw : ¬ (q.ptr + len) % 2 ^ 64 > q.bytes.length :=
    not_lt.mpr ((Nat.mod_le _ _).trans h)
  rw [pop, if_neg hw]

theorem pop_of_lt {q : ByteQueue} {len : Nat} (h : q.bytes.length < q.ptr + len)
    (hw : q.ptr + len < 2 ^ 64) (peek : Bool) :
    q.pop len peek = .error (.outOfRange "ByteQueue : Byte Out of Range") := by
  rw [pop, if_pos (by rwa [Nat.mod_eq_of_lt hw])]

/-- A queue made of a vector gives its first field if it holds that many bytes. -/
theorem pop_ofVector_of_le {v : List Byte} {len : Nat} (h : len ≤ (ofVector v).size) (peek : Bool) :
    ∃ r, (ofVector v).pop len peek = .ok r :=
  ⟨_, pop_of_le (by rw [show (ofVector v).ptr = 0 from rfl, Nat.zero_add]; exact h) peek⟩

theorem pop_ofVector_of_lt {v : List Byte} {len : Nat} (h : ¬ len ≤ (ofVector v).size)
    (hw : len < 2 ^ 64) (peek : Bool) :
    (ofVector v).pop len peek = .error (.outOfRange "ByteQueue : Byte Out of Range") := by
  have hptr : (ofVector v).ptr + len = len := Nat.zero_add len
  exact pop_of_lt (by rw [hptr]; exact not_le.mp h) (by rw [hptr]; exact hw) peek

theorem pop_error {q : ByteQueue} {len : Nat} {peek : Bool} {e : Exn}
    (h : q.pop len peek = .error e) : e = .outOfRange "ByteQueue : Byte Out of Range" := by
  unfold pop at h
  split at h <;> cases h
  rfl

/-! ## Fields one after the other -/

/-- A queue read up to `rest`. -/
def readTo (before rest : List Byte) : ByteQueue :=
  ⟨isLittleEndianSystem, before ++ rest, before.length⟩

/-- The field that comes next. -/
theorem pop_readTo {before field rest : List Byte} {len : Nat} (hlen : field.length = len)
    (hw : before.length + len < 2 ^ 64) :
    (readTo before (field ++ rest)).pop len false = .ok (field, readTo (before ++ field) rest) := by
  have hle : (readTo before (field ++ rest)).ptr + len ≤
      (readTo before (field ++ rest)).bytes.length := by
    simp only [readTo, List.length_append]
    omega
  have hfield : (readTo before (field ++ rest)).window len = field := by
    rw [window, readTo, List.drop_left, List.take_left' hlen]
  rw [pop_of_le hle, hfield, if_neg Bool.false_ne_true]
  simp only [readTo, Nat.mod_eq_of_lt hw, List.append_assoc, List.length_append, hlen, oriented,
    if_pos]

theorem create_eq_readTo (data : List Byte) : create data = readTo [] data := rfl

theorem push_readTo (fields data : List Byte) :
    (readTo [] fields).push data = readTo [] (fields ++ data) := rfl

theorem add_readTo (fields adder : List Byte) :
    (readTo [] fields).add (readTo [] adder) = readTo [] (fields ++ adder) := rfl

end ByteQueue
end DrgbServer.Utils
