import DrgbServer.Utils.Fields

/-! # Many values at once

`pops` takes the unread bytes for the whole data: a size of 0 stands for `Remain() - ptr`, and
the check compares `ptr` and all the values with `Remain()`. `popstr` and `pops` add and
multiply as 64-bit numbers and count with an `int`. -/
namespace DrgbServer.Utils
namespace ByteQueue
open DrgbServer.Lib.Counting

/-! ## The source -/

/-- `size` of `pops`. -/
def requested (q : ByteQueue) (size : Nat) : Nat :=
  if size = 0 then (q.remain + 2 ^ 64 - q.ptr) % 2 ^ 64 else size

/-- The indices that the inner loop of `pops` reads at. -/
def cellPlaces (q : ByteQueue) (cell : Nat) (endian : Bool) (i : Nat) : Option (List Nat) :=
  if isLittleEndianSystem = endian then
    forInt cell fun j => some ((q.ptr + i * cell + j) % 2 ^ 64)
  else some ((List.range (toInt (cell - 1) + 1).toNat).reverse.map fun j =>
    (q.ptr + i * cell + j) % 2 ^ 64)

/-- One value; `memcpy` takes `cell` bytes of `bstream`. -/
def cellAt (q : ByteQueue) (cell : Nat) (endian : Bool) (i : Nat) : Option (List Byte) :=
  (q.cellPlaces cell endian i).bind fun places =>
    (q.bytesAt places).bind fun bstream =>
      if bstream.length = cell then some bstream else none

/-- `pops<T>(size, peek, endian)` with `sizeof(T) = cell`. -/
def pops (q : ByteQueue) (cell size : Nat) (peek endian : Bool) :
    Option (Except Exn (List (List Byte)) × ByteQueue) :=
  let size := q.requested size
  if (q.ptr + cell * size) % 2 ^ 64 > q.remain then
    some (.error (.outOfRange "ByteQueue : Byte Out of Range"), q)
  -- `reserve` of more values than a vector may have
  else if size > (2 ^ 63 - 1) / cell then some (.error (.stdOther "vector::reserve"), q)
  else (forInt size (q.cellAt cell endian)).map fun result =>
    (.ok result, if peek then q else { q with ptr := (q.ptr + cell * size) % 2 ^ 64 })

/-- All the indices that it reads at. -/
def popsPlaces (q : ByteQueue) (cell size : Nat) (endian : Bool) : Option (List Nat) :=
  (forInt (q.requested size) (q.cellPlaces cell endian)).map List.flatten

/-- `pops<T>(peek)`. -/
def popsAll (q : ByteQueue) (cell : Nat) (peek : Bool) :
    Option (Except Exn (List (List Byte)) × ByteQueue) :=
  q.pops cell q.remain peek q.defaultEndian

/-- `pop<T>(false, endian)` some times. -/
def successive (cell : Nat) (endian : Bool) :
    Nat → ByteQueue → Option (Except Exn (List (List Byte)) × ByteQueue)
  | 0, q => some (.ok [], q)
  | n + 1, q => (q.popData cell false endian).bind fun
    | (.error e, q') => some (.error e, q')
    | (.ok b, q') => (successive cell endian n q').map fun r => (r.1.map (b :: ·), r.2)

/-! ## The values of `pops` -/

/-- The pointer stands in the queue, and a vector of bytes may be that long. -/
structure Valid (q : ByteQueue) : Prop where
  ptr_le : q.ptr ≤ q.bytes.length
  length_lt : q.bytes.length < 2 ^ 63

theorem Valid.remain_eq {q : ByteQueue} (hq : q.Valid) : q.remain = q.bytes.length - q.ptr := by
  obtain ⟨hptr, hlen⟩ := hq
  rw [remain, size]
  omega

/-- The loops over the bytes of one value count to `cell`. -/
def Countable (cell : Nat) (endian : Bool) : Prop :=
  cell < 2 ^ 31 ∨ isLittleEndianSystem ≠ endian ∧ cell = 2 ^ 31

theorem bytesAt_reverse {q : ByteQueue} {places : List Nat} {bs : List Byte}
    (h : q.bytesAt places = some bs) : q.bytesAt places.reverse = some bs.reverse := by
  induction places generalizing bs with
  | nil =>
    cases h
    rfl
  | cons p places ih =>
    rw [bytesAt, List.mapM_cons] at h
    obtain ⟨b, hb, h⟩ := Option.bind_eq_some_iff.mp h
    obtain ⟨rest, hrest, h⟩ := Option.bind_eq_some_iff.mp h
    cases h
    rw [bytesAt, List.reverse_cons, List.mapM_append, List.reverse_cons]
    have hreverse : places.reverse.mapM (q.bytes[·]?) = some rest.reverse := ih hrest
    rw [hreverse]
    simp [hb]

theorem length_of_bytesAt {q : ByteQueue} {places : List Nat} {bs : List Byte}
    (h : q.bytesAt places = some bs) : bs.length = places.length := by
  induction places generalizing bs with
  | nil =>
    cases h
    rfl
  | cons p places ih =>
    rw [bytesAt, List.mapM_cons] at h
    obtain ⟨b, -, h⟩ := Option.bind_eq_some_iff.mp h
    obtain ⟨rest, hrest, h⟩ := Option.bind_eq_some_iff.mp h
    cases h
    rw [List.length_cons, List.length_cons, ih hrest]

/-- The places of a value without wrapping. -/
theorem cellPlaces_of_countable {q : ByteQueue} {cell : Nat} {endian : Bool}
    (hcell : Countable cell endian) (hpos : 1 ≤ cell) {i : Nat}
    (hi : q.ptr + i * cell + cell < 2 ^ 64) :
    q.cellPlaces cell endian i = some (
      if isLittleEndianSystem = endian then (List.range cell).map (q.ptr + i * cell + ·)
      else ((List.range cell).map (q.ptr + i * cell + ·)).reverse) := by
  have hplaces : ((List.range cell).map fun j => (q.ptr + i * cell + j) % 2 ^ 64) =
      (List.range cell).map (q.ptr + i * cell + ·) := by
    refine List.map_congr_left fun j hj => ?_
    have hj := List.mem_range.mp hj
    exact Nat.mod_eq_of_lt (by omega)
  rw [cellPlaces]
  rcases hcell with hcell | ⟨hother, hcell⟩
  · split_ifs with hsystem
    · rw [forInt_of_lt hcell, mapM_range_some, hplaces]
    · have hlast : (toInt (cell - 1) + 1).toNat = cell := by
        rw [toInt_of_lt (by omega)]
        omega
      rw [hlast, List.map_reverse, hplaces]
  · have hlast : (toInt (cell - 1) + 1).toNat = cell := by
      rw [toInt_of_lt (by omega)]
      omega
    rw [if_neg hother, if_neg hother, hlast, List.map_reverse, hplaces]

theorem cellAt_of_countable {q : ByteQueue} {cell : Nat} {endian : Bool}
    (hcell : Countable cell endian) (hpos : 1 ≤ cell) {i : Nat}
    (hi : q.ptr + i * cell + cell ≤ q.bytes.length) (hlen : q.bytes.length < 2 ^ 63) :
    q.cellAt cell endian i = some (oriented endian (q.windowAt (q.ptr + i * cell) cell)) := by
  have hwindow := length_windowAt hi
  have hread := q.bytesAt_range hi
  rw [cellAt, cellPlaces_of_countable hcell hpos (by omega), Option.bind_some, oriented]
  split_ifs with hsystem
  · rw [hread, Option.bind_some]
    exact if_pos hwindow
  · rw [bytesAt_reverse hread, Option.bind_some]
    exact if_pos (List.length_reverse.trans hwindow)

/-- A type that the inner loop cannot count over. -/
theorem cellAt_of_not_countable {q : ByteQueue} {cell : Nat} {endian : Bool}
    (hcell : ¬ Countable cell endian) (i : Nat) : q.cellAt cell endian i = none := by
  rw [Countable, not_or] at hcell
  obtain ⟨hlarge, hother⟩ := hcell
  rw [cellAt, cellPlaces]
  split_ifs with hsystem
  · rw [forInt_of_le (not_lt.mp hlarge)]
    rfl
  · have hcell : cell ≠ 2 ^ 31 := fun h => hother ⟨hsystem, h⟩
    have hlast := toInt_lt (cell - 1)
    rw [Option.bind_some]
    cases hread : q.bytesAt _ with
    | none => rfl
    | some bs =>
      have hlen := length_of_bytesAt hread
      rw [List.length_map, List.length_reverse, List.length_range] at hlen
      rw [Option.bind_some, if_neg (by omega)]

/-- The values from the pointer on. -/
def cells (q : ByteQueue) (cell n : Nat) (endian : Bool) : List (List Byte) :=
  (List.range n).map fun i => oriented endian (q.windowAt (q.ptr + i * cell) cell)

theorem forInt_cellAt {q : ByteQueue} {cell n : Nat} {endian : Bool}
    (hcell : Countable cell endian) (hpos : 1 ≤ cell) (hn : n < 2 ^ 31)
    (hfit : q.ptr + cell * n ≤ q.bytes.length) (hlen : q.bytes.length < 2 ^ 63) :
    forInt n (q.cellAt cell endian) = some (q.cells cell n endian) := by
  have hbody : ∀ i < n, q.cellAt cell endian i =
      some (oriented endian (q.windowAt (q.ptr + i * cell) cell)) := by
    intro i hi
    have hnext : (i + 1) * cell ≤ n * cell := Nat.mul_le_mul_right cell hi
    rw [Nat.succ_mul, Nat.mul_comm n] at hnext
    exact cellAt_of_countable hcell hpos (by omega) hlen
  rw [forInt_of_lt hn, mapM_range_congr hbody, mapM_range_some, cells]

/-- The loops of `pops` give the values or are undefined. -/
theorem forInt_cellAt_isSome_iff {q : ByteQueue} {cell n : Nat} {endian : Bool}
    (hpos : 1 ≤ cell) (hfit : q.ptr + cell * n ≤ q.bytes.length)
    (hlen : q.bytes.length < 2 ^ 63) :
    (forInt n (q.cellAt cell endian)).isSome ↔ n = 0 ∨ n < 2 ^ 31 ∧ Countable cell endian := by
  constructor
  · intro h
    by_contra hnot
    obtain ⟨hn, hbad⟩ := not_or.mp hnot
    rw [Decidable.not_and_iff_not_or_not] at hbad
    have hnone : forInt n (q.cellAt cell endian) = none := by
      rcases hbad with hbad | hbad
      · exact forInt_of_le (not_lt.mp hbad) _
      · by_cases hn31 : n < 2 ^ 31
        · rw [forInt_of_lt hn31]
          exact mapM_range_eq_none (Nat.pos_of_ne_zero hn) (cellAt_of_not_countable hbad 0)
        · exact forInt_of_le (not_lt.mp hn31) _
    rw [hnone] at h
    cases h
  · intro hgiven
    rcases hgiven with rfl | ⟨hn, hcell⟩
    · rfl
    · rw [forInt_cellAt hcell hpos hn hfit hlen]
      rfl

/-- The check holds, and the values follow. -/
theorem pops_of_le {q : ByteQueue} (hq : q.Valid) {cell size : Nat} (hpos : 1 ≤ cell)
    (hfit : q.ptr + cell * q.requested size ≤ q.remain) (peek endian : Bool) :
    q.pops cell size peek endian = (forInt (q.requested size) (q.cellAt cell endian)).map
      fun result => (.ok result,
        if peek then q else { q with ptr := q.ptr + cell * q.requested size }) := by
  have hremain := hq.remain_eq
  have hlen := hq.length_lt
  have hreserve : ¬ q.requested size > (2 ^ 63 - 1) / cell := by
    rw [gt_iff_lt, not_lt, Nat.le_div_iff_mul_le (by omega), Nat.mul_comm]
    omega
  rw [pops]
  rw [Nat.mod_eq_of_lt (by omega), if_neg (not_lt.mpr hfit), if_neg hreserve]

/-- A sum that wraps is of more values than a vector may have. -/
theorem exists_pops_error {q : ByteQueue} (hq : q.Valid) {cell size : Nat} (hpos : 1 ≤ cell)
    (hfew : q.remain < q.ptr + cell * q.requested size) (peek endian : Bool) :
    ∃ e, q.pops cell size peek endian = some (.error e, q) := by
  have hptr := hq.ptr_le
  have hlen := hq.length_lt
  rw [pops]
  by_cases hcheck : (q.ptr + cell * q.requested size) % 2 ^ 64 > q.remain
  · exact ⟨_, if_pos hcheck⟩
  · have hreserve : q.requested size > (2 ^ 63 - 1) / cell := by
      rw [gt_iff_lt, Nat.div_lt_iff_lt_mul (by omega), Nat.mul_comm]
      by_contra hsmall
      rw [Nat.mod_eq_of_lt (by omega)] at hcheck
      exact hcheck hfew
    exact ⟨_, by rw [if_neg hcheck, if_pos hreserve]⟩

/-! ## The length checks -/

/-- A read of `wanted` bytes is defined. It succeeds only where so many are unread, and then at
indices of unread bytes; where it throws the queue is as it was. -/
def Checked {α : Type} (q : ByteQueue) (wanted : Nat) (places : Option (List Nat))
    (outcome : Option (Except Exn α × ByteQueue)) : Prop :=
  ∃ result q', outcome = some (result, q') ∧ match result with
    | .ok _ => wanted ≤ q.remain ∧
      ∃ l, places = some l ∧ ∀ p ∈ l, q.ptr ≤ p ∧ p < q.bytes.length
    | .error _ => q' = q

theorem checked_error {α : Type} (q : ByteQueue) (wanted : Nat) (places : Option (List Nat))
    (e : Exn) : Checked (α := α) q wanted places (some (.error e, q)) :=
  ⟨_, _, rfl, rfl⟩

theorem not_checked_none {α : Type} (q : ByteQueue) (wanted : Nat)
    (places : Option (List Nat)) : ¬ Checked (α := α) q wanted places none := by
  intro hgiven
  obtain ⟨_, _, h, -⟩ := hgiven
  cases h

/-- The length of a text that an `int` counts, or one that is refused before the sum wraps. -/
def TextFits (q : ByteQueue) (len : Nat) : Prop :=
  len < 2 ^ 31 ∨ q.bytes.length < q.ptr + len ∧ q.ptr + len < 2 ^ 64

/-- Where the values are not refused an `int` counts them and their bytes; a size of 0 passes the
check for single bytes only. -/
def CountFits (q : ByteQueue) (cell size : Nat) (endian : Bool) : Prop :=
  if size = 0 then cell = 1 → q.remain < q.ptr + 2 ^ 31
  else q.ptr + cell * size ≤ q.remain → size < 2 ^ 31 ∧ Countable cell endian

theorem checked_popTextLen_iff {q : ByteQueue} (hq : q.Valid) {len : Nat} (hlen : len < 2 ^ 64)
    (peek : Bool) :
    Checked q len (q.textPlaces len) (q.popTextLen len peek) ↔ q.TextFits len := by
  have hptr := hq.ptr_le
  have hsize := hq.length_lt
  have hremain := hq.remain_eq
  rw [popTextLen, TextFits]
  by_cases hcheck : (q.ptr + len) % 2 ^ 64 > q.bytes.length
  · rw [if_pos hcheck]
    exact iff_of_true (checked_error ..) (by omega)
  rw [if_neg hcheck]
  by_cases hcount : len < 2 ^ 31
  · have hfit : q.ptr + len ≤ q.bytes.length := by omega
    have hplaces := textPlaces_of_le (q := q) hcount (by omega)
    refine iff_of_true ?_ (.inl hcount)
    rw [hplaces, Option.bind_some, q.bytesAt_range hfit]
    refine ⟨_, _, rfl, by omega, _, rfl, fun p hp => ?_⟩
    obtain ⟨i, hi, rfl⟩ := List.mem_map.mp hp
    have hi := List.mem_range.mp hi
    omega
  · rw [textPlaces, forInt_of_le (not_lt.mp hcount)]
    exact iff_of_false (not_checked_none q len _) (by omega)

/-- The indices of the values lie between the pointer and the last of them. -/
theorem popsPlaces_of_countable {q : ByteQueue} {cell size : Nat} {endian : Bool}
    (hcell : Countable cell endian) (hpos : 1 ≤ cell) (hcount : q.requested size < 2 ^ 31)
    (hfit : q.ptr + cell * q.requested size < 2 ^ 64) :
    ∃ l, q.popsPlaces cell size endian = some l ∧
      ∀ p ∈ l, q.ptr ≤ p ∧ p < q.ptr + cell * q.requested size := by
  have hlast : ∀ i < q.requested size, i * cell + cell ≤ cell * q.requested size := by
    intro i hi
    rw [← Nat.succ_mul, Nat.mul_comm cell]
    exact Nat.mul_le_mul_right cell hi
  have hbody : ∀ i < q.requested size, q.cellPlaces cell endian i = some (
      if isLittleEndianSystem = endian then (List.range cell).map (q.ptr + i * cell + ·)
      else ((List.range cell).map (q.ptr + i * cell + ·)).reverse) := by
    intro i hi
    have hi := hlast i hi
    exact cellPlaces_of_countable hcell hpos (by omega)
  refine ⟨_, by rw [popsPlaces, forInt_of_lt hcount, mapM_range_congr hbody, mapM_range_some]; rfl,
    fun p hp => ?_⟩
  obtain ⟨_, hl, hp⟩ := List.mem_flatten.mp hp
  obtain ⟨i, hi, rfl⟩ := List.mem_map.mp hl
  have hi := hlast i (List.mem_range.mp hi)
  have hmem : p ∈ (List.range cell).map (q.ptr + i * cell + ·) := by
    split_ifs at hp
    · exact hp
    · exact List.mem_reverse.mp hp
  obtain ⟨j, hj, rfl⟩ := List.mem_map.mp hmem
  have hj := List.mem_range.mp hj
  omega

theorem checked_pops_iff {q : ByteQueue} (hq : q.Valid) {cell size : Nat} (hpos : 1 ≤ cell)
    (peek endian : Bool) :
    Checked q (cell * q.requested size) (q.popsPlaces cell size endian)
        (q.pops cell size peek endian) ↔
      (q.ptr + cell * q.requested size ≤ q.remain →
        q.requested size = 0 ∨ q.requested size < 2 ^ 31 ∧ Countable cell endian) := by
  have hptr := hq.ptr_le
  have hsize := hq.length_lt
  have hremain := hq.remain_eq
  by_cases hfit : q.ptr + cell * q.requested size ≤ q.remain
  · have hsome : (forInt (q.requested size) (q.cellAt cell endian)).isSome ↔
        q.requested size = 0 ∨ q.requested size < 2 ^ 31 ∧ Countable cell endian :=
      forInt_cellAt_isSome_iff hpos (by omega) hsize
    rw [pops_of_le hq hpos hfit, forall_prop_of_true hfit, ← hsome]
    constructor
    · intro h
      cases hvalues : forInt (q.requested size) (q.cellAt cell endian) with
      | none =>
        rw [hvalues] at h
        exact absurd h (not_checked_none q _ _)
      | some result => rfl
    · intro h
      obtain ⟨result, hresult⟩ := Option.isSome_iff_exists.mp h
      have hplaces : ∃ l, q.popsPlaces cell size endian = some l ∧
          ∀ p ∈ l, q.ptr ≤ p ∧ p < q.ptr + cell * q.requested size := by
        rcases hsome.mp h with hzero | ⟨hcount, hcell⟩
        · exact ⟨[], by rw [popsPlaces, hzero]; rfl, List.forall_mem_nil _⟩
        · exact popsPlaces_of_countable hcell hpos hcount (by omega)
      obtain ⟨l, hl, hrange⟩ := hplaces
      rw [hresult]
      refine ⟨_, _, rfl, by omega, l, hl, fun p hp => ?_⟩
      have hp := hrange p hp
      omega
  · obtain ⟨e, he⟩ := exists_pops_error hq hpos (not_le.mp hfit) peek endian
    rw [he]
    exact iff_of_true (checked_error ..) fun h => absurd h hfit

/-- What a size of 0 asks for. -/
theorem countFits_iff {q : ByteQueue} (hq : q.Valid) {cell size : Nat} (hpos : 1 ≤ cell)
    (endian : Bool) :
    q.CountFits cell size endian ↔ (q.ptr + cell * q.requested size ≤ q.remain →
      q.requested size = 0 ∨ q.requested size < 2 ^ 31 ∧ Countable cell endian) := by
  have hptr := hq.ptr_le
  have hsize := hq.length_lt
  have hremain := hq.remain_eq
  rw [CountFits, requested]
  split_ifs with hzero
  · by_cases hle : q.ptr ≤ q.remain
    · have hall : (q.remain + 2 ^ 64 - q.ptr) % 2 ^ 64 = q.remain - q.ptr := by omega
      rw [hall]
      by_cases hone : cell = 1
      · subst hone
        have hcell : Countable 1 endian := .inl (by omega)
        rw [Nat.one_mul]
        simp only [hcell, and_true, forall_const]
        omega
      · have htwo : 2 * (q.remain - q.ptr) ≤ cell * (q.remain - q.ptr) :=
          Nat.mul_le_mul_right _ (by omega)
        refine iff_of_true (fun h => absurd h hone) fun h => .inl ?_
        omega
    · have hall : (q.remain + 2 ^ 64 - q.ptr) % 2 ^ 64 = q.remain + 2 ^ 64 - q.ptr := by omega
      have hmany : q.remain + 2 ^ 64 - q.ptr ≤ cell * (q.remain + 2 ^ 64 - q.ptr) :=
        Nat.le_mul_of_pos_left _ hpos
      rw [hall]
      refine iff_of_true (fun _ => by omega) fun h => ?_
      omega
  · exact forall_congr' fun _ => (or_iff_right hzero).symm

/-- **Length checks.** Where `popstr` and `pops` read unread bytes only, succeed only with enough of
them, and leave the queue as it was where they throw. -/
theorem length_checks_iff {q : ByteQueue} (hq : q.Valid) (peek : Bool) :
    (∀ len < 2 ^ 64,
      (Checked q len (q.textPlaces len) (q.popTextLen len peek) ↔ q.TextFits len)) ∧
    ∀ cell size endian, 1 ≤ cell →
      (Checked q (cell * q.requested size) (q.popsPlaces cell size endian)
        (q.pops cell size peek endian) ↔ q.CountFits cell size endian) := by
  refine ⟨fun len hlen => checked_popTextLen_iff hq hlen peek, fun cell size endian hpos => ?_⟩
  rw [countFits_iff hq hpos, checked_pops_iff hq hpos]

/-- Two bytes that are left, and a text of them. -/
theorem length_checks_iff_text :
    Checked ⟨true, [104, 105, 106], 1⟩ 2 (textPlaces ⟨true, [104, 105, 106], 1⟩ 2)
      (popTextLen ⟨true, [104, 105, 106], 1⟩ 2 false) :=
  ((length_checks_iff ⟨by decide, by decide⟩ false).1 2 (by decide)).mpr (.inl (by decide))

/-- The sum of `popstr` wraps to 0 and passes the check. -/
theorem not_checked_of_wrapping_length :
    ¬ Checked ⟨true, [104], 1⟩ (2 ^ 64 - 1) (textPlaces ⟨true, [104], 1⟩ (2 ^ 64 - 1))
      (popTextLen ⟨true, [104], 1⟩ (2 ^ 64 - 1) false) := by
  have hpasses : ¬ (1 + (2 ^ 64 - 1)) % 2 ^ 64 > [(104 : Byte)].length := by decide
  rw [popTextLen, if_neg hpasses, textPlaces, forInt_of_le (by decide)]
  exact not_checked_none _ _ _

/-! ## Many values and one after the other -/

/-- A place where all of the loop of `pop` is defined. -/
structure Readable (cell : Nat) (endian : Bool) (place : Nat) : Prop where
  nonneg : 0 ≤ toInt place
  within : toInt place + cell ≤ limit endian

/-- And where it reads the bytes that are there. -/
structure Placed (q : ByteQueue) (cell : Nat) (endian : Bool) (place : Nat) : Prop
    extends Readable cell endian place where
  same : q.windowAt (toInt place).toNat cell = q.windowAt place cell

theorem isSome_int_bind_iff {n : Int} {f : Int → Option Byte} :
    ((int n).bind f).isSome ↔ (-2 ^ 31 ≤ n ∧ n < 2 ^ 31) ∧ (f n).isSome := by
  by_cases h : -2 ^ 31 ≤ n ∧ n < 2 ^ 31
  · rw [int_of_fits h, Option.bind_some]
    exact (and_iff_right h).symm
  · rw [int, if_neg h]
    exact iff_of_false Bool.false_ne_true fun hn => h hn.1

theorem isSome_elementAt_iff {l : List Byte} {i : Int} :
    (elementAt l i).isSome ↔ 0 ≤ i ∧ i.toNat < l.length := by
  rw [elementAt]
  split_ifs with h
  · rw [isSome_getElem?, and_iff_right h]
  · exact iff_of_false Bool.false_ne_true fun hi => h hi.1

/-- No read backwards gets to the largest `int`. -/
theorem popped_backwards_last {q : ByteQueue} {cell : Nat} {endian : Bool}
    (hother : isLittleEndianSystem ≠ endian) :
    q.popped cell endian (2 ^ 31 - 1) = none := by
  have hstart := toInt_lt q.ptr
  rw [← Option.not_isSome_iff_eq_none, popped, if_neg hother,
    toInt_of_lt (n := 2 ^ 31 - 1) (by decide), isSome_int_bind_iff, isSome_int_bind_iff,
    isSome_int_bind_iff, isSome_elementAt_iff]
  omega

/-- And none forwards gets behind it. -/
theorem popped_forwards_behind {q : ByteQueue} {cell : Nat} {endian : Bool}
    (hsystem : isLittleEndianSystem = endian) : q.popped cell endian (2 ^ 31) = none := by
  have hstart := toInt_lt q.ptr
  have hbehind : toInt (2 ^ 31) = -2 ^ 31 := by
    unfold toInt
    decide
  rw [← Option.not_isSome_iff_eq_none, popped, if_pos hsystem, hbehind, isSome_int_bind_iff,
    isSome_elementAt_iff]
  omega

/-- The first and the last round of the loop of `pop` reach all of its places. -/
theorem readable_of_popped {q : ByteQueue} {cell : Nat} {endian : Bool} (hpos : 1 ≤ cell)
    (h : ∀ i < cell, (q.popped cell endian i).isSome) : Readable cell endian q.ptr := by
  have hfirst := h 0 hpos
  have hlast := h (cell - 1) (by omega)
  have hreach : 0 ≤ toInt q.ptr ∧ toInt q.ptr + cell ≤ limit endian := by
    rw [limit]
    by_cases hsystem : isLittleEndianSystem = endian
    · have hcell : cell ≤ 2 ^ 31 := by
        by_contra hlarge
        have hbehind := h (2 ^ 31) (by omega)
        rw [popped_forwards_behind hsystem] at hbehind
        cases hbehind
      rw [popped, if_pos hsystem, toInt_of_lt (n := 0) (by decide), isSome_int_bind_iff,
        isSome_elementAt_iff] at hfirst
      rw [popped, if_pos hsystem, toInt_of_lt (n := cell - 1) (by omega), isSome_int_bind_iff,
        isSome_elementAt_iff] at hlast
      rw [if_pos hsystem]
      omega
    · have hcell : cell < 2 ^ 31 := by
        by_contra hlarge
        have hback := h (2 ^ 31 - 1) (by omega)
        rw [popped_backwards_last hsystem] at hback
        cases hback
      rw [popped, if_neg hsystem, toInt_of_lt (n := 0) (by decide), toInt_of_lt hcell,
        isSome_int_bind_iff, isSome_int_bind_iff, isSome_int_bind_iff, isSome_elementAt_iff]
        at hfirst
      rw [popped, if_neg hsystem, toInt_of_lt (n := cell - 1) (by omega), toInt_of_lt hcell,
        isSome_int_bind_iff, isSome_int_bind_iff, isSome_int_bind_iff, isSome_elementAt_iff]
        at hlast
      rw [if_neg hsystem]
      omega
  exact ⟨hreach.1, hreach.2⟩

/-- `pop` of a type that an `int` counts, with the bytes there. -/
theorem popData_of_readable {q : ByteQueue} {cell : Nat} {endian : Bool} (hq : q.Valid)
    (hfit : q.ptr + cell ≤ q.bytes.length) (h : Readable cell endian q.ptr) :
    q.popData cell false endian =
      some (.ok (oriented endian (q.windowAt (toInt q.ptr).toNat cell)),
        { q with ptr := q.ptr + cell }) := by
  have hlen := hq.length_lt
  have hle := toInt_le q.ptr
  have hlimit := limit_le endian
  obtain ⟨hnonneg, hwithin⟩ := h
  have hwhole : lenOf cell = cell := Nat.mod_eq_of_lt (by omega)
  rw [popData, hwhole]
  rw [Nat.mod_eq_of_lt (by omega), if_neg (by omega),
    mapM_popped_of_start (Int.toNat_of_nonneg hnonneg).symm (by omega) (by omega)]
  rfl

theorem popData_of_not_readable {q : ByteQueue} {cell : Nat} {endian : Bool}
    (hq : q.Valid) (hpos : 1 ≤ cell) (hcell : cell < 2 ^ 32)
    (hfit : q.ptr + cell ≤ q.bytes.length) (h : ¬ Readable cell endian q.ptr) :
    q.popData cell false endian = none := by
  have hlen := hq.length_lt
  have hwhole : lenOf cell = cell := Nat.mod_eq_of_lt hcell
  have hundefined : (List.range cell).mapM (q.popped cell endian) = none := by
    cases hread : (List.range cell).mapM (q.popped cell endian) with
    | none => rfl
    | some values =>
      exact absurd (readable_of_popped hpos (exists_mapM_range_iff.mp ⟨_, hread⟩)) h
  rw [popData, hwhole, Nat.mod_eq_of_lt (by omega), if_neg (by omega), hundefined]
  rfl

/-- The values that one `pop` after the other gives. -/
def poppedCells (q : ByteQueue) (cell n : Nat) (endian : Bool) : List (List Byte) :=
  (List.range n).map fun i => oriented endian (q.windowAt (toInt (q.ptr + i * cell)).toNat cell)

theorem poppedCells_succ (q : ByteQueue) (cell n : Nat) (endian : Bool) :
    q.poppedCells cell (n + 1) endian =
      oriented endian (q.windowAt (toInt q.ptr).toNat cell) ::
        poppedCells { q with ptr := q.ptr + cell } cell n endian := by
  rw [poppedCells, List.range_succ_eq_map, List.map_cons, List.map_map, Nat.zero_mul,
    Nat.add_zero]
  refine congrArg _ (List.map_congr_left fun i _ => ?_)
  have hplace : q.ptr + (i + 1) * cell = q.ptr + cell + i * cell := by
    rw [Nat.succ_mul]
    omega
  rw [Function.comp_apply, Nat.succ_eq_add_one, hplace]
  rfl

/-- One `pop` after the other while the bytes last. -/
theorem successive_eq {cell : Nat} {endian : Bool} (hpos : 1 ≤ cell) (hcell : cell < 2 ^ 32)
    (n : Nat) {q : ByteQueue} (hq : q.Valid) (hfit : q.ptr + n * cell ≤ q.bytes.length) :
    (∀ i < n, Readable cell endian (q.ptr + i * cell)) ∧
      successive cell endian n q = some (.ok (q.poppedCells cell n endian),
        { q with ptr := q.ptr + n * cell }) ∨
    (∃ i < n, ¬ Readable cell endian (q.ptr + i * cell)) ∧ successive cell endian n q = none := by
  induction n generalizing q with
  | zero =>
    refine .inl ⟨fun i hi => absurd hi (Nat.not_lt_zero i), ?_⟩
    rw [Nat.zero_mul]
    rfl
  | succ n ih =>
    rw [Nat.succ_mul] at hfit
    rw [successive]
    by_cases hread : Readable cell endian q.ptr
    · rw [popData_of_readable hq (by omega) hread, Option.bind_some]
      have hplace : ∀ i, q.ptr + (i + 1) * cell = q.ptr + cell + i * cell := by
        intro i
        rw [Nat.succ_mul]
        omega
      have hnext : Valid { q with ptr := q.ptr + cell } :=
        ⟨show q.ptr + cell ≤ q.bytes.length by omega, hq.length_lt⟩
      rcases ih hnext (show q.ptr + cell + n * cell ≤ q.bytes.length by omega) with
        ⟨hall, hrest⟩ | ⟨⟨i, hi, hbad⟩, hrest⟩
      · refine .inl ⟨fun i hi => ?_, ?_⟩
        · cases i with
          | zero => simpa using hread
          | succ i =>
            rw [hplace]
            exact hall i (by omega)
        · dsimp only
          rw [hrest, poppedCells_succ, hplace]
          rfl
      · refine .inr ⟨⟨i + 1, by omega, ?_⟩, ?_⟩
        · rw [hplace]
          exact hbad
        · dsimp only
          rw [hrest]
          rfl
    · refine .inr ⟨⟨0, by omega, by simpa using hread⟩, ?_⟩
      rw [popData_of_not_readable hq hpos hcell (by omega) hread]
      rfl

theorem oriented_inj {endian : Bool} {a b : List Byte} (h : oriented endian a = oriented endian b) :
    a = b := by
  rw [← oriented_oriented endian a, h, oriented_oriented]

theorem cells_eq_poppedCells_iff {q : ByteQueue} {cell n : Nat} {endian : Bool} :
    q.cells cell n endian = q.poppedCells cell n endian ↔
      ∀ i < n, q.windowAt (toInt (q.ptr + i * cell)).toNat cell =
        q.windowAt (q.ptr + i * cell) cell := by
  rw [cells, poppedCells, List.map_inj_left]
  constructor
  · intro h i hi
    exact (oriented_inj (h i (List.mem_range.mpr hi))).symm
  · intro h i hi
    rw [h i (List.mem_range.mp hi)]

/-- One `pop` after the other gives the unread values where all of them can be placed. -/
theorem successive_eq_cells_iff {q : ByteQueue} (hq : q.Valid) {cell n : Nat} {endian : Bool}
    (hpos : 1 ≤ cell) (hcell : cell < 2 ^ 32) (hfit : q.ptr + n * cell ≤ q.bytes.length) :
    (∃ q', successive cell endian n q = some (.ok (q.cells cell n endian), q')) ↔
      ∀ i < n, q.Placed cell endian (q.ptr + i * cell) := by
  rcases successive_eq hpos hcell n hq hfit with
    ⟨hall, hsuccessive⟩ | ⟨⟨i, hi, hbad⟩, hsuccessive⟩
  · rw [hsuccessive]
    constructor
    · intro hgiven i hi
      obtain ⟨q', h⟩ := hgiven
      have hvalues : q.poppedCells cell n endian = q.cells cell n endian :=
        Except.ok.inj (Prod.mk.inj (Option.some.inj h)).1
      exact ⟨hall i hi, cells_eq_poppedCells_iff.mp hvalues.symm i hi⟩
    · intro h
      exact ⟨_, by rw [cells_eq_poppedCells_iff.mpr fun i hi => (h i hi).same]⟩
  · refine iff_of_false ?_ fun h => hbad (h i hi).toReadable
    intro hgiven
    obtain ⟨q', h⟩ := hgiven
    rw [hsuccessive] at h
    cases h

/-- `pops` gives what as many `pop` give where the bytes are unread, and throws else. -/
def Agrees (q : ByteQueue) (cell size : Nat) (peek endian : Bool) : Prop :=
  if size * cell ≤ q.remain then
    ∃ values q', successive cell endian size q = some (.ok values, q') ∧
      q.pops cell size peek endian =
        some (.ok values, if peek then q else { q with ptr := q.ptr + size * cell })
  else ∃ e, q.pops cell size peek endian = some (.error e, q)

/-- Where the bytes are unread they are so with `ptr` added, and an `int` counts all there is to
count. -/
def InStep (q : ByteQueue) (cell size : Nat) (endian : Bool) : Prop :=
  size * cell ≤ q.remain →
    q.ptr + size * cell ≤ q.remain ∧ size < 2 ^ 31 ∧ cell < 2 ^ 31 ∧
      ∀ i < size, q.Placed cell endian (q.ptr + i * cell)

/-- A type of 2^31 bytes, which `pops` can count backwards, is too large for `pop`. -/
theorem count_of_values {q : ByteQueue} (hq : q.Valid) {cell size : Nat} {endian : Bool}
    (hpos : 1 ≤ cell) (hsize : 1 ≤ size) (hfit : q.ptr + cell * size ≤ q.bytes.length)
    (hpops : (forInt size (q.cellAt cell endian)).isSome)
    (hpop : (successive cell endian size q).isSome) : size < 2 ^ 31 ∧ cell < 2 ^ 31 := by
  rcases (forInt_cellAt_isSome_iff hpos hfit hq.length_lt).mp hpops with
    hzero | ⟨hcount, hcell | ⟨hother, rfl⟩⟩
  · omega
  · exact ⟨hcount, hcell⟩
  · rw [Nat.mul_comm] at hfit
    rcases successive_eq hpos (by decide) size hq hfit with ⟨hall, -⟩ | ⟨-, hnone⟩
    · obtain ⟨hnonneg, hwithin⟩ := hall 0 hsize
      rw [limit, if_neg hother] at hwithin
      omega
    · rw [hnone] at hpop
      cases hpop

theorem agrees_iff {q : ByteQueue} (hq : q.Valid) {cell size : Nat} (hpos : 1 ≤ cell)
    (hsize : 1 ≤ size) (peek endian : Bool) :
    q.Agrees cell size peek endian ↔ q.InStep cell size endian := by
  have hrequested : q.requested size = size := if_neg (by omega)
  have hcomm := Nat.mul_comm size cell
  have hptr := hq.ptr_le
  have hlen := hq.length_lt
  have hremain := hq.remain_eq
  have hthrows : q.remain < q.ptr + size * cell →
      ∃ e, q.pops cell size peek endian = some (.error e, q) := by
    intro h
    exact exists_pops_error hq hpos (by rwa [hrequested, ← hcomm]) peek endian
  rw [Agrees, InStep]
  by_cases hunread : size * cell ≤ q.remain
  swap
  · rw [if_neg hunread]
    exact iff_of_true (hthrows (by omega)) fun h => absurd h hunread
  rw [if_pos hunread, forall_prop_of_true hunread]
  by_cases hcheck : q.ptr + size * cell ≤ q.remain
  swap
  · obtain ⟨e, he⟩ := hthrows (not_le.mp hcheck)
    refine iff_of_false ?_ fun h => hcheck h.1
    intro hgiven
    obtain ⟨values, q', -, h⟩ := hgiven
    rw [he] at h
    cases h
  have hfit : q.ptr + cell * size ≤ q.bytes.length := by omega
  have hfits : q.ptr + cell * q.requested size ≤ q.remain := by rwa [hrequested, ← hcomm]
  have hpops := pops_of_le hq hpos hfits peek endian
  rw [hrequested, ← hcomm] at hpops
  rw [hpops]
  constructor
  · intro hgiven
    obtain ⟨values, q', hvalues, hresult⟩ := hgiven
    obtain ⟨result, hread, -⟩ := Option.map_eq_some_iff.mp hresult
    obtain ⟨hcount, hcell⟩ := count_of_values hq hpos hsize hfit (by rw [hread]; rfl)
      (by rw [hvalues]; rfl)
    refine ⟨hcheck, hcount, hcell,
      (successive_eq_cells_iff hq hpos (by omega) (by omega)).mp ⟨q', ?_⟩⟩
    rw [forInt_cellAt (.inl hcell) hpos hcount hfit hlen] at hresult
    have hsame : q.cells cell size endian = values :=
      Except.ok.inj (Prod.mk.inj (Option.some.inj hresult)).1
    rw [hsame, hvalues]
  · intro hgiven
    obtain ⟨-, hcount, hcell, hplaced⟩ := hgiven
    obtain ⟨q', hvalues⟩ := (successive_eq_cells_iff hq hpos (by omega) (by omega)).mpr hplaced
    rw [forInt_cellAt (.inl hcell) hpos hcount hfit hlen]
    exact ⟨_, q', hvalues, rfl⟩

/-- Below 2^31 it is the check with `ptr` added that decides. -/
theorem inStep_iff_of_lt {q : ByteQueue} (hq : q.Valid) (hsmall : q.bytes.length < 2 ^ 31)
    {cell size : Nat} (hpos : 1 ≤ cell) (hsize : 1 ≤ size) (endian : Bool) :
    q.InStep cell size endian ↔
      (size * cell ≤ q.remain → q.ptr + size * cell ≤ q.remain) := by
  have hremain := hq.remain_eq
  refine ⟨fun h hunread => (h hunread).1, fun h hunread => ⟨h hunread, ?_⟩⟩
  have hfit := h hunread
  have hcell : cell ≤ size * cell := Nat.le_mul_of_pos_left cell hsize
  have hcount : size ≤ size * cell := Nat.le_mul_of_pos_right size hpos
  refine ⟨by omega, by omega, fun i hi => ?_⟩
  have hlast : (i + 1) * cell ≤ size * cell := Nat.mul_le_mul_right cell hi
  rw [Nat.succ_mul] at hlast
  have hbelow : q.ptr + i * cell + cell < 2 ^ 31 := by omega
  have hplace : toInt (q.ptr + i * cell) = (q.ptr + i * cell : Nat) :=
    toInt_of_lt ((Nat.le_add_right _ cell).trans_lt hbelow)
  have hwithin : q.ptr + i * cell + cell ≤ limit endian :=
    (Nat.le_sub_one_of_lt hbelow).trans (le_limit endian)
  refine ⟨⟨?_, ?_⟩, by rw [hplace, Int.toNat_natCast]⟩
  · rw [hplace]
    exact Int.natCast_nonneg _
  · rw [hplace]
    exact_mod_cast hwithin

/-! ## All of the unread bytes -/

/-- Without a size `pops` gives the unread bytes as values wherever they are values. -/
def AllAgrees (q : ByteQueue) (cell : Nat) (peek : Bool) : Prop :=
  q.remain % cell = 0 → ∃ q', q.popsAll cell peek =
    some (.ok (q.cells cell (q.remain / cell) q.defaultEndian), q')

/-- `Remain()` counts bytes: nothing has been read, and there is nothing to read or one byte is one
value. -/
def AllInStep (q : ByteQueue) (cell : Nat) : Prop :=
  q.remain % cell = 0 → q.ptr = 0 ∧ (q.remain = 0 ∨ cell = 1 ∧ q.remain < 2 ^ 31)

/-- A pointer that has moved makes all of nothing too much. -/
theorem allAgrees_of_none {q : ByteQueue} (hq : q.Valid) {cell : Nat} (hpos : 1 ≤ cell)
    (hnone : q.remain = 0) (peek : Bool) :
    (∃ q', q.popsAll cell peek =
      some (.ok (q.cells cell (q.remain / cell) q.defaultEndian), q')) ↔ q.ptr = 0 := by
  have hptr := hq.ptr_le
  have hlen := hq.length_lt
  rw [popsAll, hnone, Nat.zero_div]
  constructor
  · intro h
    obtain ⟨q', hvalues⟩ := h
    by_contra hmoved
    have hrequested : q.requested 0 = 2 ^ 64 - q.ptr := by
      rw [requested, if_pos rfl]
      omega
    have hmany : q.remain < q.ptr + cell * q.requested 0 := by omega
    obtain ⟨e, he⟩ := exists_pops_error hq hpos hmany peek q.defaultEndian
    rw [he] at hvalues
    cases hvalues
  · intro hstart
    have hrequested : q.requested 0 = 0 := by
      rw [requested, if_pos rfl]
      omega
    have hfits : q.ptr + cell * q.requested 0 ≤ q.remain := by
      rw [hrequested]
      omega
    have hpops := pops_of_le hq hpos hfits peek q.defaultEndian
    rw [hrequested] at hpops
    exact ⟨_, hpops⟩

theorem allAgrees_of_some {q : ByteQueue} (hq : q.Valid) {cell : Nat} (hpos : 1 ≤ cell)
    (hsome : q.remain ≠ 0) (peek : Bool) :
    (∃ q', q.popsAll cell peek =
        some (.ok (q.cells cell (q.remain / cell) q.defaultEndian), q')) ↔
      q.ptr = 0 ∧ cell = 1 ∧ q.remain < 2 ^ 31 := by
  have hptr := hq.ptr_le
  have hlen := hq.length_lt
  have hremain := hq.remain_eq
  have hrequested : q.requested q.remain = q.remain := if_neg hsome
  rw [popsAll]
  by_cases hfit : q.ptr + cell * q.remain ≤ q.remain
  · have hone : cell = 1 := by
      by_contra hmore
      have htwo : 2 * q.remain ≤ cell * q.remain := Nat.mul_le_mul_right _ (by omega)
      omega
    subst hone
    have hfits : q.ptr + 1 * q.requested q.remain ≤ q.remain := by rwa [hrequested]
    have hpops := pops_of_le hq hpos hfits peek q.defaultEndian
    rw [hrequested] at hpops
    rw [hpops, Nat.div_one]
    constructor
    · intro h
      obtain ⟨q', hvalues⟩ := h
      obtain ⟨result, hread, -⟩ := Option.map_eq_some_iff.mp hvalues
      have hdefined := (forInt_cellAt_isSome_iff hpos (by omega) hlen).mp
        (show (forInt q.remain (q.cellAt 1 q.defaultEndian)).isSome by rw [hread]; rfl)
      exact ⟨by omega, rfl, (hdefined.resolve_left hsome).1⟩
    · intro h
      obtain ⟨-, -, hcount⟩ := h
      rw [forInt_cellAt (.inl (by decide)) hpos hcount (by omega) hlen]
      exact ⟨_, rfl⟩
  · obtain ⟨e, he⟩ := exists_pops_error hq hpos
      (show q.remain < q.ptr + cell * q.requested q.remain by rw [hrequested]; omega) peek
      q.defaultEndian
    rw [he]
    refine iff_of_false ?_ fun ⟨hstart, hone, _⟩ => hfit (by rw [hone]; omega)
    intro h
    obtain ⟨q', hvalues⟩ := h
    cases hvalues

theorem allAgrees_iff {q : ByteQueue} (hq : q.Valid) {cell : Nat} (hpos : 1 ≤ cell)
    (peek : Bool) : q.AllAgrees cell peek ↔ q.AllInStep cell := by
  rw [AllAgrees, AllInStep]
  refine forall_congr' fun _ => ?_
  by_cases hnone : q.remain = 0
  · rw [allAgrees_of_none hq hpos hnone]
    exact ⟨fun h => ⟨h, .inl hnone⟩, fun h => h.1⟩
  · rw [allAgrees_of_some hq hpos hnone, or_iff_right hnone]

/-- **Where `pops` agrees with `pop`.** -/
theorem bulk_pop_iff {q : ByteQueue} (hq : q.Valid) {cell : Nat} (hpos : 1 ≤ cell) (peek : Bool) :
    (∀ size endian, 1 ≤ size →
      (q.Agrees cell size peek endian ↔ q.InStep cell size endian)) ∧
    (q.AllAgrees cell peek ↔ q.AllInStep cell) :=
  ⟨fun _ endian hsize => agrees_iff hq hpos hsize peek endian, allAgrees_iff hq hpos peek⟩

/-- Two values of two bytes from the beginning. -/
theorem bulk_pop_iff_two :
    Agrees ⟨true, [1, 0, 2, 0], 0⟩ 2 2 false true := by
  have hq : Valid ⟨true, [1, 0, 2, 0], 0⟩ := ⟨by decide, by decide⟩
  have hbulk := (bulk_pop_iff hq (show 1 ≤ 2 by decide) false).1 2 true (by decide)
  exact hbulk.mpr ((inStep_iff_of_lt hq (by decide) (by decide) (by decide) true).mpr (by decide))

/-- A byte is left behind another one, and `pops` does not give it. -/
theorem not_agrees_after_pop : ¬ Agrees ⟨true, [5, 7], 1⟩ 1 1 false true := by
  intro h
  have hread : (1 : Nat) * 1 ≤ remain ⟨true, [5, 7], 1⟩ := by decide
  rw [Agrees, if_pos hread] at h
  obtain ⟨values, q', -, hvalues⟩ := h
  have hthrows : pops ⟨true, [5, 7], 1⟩ 1 1 false true =
      some (.error (.outOfRange "ByteQueue : Byte Out of Range"), ⟨true, [5, 7], 1⟩) := rfl
  rw [hthrows] at hvalues
  cases hvalues

end ByteQueue
end DrgbServer.Utils
