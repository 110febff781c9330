import DrgbServer.Utils.Bulk

/-! # What is pushed in front

`push_head` inserts at the beginning of the vector and leaves the pointer where it is, so
what is popped next is as far behind the inserted bytes as the pointer has come. -/
namespace DrgbServer.Utils
namespace ByteQueue
open DrgbServer.Lib.Counting

/-- A value with the endianness that it is handed over with. -/
structure Item where
  image : List Byte
  endian : Bool
  pos : 1 ≤ image.length

/-- Its bytes in the queue. -/
def Item.stored (item : Item) : List Byte := oriented item.endian item.image

@[simp] theorem Item.length_stored (item : Item) : item.stored.length = item.image.length :=
  length_oriented ..

/-! ## The source -/

/-- The loop of `push_head` for the last `n` numbers from `i` on; `insert` throws where the vector
is full. -/
def insertFrom (value : Nat → Option Byte) : Nat → Nat → List Byte →
    Option (Except Exn (List Byte))
  | 0, _, bytes => some (.ok bytes)
  | n + 1, i, bytes => (value i).bind fun b =>
    if bytes.length < 2 ^ 63 - 1 then insertFrom value n (i + 1) (bytes.insertIdx i b)
    else some (.error (.stdOther "vector::_M_realloc_insert"))

/-- `push_head<T>` of a value with these bytes. -/
def pushHead (q : ByteQueue) (p : List Byte) (endian : Bool) : Option (Except Exn ByteQueue) :=
  let len := lenOf p.length
  (insertFrom (pushed p len endian) len 0 q.bytes).map fun result =>
    result.map fun bytes => { q with bytes }

/-- `push_head` of values in order. -/
def pushHeads : List Item → ByteQueue → Option (Except Exn ByteQueue)
  | [], q => some (.ok q)
  | item :: rest, q => (q.pushHead item.image item.endian).bind fun
    | .error e => some (.error e)
    | .ok q' => pushHeads rest q'

/-- `pop` with the types and endiannesses of values in order. -/
def popItems : List Item → ByteQueue → Option (Except Exn (List (List Byte)) × ByteQueue)
  | [], q => some (.ok [], q)
  | item :: rest, q => (q.popData item.image.length false item.endian).bind fun
    | (.error e, q') => some (.error e, q')
    | (.ok b, q') => (popItems rest q').map fun r => (r.1.map (b :: ·), r.2)

/-- The unread bytes. -/
def unread (q : ByteQueue) : List Byte := q.bytes.drop q.ptr

/-! ## The bytes in front -/

theorem insertIdx_append (before rest : List Byte) (b : Byte) :
    (before ++ rest).insertIdx before.length b = before ++ b :: rest := by
  induction before with
  | nil => rfl
  | cons x before ih =>
    rw [List.cons_append, List.length_cons, List.insertIdx_succ_cons, ih, List.cons_append]

/-- The loop of `push_head` inserts the values in order. -/
theorem insertFrom_eq {value : Nat → Option Byte} {values rest : List Byte} (before : List Byte)
    (h : ∀ i < values.length, value (before.length + i) = values[i]?)
    (hlen : (before ++ rest).length < 2 ^ 63) :
    insertFrom value values.length before.length (before ++ rest) = some (
      if (before ++ rest).length + values.length < 2 ^ 63 then .ok (before ++ values ++ rest)
      else .error (.stdOther "vector::_M_realloc_insert")) := by
  induction values generalizing before with
  | nil =>
    rw [List.length_nil, insertFrom, Nat.add_zero, if_pos hlen, List.append_nil]
  | cons b values ih =>
    have hvalue : value before.length = some b := h 0 (Nat.succ_pos _)
    rw [List.length_cons, insertFrom, hvalue, Option.bind_some]
    by_cases hroom : (before ++ rest).length < 2 ^ 63 - 1
    · have hnext : (before ++ rest).insertIdx before.length b = before ++ [b] ++ rest := by
        rw [insertIdx_append, List.append_assoc, List.singleton_append]
      have hplace : before.length + 1 = (before ++ [b]).length := by simp
      have hgrown : (before ++ [b] ++ rest).length = (before ++ rest).length + 1 := by
        simp only [List.length_append, List.length_singleton]
        omega
      rw [if_pos hroom, hnext, hplace, ih (before ++ [b]) ?_ (by omega), hgrown, Nat.add_assoc,
        Nat.add_comm 1]
      · simp only [List.append_assoc, List.singleton_append]
      · intro i hi
        rw [← hplace, Nat.add_assoc, Nat.add_comm 1, h (i + 1) (by simpa using hi)]
        rfl
    · rw [if_neg hroom, if_neg (by omega)]

/-- `push_head` puts the bytes in front of the others. -/
theorem pushHead_eq {q : ByteQueue} (hq : q.bytes.length < 2 ^ 63) {item : Item}
    (hitem : item.image.length ≤ 2 ^ 31) :
    q.pushHead item.image item.endian = some (
      if q.bytes.length + item.image.length < 2 ^ 63 then
        .ok { q with bytes := item.stored ++ q.bytes }
      else .error (.stdOther "vector::_M_realloc_insert")) := by
  have hwhole : lenOf item.image.length = item.image.length := Nat.mod_eq_of_lt (by omega)
  have hvalue : ∀ i < item.stored.length,
      pushed item.image item.image.length item.endian (([] : List Byte).length + i) =
        item.stored[i]? := by
    intro i hi
    rw [item.length_stored] at hi
    rw [List.length_nil, Nat.zero_add]
    exact pushed_eq hitem item.endian hi
  have hloop := insertFrom_eq [] hvalue hq
  rw [item.length_stored, List.nil_append, List.nil_append, List.length_nil] at hloop
  rw [pushHead, hwhole, hloop, Option.map_some]
  split_ifs
  · rfl
  · rfl

/-! ## The values in front -/

/-- The bytes of values in the order of their `push_head`. -/
def prepended (items : List Item) : List Byte := items.reverse.flatMap Item.stored

theorem prepended_cons (item : Item) (rest : List Item) :
    prepended (item :: rest) = prepended rest ++ item.stored := by
  rw [prepended, List.reverse_cons, List.flatMap_append, List.flatMap_singleton, prepended]

theorem pushHeads_eq {items : List Item} (hitems : ∀ item ∈ items, item.image.length ≤ 2 ^ 31)
    {q : ByteQueue} (hq : q.bytes.length < 2 ^ 63) :
    pushHeads items q = some (
      if q.bytes.length + (prepended items).length < 2 ^ 63 then
        .ok { q with bytes := prepended items ++ q.bytes }
      else .error (.stdOther "vector::_M_realloc_insert")) := by
  induction items generalizing q with
  | nil => exact congrArg some (if_pos hq).symm
  | cons item rest ih =>
    have hlength : (prepended (item :: rest)).length =
        (prepended rest).length + item.image.length := by
      rw [prepended_cons, List.length_append, item.length_stored]
    rw [pushHeads, pushHead_eq hq (hitems item List.mem_cons_self), Option.bind_some]
    by_cases hroom : q.bytes.length + item.image.length < 2 ^ 63
    · have hgrown : (item.stored ++ q.bytes).length = q.bytes.length + item.image.length := by
        rw [List.length_append, item.length_stored, Nat.add_comm]
      rw [if_pos hroom]
      dsimp only
      rw [ih (fun other hother => hitems other (List.mem_cons_of_mem item hother))
        (show (item.stored ++ q.bytes).length < 2 ^ 63 by rwa [hgrown])]
      dsimp only
      rw [hgrown, hlength, Nat.add_assoc, Nat.add_comm item.image.length, prepended_cons,
        List.append_assoc]
    · rw [if_neg hroom, if_neg (by omega)]

/-! ## What is popped -/

/-- A `pop` that gives all bytes of its type has read them where the pointer is as an `int`. -/
theorem readable_of_popData {q q' : ByteQueue} {size : Nat} {endian : Bool} {b : List Byte}
    (hpos : 1 ≤ size) (h : q.popData size false endian = some (.ok b, q'))
    (hb : b.length = size) : Readable size endian q.ptr := by
  rw [popData] at h
  by_cases hcheck : (q.ptr + lenOf size) % 2 ^ 64 > q.bytes.length
  · rw [if_pos hcheck] at h
    cases h
  · rw [if_neg hcheck] at h
    obtain ⟨values, hread, hvalues⟩ := Option.map_eq_some_iff.mp h
    cases hvalues
    have hlen := (mapM_range_eq_some_iff.mp hread).1
    rw [hb] at hlen
    rw [← hlen] at hread
    exact readable_of_popped hpos (exists_mapM_range_iff.mp ⟨_, hread⟩)

/-- The first value and the others. -/
theorem popItems_cons {item : Item} {rest : List Item} {q q' : ByteQueue}
    (h : popItems (item :: rest) q = some (.ok ((item :: rest).map Item.image), q')) :
    ∃ next, q.popData item.image.length false item.endian = some (.ok item.image, next) ∧
      popItems rest next = some (.ok (rest.map Item.image), q') := by
  rw [popItems] at h
  obtain ⟨⟨first, next⟩, hfirst, h⟩ := Option.bind_eq_some_iff.mp h
  cases first with
  | error e => cases h
  | ok b =>
    obtain ⟨⟨values, last⟩, hrest, hvalues⟩ := Option.map_eq_some_iff.mp h
    cases values with
    | error e => cases hvalues
    | ok values =>
      obtain ⟨hcons, hlast⟩ := Prod.mk.inj hvalues
      obtain ⟨hb, hvalues⟩ := List.cons.inj (Except.ok.inj hcons)
      exact ⟨next, hb ▸ hfirst, hvalues ▸ hlast ▸ hrest⟩

theorem length_le_of_popItems {items : List Item} {q q' : ByteQueue}
    (h : popItems items q = some (.ok (items.map Item.image), q')) :
    ∀ item ∈ items, item.image.length ≤ 2 ^ 31 := by
  induction items generalizing q with
  | nil => exact List.forall_mem_nil _
  | cons item rest ih =>
    obtain ⟨next, hfirst, hrest⟩ := popItems_cons h
    obtain ⟨hnonneg, hwithin⟩ := readable_of_popData item.pos hfirst rfl
    have hlimit := limit_le item.endian
    exact List.forall_mem_cons.mpr ⟨by omega, ih hrest⟩

/-- Values one after the other from a place on, where `pop` looks for them. -/
def Found (contents : List Byte) : Nat → List Item → Prop
  | _, [] => True
  | place, item :: rest =>
    (Readable item.image.length item.endian place ∧
      (contents.drop (toInt place).toNat).take item.image.length = item.stored) ∧
    Found contents (place + item.image.length) rest

/-- The number of bytes that values take. -/
def total (items : List Item) : Nat := (items.map fun item => item.image.length).sum

theorem length_prepended (items : List Item) : (prepended items).length = total items := by
  induction items with
  | nil => rfl
  | cons item rest ih =>
    rw [prepended_cons, List.length_append, ih, item.length_stored, Nat.add_comm, total, total,
      List.map_cons, List.sum_cons]

theorem total_reverse (items : List Item) : total items.reverse = total items := by
  rw [total, List.map_reverse, List.sum_reverse, total]

theorem total_cons (item : Item) (rest : List Item) :
    total (item :: rest) = item.image.length + total rest := by
  rw [total, List.map_cons, List.sum_cons, total]

theorem oriented_stored (item : Item) : oriented item.endian item.stored = item.image :=
  oriented_oriented ..

theorem length_le_of_found {contents : List Byte} {place : Nat} {items : List Item}
    (h : Found contents place items) : ∀ item ∈ items, item.image.length ≤ 2 ^ 31 := by
  induction items generalizing place with
  | nil => exact List.forall_mem_nil _
  | cons item rest ih =>
    obtain ⟨⟨⟨hnonneg, hwithin⟩, -⟩, hrest⟩ := h
    have hlimit := limit_le item.endian
    exact List.forall_mem_cons.mpr ⟨by omega, ih hrest⟩

/-- The values that are found are popped. -/
theorem popItems_of_found {items : List Item} {q : ByteQueue} (hq : q.Valid)
    (hfit : q.ptr + total items ≤ q.bytes.length) (h : Found q.bytes q.ptr items) :
    popItems items q =
      some (.ok (items.map Item.image), { q with ptr := q.ptr + total items }) := by
  induction items generalizing q with
  | nil => rfl
  | cons item rest ih =>
    obtain ⟨⟨hread, hbytes⟩, hrest⟩ := h
    rw [total_cons] at hfit ⊢
    have hnext : Valid { q with ptr := q.ptr + item.image.length } :=
      ⟨show q.ptr + item.image.length ≤ q.bytes.length by omega, hq.length_lt⟩
    have hwindow : q.windowAt (toInt q.ptr).toNat item.image.length = item.stored := hbytes
    rw [popItems, popData_of_readable hq (by omega) hread, Option.bind_some, hwindow,
      oriented_stored]
    dsimp only
    rw [ih hnext (show q.ptr + item.image.length + total rest ≤ q.bytes.length by omega) hrest]
    dsimp only
    rw [Nat.add_assoc]
    rfl

/-- And only these. -/
theorem found_of_popItems {items : List Item} {q q' : ByteQueue} (hq : q.Valid)
    (hfit : q.ptr + total items ≤ q.bytes.length)
    (h : popItems items q = some (.ok (items.map Item.image), q')) :
    Found q.bytes q.ptr items := by
  induction items generalizing q q' with
  | nil => trivial
  | cons item rest ih =>
    rw [total_cons] at hfit
    obtain ⟨next, hfirst, hrest⟩ := popItems_cons h
    have hread := readable_of_popData item.pos hfirst rfl
    rw [popData_of_readable hq (by omega) hread] at hfirst
    obtain ⟨hvalue, rfl⟩ := Prod.mk.inj (Option.some.inj hfirst)
    have hbytes : q.windowAt (toInt q.ptr).toNat item.image.length = item.stored :=
      oriented_inj ((Except.ok.inj hvalue).trans (oriented_stored item).symm)
    have hnext : Valid { q with ptr := q.ptr + item.image.length } :=
      ⟨show q.ptr + item.image.length ≤ q.bytes.length by omega, hq.length_lt⟩
    exact ⟨⟨hread, hbytes⟩,
      ih hnext (show q.ptr + item.image.length + total rest ≤ q.bytes.length by omega) hrest⟩

/-! ## The law -/

/-- After `push_head` of values the next `pop` give them backwards, and leave the unread bytes as
they were. -/
def Undone (q : ByteQueue) (items : List Item) : Prop :=
  ∃ pushed left, pushHeads items q = some (.ok pushed) ∧
    popItems items.reverse pushed = some (.ok (items.reverse.map Item.image), left) ∧
    left.unread = q.unread

/-- The vector has room for the values, and they stand where `pop` looks for them: as far behind
themselves as the pointer has come. -/
def Undoable (q : ByteQueue) (items : List Item) : Prop :=
  q.bytes.length + (prepended items).length < 2 ^ 63 ∧
    Found (prepended items ++ q.bytes) q.ptr items.reverse

theorem undone_iff {q : ByteQueue} (hq : q.Valid) (items : List Item) :
    q.Undone items ↔ q.Undoable items := by
  have hptr := hq.ptr_le
  have hlength := length_prepended items
  have htotal := total_reverse items
  have hgrown : (prepended items ++ q.bytes).length = total items + q.bytes.length := by
    rw [List.length_append, hlength]
  constructor
  · intro h
    obtain ⟨pushed, left, hpush, hpop, -⟩ := h
    have hitems : ∀ item ∈ items, item.image.length ≤ 2 ^ 31 := by
      intro item hitem
      exact length_le_of_popItems hpop item (List.mem_reverse.mpr hitem)
    rw [pushHeads_eq hitems hq.length_lt] at hpush
    by_cases hroom : q.bytes.length + (prepended items).length < 2 ^ 63
    · rw [if_pos hroom] at hpush
      cases hpush
      refine ⟨hroom, found_of_popItems ⟨?_, ?_⟩ ?_ hpop⟩
      all_goals
        dsimp only
        omega
    · rw [if_neg hroom] at hpush
      cases hpush
  · intro h
    obtain ⟨hroom, hfound⟩ := h
    have hitems : ∀ item ∈ items, item.image.length ≤ 2 ^ 31 := by
      intro item hitem
      exact length_le_of_found hfound item (List.mem_reverse.mpr hitem)
    have hvalid : Valid { q with bytes := prepended items ++ q.bytes } := by
      constructor
      all_goals
        dsimp only
        omega
    refine ⟨_, _, by rw [pushHeads_eq hitems hq.length_lt, if_pos hroom],
      popItems_of_found hvalid ?_ hfound, ?_⟩
    · dsimp only
      omega
    · rw [unread, unread]
      dsimp only
      rw [htotal, ← hlength, Nat.add_comm, ← List.drop_drop, List.drop_left]

/-- Below 2^31 values are found where their bytes stand. -/
theorem found_iff_of_lt {contents : List Byte} {place : Nat} {items : List Item}
    (hsmall : place + total items < 2 ^ 31) :
    Found contents place items ↔
      (contents.drop place).take (total items) = items.flatMap Item.stored := by
  induction items generalizing place with
  | nil =>
    refine iff_of_true trivial ?_
    rw [total, List.map_nil, List.sum_nil, List.take_zero, List.flatMap_nil]
  | cons item rest ih =>
    rw [total_cons] at hsmall
    have hlimit := le_limit item.endian
    have hplace : toInt place = place := toInt_of_lt (by omega)
    have hread : Readable item.image.length item.endian place := ⟨by omega, by omega⟩
    rw [Found, ih (by omega), hplace, Int.toNat_natCast, and_iff_right hread, total_cons,
      List.take_add, List.drop_drop, List.flatMap_cons]
    constructor
    · intro hgiven
      obtain ⟨hfirst, hrest⟩ := hgiven
      rw [hfirst, hrest]
    · intro h
      have hlength := congrArg List.length h
      have hrest : (rest.flatMap Item.stored).length = total rest := by
        have hlength := length_prepended rest.reverse
        rwa [prepended, List.reverse_reverse, total_reverse] at hlength
      rw [List.length_append, List.length_append, List.length_take, List.length_take,
        List.length_drop, List.length_drop, item.length_stored, hrest] at hlength
      refine List.append_inj h ?_
      rw [List.length_take, List.length_drop, item.length_stored]
      omega

/-- The bytes before the pointer and the new ones: the new ones are found where they also stand at
the end of these. -/
theorem undoable_iff_of_lt {q : ByteQueue} (hq : q.Valid) {items : List Item}
    (hsmall : q.bytes.length + (prepended items).length < 2 ^ 31) :
    q.Undoable items ↔ prepended items <:+ prepended items ++ q.bytes.take q.ptr := by
  have hptr := hq.ptr_le
  have hlength := length_prepended items
  have htotal := total_reverse items
  rw [Undoable, and_iff_right (by omega), found_iff_of_lt (by omega), htotal, ← hlength]
  have hread : (prepended items ++ q.bytes.take q.ptr).drop q.ptr =
      ((prepended items ++ q.bytes).drop q.ptr).take (prepended items).length := by
    rw [← List.take_length_add_append, List.drop_take, Nat.add_sub_cancel]
  rw [List.suffix_iff_eq_drop, List.length_append, List.length_take, Nat.min_eq_left hptr,
    Nat.add_sub_cancel_left, hread]
  exact eq_comm

/-- **Where prepending undoes popping.** Below 2^31 bytes this is where the values also stand at the
end of what has been read with them in front, as they do where nothing has been read. -/
theorem prepending_undoes_iff {q : ByteQueue} (hq : q.Valid) (items : List Item) :
    (q.Undone items ↔ q.Undoable items) ∧
    (q.bytes.length + (prepended items).length < 2 ^ 31 →
      (q.Undone items ↔ prepended items <:+ prepended items ++ q.bytes.take q.ptr) ∧
      (q.ptr = 0 → q.Undone items)) := by
  refine ⟨undone_iff hq items, fun hsmall => ?_⟩
  have hbelow := undoable_iff_of_lt hq hsmall
  refine ⟨(undone_iff hq items).trans hbelow, fun hstart => ?_⟩
  rw [undone_iff hq items, hbelow, hstart, List.take_zero, List.append_nil]

def byteItem (b : Byte) : Item := ⟨[b], true, Nat.le_refl 1⟩

/-- Two bytes in front of an unread one. -/
theorem prepending_undoes_iff_two : Undone ⟨true, [9], 0⟩ [byteItem 7, byteItem 8] :=
  ((prepending_undoes_iff ⟨by decide, by decide⟩ [byteItem 7, byteItem 8]).2 (by decide)).2 rfl

/-- A byte is pushed and popped, and another one is pushed in front: it is the first one that comes
again. -/
theorem not_undone_after_pop :
    (empty.pushData [5] true).bind (·.popData 1 false true) =
        some (.ok [5], ⟨true, [5], 1⟩) ∧
      ¬ Undone ⟨true, [5], 1⟩ [byteItem 7] := by
  refine ⟨by decide +kernel, ?_⟩
  rw [undone_iff ⟨by decide, by decide⟩, undoable_iff_of_lt ⟨by decide, by decide⟩ (by decide)]
  decide

end ByteQueue
end DrgbServer.Utils
