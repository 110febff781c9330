import DrgbServer.Lib.OrderedSet
import DrgbServer.Utils.MyTypes

/-! # `MyMatchMaker`: the waiting players and the matches made

`wait_count` is a shared pointer, so copies of a `queue_element` share their
counter; counters live in a list that only grows and a pointer is an index.
`ratio` writes the counter of a player without games, and so does every
comparison of the `std::set`: which elements an insertion compares depends on
the shape of its tree and is an argument of `enter`. A `double` operation is the
exact one on rationals followed by `rnd`; nothing here depends on what it rounds. -/
namespace DrgbServer.Match
open DrgbServer.Utils DrgbServer.Lib

/-- Rounding of `double` operations and `queue_element::Interpolate`. -/
structure Arith where
  rnd : ℚ → ℚ
  interpolate : ℚ

structure QueueElement where
  id : AccountId
  win : Int
  draw : Int
  loose : Int
  waitCount : Nat
deriving DecidableEq

abbrev MatchPair := QueueElement × QueueElement

namespace QueueElement

/-- The `int` sum of the three statistics. -/
def games (e : QueueElement) : Int := (e.win + e.loose + e.draw).bmod (2 ^ 32)

def ratio (ar : Arith) (e : QueueElement) : ℚ :=
  ar.rnd (e.win / if e.games = 0 then 1 else e.games)

/-- What `ratio` does to the counters. -/
def touch (e : QueueElement) (counts : List Int) : List Int :=
  if e.games = 0 then counts.set e.waitCount 10 else counts

/-- `operator<`. -/
def less (ar : Arith) (lhs rhs : QueueElement) : Bool :=
  if lhs.ratio ar = rhs.ratio ar then decide (lhs.id < rhs.id)
  else decide (lhs.ratio ar < rhs.ratio ar)

def coverage (ar : Arith) (e : QueueElement) (counts : List Int) : ℚ :=
  ar.rnd ((counts.getD e.waitCount 0 : ℤ) * ar.interpolate)

/-- `isMatchable`, on the counters after its calls of `ratio`. -/
def isMatchable (ar : Arith) (lhs rhs : QueueElement) (counts : List Int) : Bool :=
  decide (|ar.rnd (lhs.ratio ar - rhs.ratio ar)| ≤
    max (lhs.coverage ar counts) (rhs.coverage ar counts))

/-- `Wait`. -/
def wait (counts : List Int) (e : QueueElement) : List Int :=
  counts.modify e.waitCount fun c => (c + 1).bmod (2 ^ 32)

@[simp] theorem length_wait (counts : List Int) (e : QueueElement) :
    (wait counts e).length = counts.length := List.length_modify _ _ _

@[simp] theorem length_foldl_wait (es : List QueueElement) (counts : List Int) :
    (es.foldl wait counts).length = counts.length := by
  induction es generalizing counts with
  | nil => rfl
  | cons f rest ih => exact (ih (wait counts f)).trans (length_wait counts f)

end QueueElement

structure MyMatchMaker where
  waitQueue : List QueueElement
  matchQueue : List MatchPair
  counts : List Int
deriving DecidableEq

namespace MyMatchMaker

def start : MyMatchMaker := ⟨[], [], []⟩

/-- The counters after the comparisons of an insertion with the elements at the
positions `visited`. -/
def compared (mm : MyMatchMaker) (elem : QueueElement) (visited : List Nat) : List Int :=
  let met := visited.filterMap (mm.waitQueue[·]?)
  (if met.isEmpty then [] else elem :: met).foldl (fun counts e => e.touch counts) mm.counts

def insert (ar : Arith) (mm : MyMatchMaker) (elem : QueueElement) (visited : List Nat) :
    MyMatchMaker :=
  { mm with
    waitQueue := OrderedSet.insert (QueueElement.less ar) elem mm.waitQueue
    counts := mm.compared elem visited }

/-- `Enter(id, win, draw, loose)`. -/
def enter (ar : Arith) (mm : MyMatchMaker) (id : AccountId) (win draw loose : Int)
    (visited : List Nat) : MyMatchMaker :=
  if id ≤ 0 then mm
  else insert ar { mm with counts := mm.counts ++ [1] } ⟨id, win, draw, loose, mm.counts.length⟩
    visited

/-- `Enter(elem)`. -/
def enterElem (ar : Arith) (mm : MyMatchMaker) (elem : QueueElement) (visited : List Nat) :
    MyMatchMaker :=
  if elem.id ≤ 0 then mm else mm.insert ar elem visited

/-- `Exit`: the first element with the id leaves `wait_queue`. -/
def exit (mm : MyMatchMaker) (id : AccountId) : MyMatchMaker :=
  { mm with waitQueue := mm.waitQueue.eraseP fun e => e.id == id }

/-- The inner loop of `Process`: the first partner of `i`, with what stands before
and after it. -/
def scan (ar : Arith) (i : QueueElement) :
    List QueueElement → List Int →
      Option (List QueueElement × QueueElement × List QueueElement) × List Int
  | [], counts => (none, counts)
  | j :: rest, counts =>
    let counts := j.touch (i.touch counts)
    if i.isMatchable ar j counts then (some ([], j, rest), counts)
    else match scan ar i rest counts with
      | (none, counts) => (none, counts)
      | (some (before, k, after), counts) => (some (j :: before, k, after), counts)

theorem scan_eq_some {ar : Arith} {i : QueueElement} {l : List QueueElement} {counts counts' : List Int}
    {before after : List QueueElement} {j : QueueElement}
    (h : scan ar i l counts = (some (before, j, after), counts')) :
    l = before ++ j :: after := by
  induction l generalizing counts before with
  | nil => cases h
  | cons k rest ih =>
    rw [scan] at h
    split at h
    · cases h
      rfl
    · split at h
      · cases h
      · rename_i hr
        cases h
        rw [ih hr]
        rfl

/-- The outer loop of `Process`: the matches in the order they are pushed, the
elements left, and the counters. -/
def pairUp (ar : Arith) (l : List QueueElement) (counts : List Int) :
    List MatchPair × List QueueElement × List Int :=
  match l with
  | [] => ([], [], counts)
  | i :: rest =>
    match _h : scan ar i rest counts with
    | (none, counts) =>
      let done := pairUp ar rest counts
      (done.1, i :: done.2.1, done.2.2)
    | (some (before, j, after), counts) =>
      let done := pairUp ar (before ++ after) counts
      ((i, j) :: done.1, done.2)
termination_by l.length
decreasing_by
  · exact Nat.lt_succ_self _
  · rw [scan_eq_some _h]
    simp only [List.length_cons, List.length_append]
    omega

def process (ar : Arith) (mm : MyMatchMaker) : MyMatchMaker :=
  let (matched, kept, counts) := pairUp ar mm.waitQueue mm.counts
  ⟨kept, mm.matchQueue ++ matched, kept.foldl QueueElement.wait counts⟩

def isThereMatch (mm : MyMatchMaker) : Bool := !mm.matchQueue.isEmpty

/-- `GetMatch`; two empty elements with counters of their own where there is none. -/
def getMatch (mm : MyMatchMaker) : MatchPair × MyMatchMaker :=
  match mm.matchQueue with
  | [] => ((⟨0, 0, 0, 0, mm.counts.length⟩, ⟨0, 0, 0, 0, mm.counts.length + 1⟩),
      { mm with counts := mm.counts ++ [1, 1] })
  | front :: _ => (front, mm)

@[simp] theorem getMatch_waitQueue (mm : MyMatchMaker) :
    mm.getMatch.2.waitQueue = mm.waitQueue := by
  unfold getMatch; split <;> rfl

@[simp] theorem getMatch_matchQueue (mm : MyMatchMaker) :
    mm.getMatch.2.matchQueue = mm.matchQueue := by
  unfold getMatch; split <;> rfl

theorem getMatch_mem {mm : MyMatchMaker} (h : mm.isThereMatch = true) :
    mm.getMatch.1 ∈ mm.matchQueue := by
  unfold getMatch
  unfold isThereMatch at h
  split <;> simp_all

theorem matchQueue_eq_cons {mm : MyMatchMaker} (h : mm.isThereMatch = true) :
    ∃ rest, mm.matchQueue = mm.getMatch.1 :: rest := by
  unfold isThereMatch at h
  unfold getMatch
  split
  · rename_i hempty
    rw [hempty] at h
    cases h
  · rename_i front rest hcons
    exact ⟨rest, hcons⟩

def popMatch (mm : MyMatchMaker) : MyMatchMaker := { mm with matchQueue := mm.matchQueue.tail }

def size (mm : MyMatchMaker) : Nat := mm.waitQueue.length

/-! ## The order of `wait_queue` -/

/-- What `operator<` orders by: the ratio, then the id. -/
def key (ar : Arith) (e : QueueElement) : ℚ ×ₗ ℕ := toLex (e.ratio ar, e.id)

theorem less_ordersBy (ar : Arith) : OrderedSet.OrdersBy (QueueElement.less ar) (key ar) := by
  intro x y
  rw [key, key, Prod.Lex.toLex_lt_toLex, QueueElement.less]
  split
  · rename_i h
    simp [h]
  · rename_i h
    simp [h]

theorem key_eq_iff {ar : Arith} {x y : QueueElement} :
    key ar x = key ar y ↔ x.ratio ar = y.ratio ar ∧ x.id = y.id := by
  simp [key]

theorem mem_enterElem_of_mem (ar : Arith) {mm : MyMatchMaker} {e : QueueElement}
    (h : e ∈ mm.waitQueue) (elem : QueueElement) (visited : List Nat) :
    e ∈ (mm.enterElem ar elem visited).waitQueue := by
  unfold enterElem
  split
  · exact h
  · exact OrderedSet.mem_insert_of_mem _ h

theorem mem_enter_of_mem (ar : Arith) {mm : MyMatchMaker} {e : QueueElement}
    (h : e ∈ mm.waitQueue) (id : AccountId) (win draw loose : Int) (visited : List Nat) :
    e ∈ (mm.enter ar id win draw loose visited).waitQueue := by
  unfold enter
  split
  · exact h
  · exact OrderedSet.mem_insert_of_mem _ h

theorem size_le_enter (ar : Arith) (mm : MyMatchMaker) (id : AccountId) (win draw loose : Int)
    (visited : List Nat) : mm.size ≤ (mm.enter ar id win draw loose visited).size := by
  unfold enter
  split
  · exact le_refl _
  · exact OrderedSet.length_le_insert _ _ _

theorem matchQueue_enter (ar : Arith) (mm : MyMatchMaker) (id : AccountId) (win draw loose : Int)
    (visited : List Nat) : (mm.enter ar id win draw loose visited).matchQueue = mm.matchQueue := by
  unfold enter
  split <;> rfl

/-- Who enters waits, by this element or by an equivalent one. -/
theorem exists_mem_enter (ar : Arith) (mm : MyMatchMaker) {id : AccountId} (hid : 0 < id)
    (win draw loose : Int) (visited : List Nat) :
    ∃ e ∈ (mm.enter ar id win draw loose visited).waitQueue, e.id = id := by
  obtain ⟨e, he, hk⟩ := OrderedSet.exists_mem_insert (less_ordersBy ar) mm.waitQueue
    ⟨id, win, draw, loose, mm.counts.length⟩
  rw [enter, if_neg (not_le.mpr hid)]
  exact ⟨e, he, (key_eq_iff.mp hk).2⟩

/-! ## What `Process` keeps -/

/-- The two elements of each match, in order. -/
def players (ms : List MatchPair) : List QueueElement := ms.flatMap fun m => [m.1, m.2]

theorem mem_players {ms : List MatchPair} {e : QueueElement} :
    e ∈ players ms ↔ ∃ m ∈ ms, e = m.1 ∨ e = m.2 := by
  simp [players]

theorem pairUp_of_none {ar : Arith} {i : QueueElement} {rest : List QueueElement}
    {counts counts' : List Int} (h : scan ar i rest counts = (none, counts')) :
    pairUp ar (i :: rest) counts =
      ((pairUp ar rest counts').1, i :: (pairUp ar rest counts').2.1,
        (pairUp ar rest counts').2.2) := by
  rw [pairUp]
  split <;> rename_i hs <;> rw [h] at hs <;> cases hs
  rfl

theorem pairUp_of_some {ar : Arith} {i j : QueueElement} {rest before after : List QueueElement}
    {counts counts' : List Int}
    (h : scan ar i rest counts = (some (before, j, after), counts')) :
    pairUp ar (i :: rest) counts =
      ((i, j) :: (pairUp ar (before ++ after) counts').1,
        (pairUp ar (before ++ after) counts').2) := by
  rw [pairUp]
  split <;> rename_i hs <;> rw [h] at hs <;> cases hs
  rfl

/-- **Conservation**: the players matched and those left are the players there were. -/
theorem pairUp_perm (ar : Arith) (l : List QueueElement) (counts : List Int) :
    (players (pairUp ar l counts).1 ++ (pairUp ar l counts).2.1).Perm l := by
  induction l, counts using pairUp.induct ar with
  | case1 counts =>
    rw [pairUp]
    exact List.Perm.refl _
  | case2 counts i rest counts' h ih =>
    rw [pairUp_of_none h]
    exact List.perm_middle.trans (ih.cons i)
  | case3 counts i rest before j after counts' h ih =>
    rw [pairUp_of_some h, scan_eq_some h]
    exact ((ih.cons j).cons i).trans (List.perm_middle.symm.cons i)

/-- The players left stand in their old order. -/
theorem pairUp_sublist (ar : Arith) (l : List QueueElement) (counts : List Int) :
    (pairUp ar l counts).2.1.Sublist l := by
  induction l, counts using pairUp.induct ar with
  | case1 counts =>
    rw [pairUp]
  | case2 counts i rest counts' h ih =>
    rw [pairUp_of_none h]
    exact ih.cons_cons i
  | case3 counts i rest before j after counts' h ih =>
    rw [pairUp_of_some h, scan_eq_some h]
    refine (ih.trans ?_).cons i
    exact (List.Sublist.refl before).append (List.sublist_cons_self j after)

end MyMatchMaker
end DrgbServer.Match
