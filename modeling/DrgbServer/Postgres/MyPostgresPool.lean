import DrgbServer.Lib.Transition

/-! # `MyPostgresPool`: which connections are free

`waitPool` holds the indices of the free connections. `GetConnection` takes one under the lock
and constructs the `MyPostgres` object after releasing it; the destructor of the object gives the
index back. The constructor starts a transaction, which may throw: the object then never existed,
its destructor does not run and nobody gives the index back.

The predicate `GetConnection` waits for is a `static` closure: it is made by the first call in the
process and keeps the `this` of that call for good. The pools of a process are therefore modelled
together. Another pool waits for the first one's `waitPool` and may find its own empty.

`conserved_iff` says in which runs no index of a pool is lost or doubled. -/
namespace DrgbServer.Postgres
open DrgbServer.Lib.Transition

/-- A `pqxx::connection` behind its pointer: none, or one that is open or not. -/
inductive Connection where
  | null
  | opened
  | down
deriving DecidableEq

structure MyPostgresPool where
  isRunning : Bool
  poolSize : Nat
  connectionPool : List Connection
  waitPool : List Nat
  /-- the indices of the `MyPostgres` objects whose constructor runs -/
  building : List Nat
  /-- the indices of those that are constructed and have not given the index back -/
  live : List Nat
  /-- the front of an empty `waitPool`, or a pool that is gone, has been read -/
  undefined : Bool

namespace MyPostgresPool

inductive Label where
  /-- `GetConnection` up to its wait -/
  | call
  /-- from there to the construction of the object; `reconnect` is what a new connection would be,
  `null` when its construction throws -/
  | getConnection (reconnect : Connection)
  /-- `GetConnection` has waited in vain -/
  | timeout
  | constructed (ptr : Nat)
  | constructorThrows (ptr : Nat)
  /-- `~MyPostgres` -/
  | destroy (ptr : Nat)
  /-- a connection breaks -/
  | disconnect (ptr : Nat)
  /-- `~MyPostgresPool` -/
  | stop
deriving DecidableEq

/-- The loop of the constructor. -/
def fill (connect : Nat → Connection) : Nat → List Connection × List Nat
  | 0 => ([], [])
  | i + 1 =>
    let (connectionPool, waitPool) := fill connect i
    (connectionPool ++ [connect i], waitPool ++ [i])

def start (size : Nat) (connect : Nat → Connection) : MyPostgresPool where
  isRunning := true
  poolSize := size
  connectionPool := (fill connect size).1
  waitPool := (fill connect size).2
  building := []
  live := []
  undefined := false

/-- What `GetConnection` waits for. -/
def predicate (p : MyPostgresPool) : Bool := !p.waitPool.isEmpty || !p.isRunning

/-- `waitPool.pop()`, and the lock is released. -/
def take (p : MyPostgresPool) (ptr : Nat) : MyPostgresPool :=
  { p with waitPool := p.waitPool.tail, building := p.building ++ [ptr] }

/-- The front connection is not open: a new one takes its place and is taken if it is open. -/
def reconnect (p : MyPostgresPool) (ptr : Nat) (connection : Connection) : MyPostgresPool :=
  let p := { p with connectionPool := p.connectionPool.set ptr connection }
  if connection = .opened then p.take ptr else p

/-- `GetConnection` behind its wait. -/
def getConnection (p : MyPostgresPool) (connection : Connection) : MyPostgresPool :=
  if !p.isRunning then p
  else match p.waitPool with
    | [] => { p with undefined := true }
    | ptr :: _ =>
      if p.connectionPool[ptr]? = some .opened then p.take ptr else p.reconnect ptr connection

/-- The steps that concern one pool only. -/
def step (p : MyPostgresPool) : Label → Option MyPostgresPool
  | .call | .timeout => some p
  | .getConnection connection => some (p.getConnection connection)
  | .constructed ptr =>
    if ptr ∈ p.building then
      some { p with building := p.building.erase ptr, live := p.live ++ [ptr] }
    else none
  | .constructorThrows ptr =>
    if ptr ∈ p.building then some { p with building := p.building.erase ptr } else none
  | .destroy ptr =>
    if ptr ∈ p.live then
      some { p with live := p.live.erase ptr, waitPool := p.waitPool ++ [ptr] }
    else none
  | .disconnect ptr => some { p with connectionPool := p.connectionPool.set ptr .down }
  | .stop => some { p with isRunning := false }

def getPoolUsage (p : MyPostgresPool) : Nat := p.poolSize - p.waitPool.length

/-- The indices held by objects, from the start of the construction to the end of the
destructor. -/
def held (p : MyPostgresPool) : List Nat := p.building ++ p.live

/-- Every index is once in `waitPool` or held by one object, and the usage is the number of
objects. Nothing is known of a pool after something undefined. -/
def Conserved (p : MyPostgresPool) : Prop :=
  (∀ i < p.poolSize, (p.waitPool ++ p.held).count i = 1) ∧ p.getPoolUsage = p.held.length ∧
    p.undefined = false

/-- The condition on a step of the pool itself. -/
def steady (p : MyPostgresPool) : Label → Prop
  | .constructorThrows _ => False
  | .getConnection _ => p.predicate = true
  | _ => True

/-- The invariant: the indices are accounted for one by one and all together. -/
structure Balanced (p : MyPostgresPool) : Prop where
  each : ∀ i, p.waitPool.count i + p.building.count i + p.live.count i =
    if i < p.poolSize then 1 else 0
  total : p.waitPool.length + p.building.length + p.live.length = p.poolSize
  defined : p.undefined = false

variable {p q : MyPostgresPool}

theorem fill_snd (connect : Nat → Connection) (n : Nat) : (fill connect n).2 = List.range n := by
  induction n with
  | zero => rfl
  | succ n ih => rw [fill, List.range_succ, ← ih]

theorem start_balanced (size : Nat) (connect : Nat → Connection) :
    (start size connect).Balanced := by
  have hw : (start size connect).waitPool = List.range size := fill_snd connect size
  refine ⟨fun i => ?_, ?_, rfl⟩
  · rw [hw, List.count_range]
    simp only [start, List.count_nil, Nat.add_zero]
    by_cases hi : i < size <;> simp [hi]
  · rw [hw, List.length_range]
    rfl

theorem Balanced.conserved (h : p.Balanced) : p.Conserved := by
  refine ⟨?_, ?_, h.defined⟩
  · intro i hi
    have := h.each i
    rw [if_pos hi] at this
    rw [held, List.count_append, List.count_append]
    omega
  · have := h.total
    rw [getPoolUsage, held, List.length_append]
    omega

/-- Neither `waitPool` nor an object is concerned. -/
theorem Balanced.frame (h : p.Balanced) (hn : q.poolSize = p.poolSize)
    (hw : q.waitPool = p.waitPool) (hb : q.building = p.building) (hl : q.live = p.live)
    (hu : q.undefined = p.undefined) : q.Balanced := by
  refine ⟨fun i => ?_, ?_, hu.trans h.defined⟩
  · rw [hn, hw, hb, hl]; exact h.each i
  · rw [hn, hw, hb, hl]; exact h.total

theorem Balanced.take (h : p.Balanced) {ptr : Nat} {rest : List Nat}
    (hw : p.waitPool = ptr :: rest) : (p.take ptr).Balanced := by
  have he := h.each
  have ht := h.total
  rw [hw] at ht
  refine ⟨fun i => ?_, ?_, h.defined⟩
  · have hi := he i
    simp only [MyPostgresPool.take, hw, List.tail_cons, List.count_append, List.count_cons,
      List.count_nil] at hi ⊢
    omega
  · simp only [MyPostgresPool.take, hw, List.tail_cons, List.length_append, List.length_cons,
      List.length_nil] at ht ⊢
    omega

theorem Balanced.getConnection (h : p.Balanced) (hwait : p.predicate = true)
    (connection : Connection) : (p.getConnection connection).Balanced := by
  unfold MyPostgresPool.getConnection
  split
  · exact h
  rename_i hrun
  split
  · rename_i hw
    simp [predicate, hw, hrun] at hwait
  rename_i ptr rest hw
  split
  · exact h.take hw
  · unfold MyPostgresPool.reconnect
    have hset : Balanced { p with connectionPool := p.connectionPool.set ptr connection } :=
      h.frame rfl rfl rfl rfl rfl
    dsimp only
    split
    · exact hset.take hw
    · exact hset

/-- An index that moves from one list to the end of another. -/
theorem count_move {a b : List Nat} {ptr : Nat} (h : ptr ∈ a) (i : Nat) :
    (a.erase ptr).count i + (b ++ [ptr]).count i = a.count i + b.count i := by
  have hp := (List.perm_cons_erase h).count_eq i
  rw [List.count_cons] at hp
  rw [List.count_append, List.count_singleton]
  omega

theorem length_move {a b : List Nat} {ptr : Nat} (h : ptr ∈ a) :
    (a.erase ptr).length + (b ++ [ptr]).length = a.length + b.length := by
  have hp := (List.perm_cons_erase h).length_eq
  rw [List.length_cons] at hp
  rw [List.length_append, List.length_singleton]
  omega

theorem step_balanced {l : Label} (h : p.Balanced) (hok : p.steady l)
    (hs : p.step l = some q) : q.Balanced := by
  cases l with
  | call | timeout =>
    cases hs
    exact h
  | getConnection connection =>
    cases hs
    exact h.getConnection hok connection
  | constructed ptr =>
    obtain ⟨hm, hs⟩ := Option.ite_none_right_eq_some.mp hs
    cases hs
    refine ⟨fun i => ?_, ?_, h.defined⟩
    · have := count_move (b := p.live) hm i
      have := h.each i
      dsimp only
      omega
    · have := length_move (b := p.live) hm
      have := h.total
      dsimp only
      omega
  | constructorThrows ptr => exact hok.elim
  | destroy ptr =>
    obtain ⟨hm, hs⟩ := Option.ite_none_right_eq_some.mp hs
    cases hs
    refine ⟨fun i => ?_, ?_, h.defined⟩
    · have := count_move (b := p.waitPool) hm i
      have := h.each i
      dsimp only
      omega
    · have := length_move (b := p.waitPool) hm
      have := h.total
      dsimp only
      omega
  | disconnect ptr =>
    cases hs
    exact h.frame rfl rfl rfl rfl rfl
  | stop =>
    cases hs
    exact h.frame rfl rfl rfl rfl rfl

/-- A constructor that throws takes its index out of circulation. -/
theorem not_conserved_of_throws {ptr : Nat} (h : p.Balanced)
    (hs : p.step (.constructorThrows ptr) = some q) : ¬ q.Conserved := by
  obtain ⟨hm, hs⟩ := Option.ite_none_right_eq_some.mp hs
  cases hs
  intro hc
  have hcount := h.each ptr
  have hin : 0 < p.building.count ptr := List.count_pos_iff.mpr hm
  have hlt : ptr < p.poolSize := by
    by_contra hlt
    rw [if_neg hlt] at hcount
    omega
  rw [if_pos hlt] at hcount
  have herase : (p.building.erase ptr).count ptr = p.building.count ptr - 1 := by
    rw [List.count_erase_self]
  have hone := hc.1 ptr hlt
  rw [held, List.count_append, List.count_append] at hone
  dsimp only at hone
  omega

/-- Without a free connection nothing may get through the wait. -/
theorem not_conserved_of_empty {connection : Connection} (h : p.predicate = false) :
    ¬ (p.getConnection connection).Conserved := by
  obtain ⟨hw, hr⟩ : p.waitPool = [] ∧ p.isRunning = true := by simpa [predicate] using h
  rintro ⟨-, -, hdefined⟩
  simp [getConnection, hw, hr] at hdefined

theorem not_conserved_of_not_steady {l : Label} (h : p.Balanced) (hok : ¬ p.steady l)
    (hs : p.step l = some q) : ¬ q.Conserved := by
  cases l with
  | constructorThrows ptr => exact not_conserved_of_throws h hs
  | getConnection connection =>
    cases hs
    exact not_conserved_of_empty (Bool.eq_false_iff.mpr hok)
  | call => exact absurd trivial hok
  | timeout => exact absurd trivial hok
  | constructed ptr => exact absurd trivial hok
  | destroy ptr => exact absurd trivial hok
  | disconnect ptr => exact absurd trivial hok
  | stop => exact absurd trivial hok

end MyPostgresPool

/-! ## The pools of a process -/

/-- The pools by number, and the one that the predicate has captured. -/
structure MyPostgresPools where
  pools : Nat → MyPostgresPool
  captured : Option Nat

namespace MyPostgresPools
open MyPostgresPool

def start (size : Nat → Nat) (connect : Nat → Nat → Connection) : MyPostgresPools where
  pools k := MyPostgresPool.start (size k) (connect k)
  captured := none

def setPool (s : MyPostgresPools) (k : Nat) (p : MyPostgresPool) : MyPostgresPools :=
  { s with pools := Function.update s.pools k p }

/-- A call of the `k`-th pool gets through its wait when the captured pool satisfies the predicate;
of a captured pool that is gone the predicate reads anything. -/
def getConnection (s : MyPostgresPools) (k : Nat) (connection : Connection) :
    Option MyPostgresPools :=
  s.captured.bind fun first =>
    if first ≠ k ∧ (s.pools first).isRunning = false then
      some (s.setPool k { s.pools k with undefined := true })
    else if (s.pools first).predicate then
      some (s.setPool k ((s.pools k).getConnection connection))
    else none

def step (s : MyPostgresPools) (l : Nat × Label) : Option MyPostgresPools :=
  match l.2 with
  | .call => some { s with captured := some (s.captured.getD l.1) }
  | .getConnection connection => s.getConnection l.1 connection
  | own => ((s.pools l.1).step own).map (s.setPool l.1)

/-- The condition on a step, for the `k`-th pool: it constructs its objects, and its calls get
through their waits by its own state, or by that of a pool that exists while it has a connection
itself. -/
def steady (k : Nat) (s : MyPostgresPools) (l : Nat × Label) : Prop :=
  l.1 = k → match l.2 with
    | .getConnection _ => ∀ first, s.captured = some first → first ≠ k →
        (s.pools first).isRunning = true ∧ (s.pools k).predicate = true
    | own => (s.pools k).steady own

variable {s t : MyPostgresPools} {k : Nat}

theorem setPool_self (s : MyPostgresPools) (k : Nat) (p : MyPostgresPool) :
    (s.setPool k p).pools k = p := Function.update_self ..

theorem setPool_other (s : MyPostgresPools) {j : Nat} (h : j ≠ k) (p : MyPostgresPool) :
    (s.setPool j p).pools k = s.pools k := Function.update_of_ne h.symm ..

theorem getConnection_cases {connection : Connection} (hs : s.getConnection k connection = some t) :
    ∃ first, s.captured = some first ∧
      ((first ≠ k ∧ (s.pools first).isRunning = false ∧
          t = s.setPool k { s.pools k with undefined := true }) ∨
        ((first ≠ k → (s.pools first).isRunning = true) ∧ (s.pools first).predicate = true ∧
          t = s.setPool k ((s.pools k).getConnection connection))) := by
  obtain ⟨first, hfirst, hs⟩ := Option.bind_eq_some_iff.mp hs
  refine ⟨first, hfirst, ?_⟩
  split at hs
  · rename_i hgone
    cases hs
    exact .inl ⟨hgone.1, hgone.2, rfl⟩
  · rename_i hgone
    obtain ⟨hp, hs⟩ := Option.ite_none_right_eq_some.mp hs
    cases hs
    refine .inr ⟨fun hne => ?_, hp, rfl⟩
    by_contra hr
    exact hgone ⟨hne, Bool.eq_false_iff.mpr hr⟩

/-- The steps of one pool leave the others. -/
theorem step_other {l : Nat × Label} (h : l.1 ≠ k) (hs : s.step l = some t) :
    t.pools k = s.pools k := by
  obtain ⟨j, l⟩ := l
  cases l with
  | call =>
    cases hs
    rfl
  | getConnection connection =>
    obtain ⟨-, -, ⟨-, -, rfl⟩ | ⟨-, -, rfl⟩⟩ := getConnection_cases hs
    · exact setPool_other s h _
    · exact setPool_other s h _
  | timeout | constructed _ | constructorThrows _ | destroy _ | disconnect _ | stop =>
    simp only [MyPostgresPools.step] at hs
    obtain ⟨p, -, rfl⟩ := Option.map_eq_some_iff.mp hs
    exact setPool_other s h _

theorem step_balanced {l : Nat × Label} (h : (s.pools k).Balanced) (hok : s.steady k l)
    (hs : s.step l = some t) : (t.pools k).Balanced := by
  by_cases hk : l.1 = k
  · obtain ⟨j, l⟩ := l
    obtain rfl : j = k := hk
    cases l with
    | call =>
      cases hs
      exact h
    | getConnection connection =>
      obtain ⟨first, hfirst, hcase⟩ := getConnection_cases hs
      by_cases hown : first = j
      · subst hown
        obtain ⟨hne, -, -⟩ | ⟨-, hp, rfl⟩ := hcase
        · exact absurd rfl hne
        · rw [setPool_self]
          exact h.getConnection hp connection
      · obtain ⟨hr, hp⟩ := hok rfl first hfirst hown
        obtain ⟨-, hgone, -⟩ | ⟨-, -, rfl⟩ := hcase
        · rw [hr] at hgone
          cases hgone
        · rw [setPool_self]
          exact h.getConnection hp connection
    | timeout | constructed _ | constructorThrows _ | destroy _ | disconnect _ | stop =>
      simp only [MyPostgresPools.step] at hs
      obtain ⟨p, hp, rfl⟩ := Option.map_eq_some_iff.mp hs
      rw [setPool_self]
      exact MyPostgresPool.step_balanced h (hok rfl) hp
  · rw [step_other hk hs]
    exact h

theorem not_conserved {l : Nat × Label} (h : (s.pools k).Balanced) (hok : ¬ s.steady k l)
    (hs : s.step l = some t) : ¬ (t.pools k).Conserved := by
  obtain ⟨j, l⟩ := l
  obtain ⟨rfl, hok⟩ := Classical.not_imp.mp hok
  cases l with
  | call => exact absurd trivial hok
  | getConnection connection =>
    obtain ⟨first, hfirst, hcase⟩ := getConnection_cases hs
    obtain ⟨-, -, rfl⟩ | ⟨hr, -, rfl⟩ := hcase
    · rw [setPool_self]
      rintro ⟨-, -, hdefined⟩
      cases hdefined
    · rw [setPool_self]
      refine not_conserved_of_empty (Bool.eq_false_iff.mpr fun hp => hok ?_)
      intro other hother hne
      obtain rfl : first = other := Option.some.inj (hfirst.symm.trans hother)
      exact ⟨hr hne, hp⟩
  | timeout | constructed _ | constructorThrows _ | destroy _ | disconnect _ | stop =>
    simp only [MyPostgresPools.step] at hs
    obtain ⟨p, hp, rfl⟩ := Option.map_eq_some_iff.mp hs
    rw [setPool_self]
    exact not_conserved_of_not_steady h hok hp

/-- **Conservation of a pool.** Along a run of the process every index of the `k`-th pool is always
once in `waitPool` or held by one object, and `GetPoolUsage` the number of objects, if and only if
none of its constructors of a `MyPostgres` throws and, where the predicate is that of another pool,
no call gets through its wait while that pool is gone or this one has no free connection. -/
theorem conserved_iff (size : Nat → Nat) (connect : Nat → Nat → Connection) (k : Nat)
    (labels : List (Nat × Label)) :
    Always step (fun s => (s.pools k).Conserved) (start size connect) labels ↔
      Meets step (steady k) (start size connect) labels :=
  always_iff_meets (I := fun s => (s.pools k).Balanced) (fun _ h => h.conserved)
    (fun _ _ _ h hok hs => step_balanced h hok hs) (fun _ _ _ h hok hs => not_conserved h hok hs)
    labels (start_balanced (size k) (connect k))

/-- The predicate stays the one of the first call. -/
theorem step_captured {l : Nat × Label} (h : s.captured = some k) (hs : s.step l = some t) :
    t.captured = some k := by
  obtain ⟨j, l⟩ := l
  cases l with
  | call =>
    cases hs
    simp [h]
  | getConnection connection =>
    obtain ⟨-, -, ⟨-, -, rfl⟩ | ⟨-, -, rfl⟩⟩ := getConnection_cases hs
    · exact h
    · exact h
  | timeout | constructed _ | constructorThrows _ | destroy _ | disconnect _ | stop =>
    simp only [MyPostgresPools.step] at hs
    obtain ⟨p, -, rfl⟩ := Option.map_eq_some_iff.mp hs
    exact h

/-- For the pool that is called first only its constructors count. -/
theorem conserved_of_first (size : Nat → Nat) (connect : Nat → Nat → Connection) (k : Nat)
    {labels : List (Nat × Label)} (h : ∀ ptr, (k, .constructorThrows ptr) ∉ labels) :
    Always step (fun s => (s.pools k).Conserved) (start size connect) ((k, .call) :: labels) := by
  rw [conserved_iff, meets_cons_of_some (t := { start size connect with captured := some k }) rfl]
  refine ⟨fun _ => trivial, ?_⟩
  have hmeets : Meets step (fun _ l => ∀ ptr, l ≠ (k, Label.constructorThrows ptr))
      { start size connect with captured := some k } labels := by
    refine meets_of_forall (q := fun l => ∀ ptr, l ≠ (k, Label.constructorThrows ptr)) ?_ _
    rintro l hl ptr rfl
    exact h ptr hl
  refine meets_of_meets (I := fun s : MyPostgresPools => s.captured = some k) ?_
    (fun s l t hc _ hs => step_captured hc hs) rfl hmeets
  rintro s ⟨j, l⟩ hc hl rfl
  cases l with
  | getConnection connection =>
    intro first hfirst hne
    rw [hc, Option.some.injEq] at hfirst
    exact absurd hfirst.symm hne
  | constructorThrows ptr => exact hl ptr rfl
  | call | timeout | constructed _ | destroy _ | disconnect _ | stop => trivial

/-- A pool of one: after one transaction that cannot start the pool is empty for good, with no
object alive. -/
theorem throw_loses_index :
    ∃ s, run step (start (fun _ => 1) fun _ _ => .opened)
        [(0, .call), (0, .getConnection .opened), (0, .constructorThrows 0)] = some s ∧
      (s.pools 0).waitPool = [] ∧ (s.pools 0).held = [] ∧ (s.pools 0).getPoolUsage = 1 ∧
      ¬ (s.pools 0).Conserved := by
  have h : ∃ s, run step (start (fun _ => 1) fun _ _ => .opened)
        [(0, .call), (0, .getConnection .opened), (0, .constructorThrows 0)] = some s ∧
      (s.pools 0).waitPool = [] ∧ (s.pools 0).held = [] ∧ (s.pools 0).getPoolUsage = 1 :=
    exists_run_of_any (by decide +kernel)
  obtain ⟨s, hr, hw, hh, hu⟩ := h
  refine ⟨s, hr, hw, hh, hu, fun hc => ?_⟩
  have := hc.2.1
  rw [hu, hh] at this
  cases this

/-- Two pools of one, and the predicate of the first: the second connection of the second pool is
the front of an empty queue. -/
theorem second_pool_takes_nothing :
    ∃ s, run step (start (fun _ => 1) fun _ _ => .opened)
        [(0, .call), (1, .call), (1, .getConnection .opened), (1, .getConnection .opened)] =
          some s ∧ (s.pools 1).undefined = true :=
  exists_run_of_any (by decide +kernel)

end MyPostgresPools
end DrgbServer.Postgres
