import DrgbServer.Battle.MyGame
import DrgbServer.Network.MyClientSocket
import DrgbServer.Utils.DeMap

/-! # `MyBattle`: the state of a battle server

Objects behind shared pointers live in lists that only grow and a pointer is an
index: `GameInfo` objects in `MyBattle.games`, timers in `TimerPool.timers`. The
fields that follow the data say that the indices kept are indices of objects. -/
namespace DrgbServer.Battle
open DrgbServer.Utils DrgbServer.Network

abbrev TimerId := Nat
abbrev GameId := Nat

/-- One value for each player: `std::array<_, MyGame::MAX_PLAYER>`. -/
structure Sides (α : Type) where
  left : α
  right : α

/-! ## `TimerPool` -/

/-- A `steady_timer`: its expiry in milliseconds and the waits pending on it, each
with the game its handler was bound to. -/
structure SteadyTimer where
  expiry : Option Nat
  waits : List GameId
deriving DecidableEq

structure TimerPool where
  isRunning : Bool
  timers : List SteadyTimer
  timerSet : Finset TimerId
  allocated : ∀ t ∈ timerSet, t < timers.length

namespace TimerPool

/-- The constructor starts the pool. -/
def start : TimerPool := ⟨true, [], ∅, by simp⟩

/-- `make_shared` of a timer and its insertion into `TimerSet`. -/
def hold (p : TimerPool) : TimerPool :=
  { p with
    timers := p.timers ++ [⟨none, []⟩]
    timerSet := insert p.timers.length p.timerSet
    allocated := by
      intro t ht
      rw [List.length_append]
      rcases Finset.mem_insert.mp ht with rfl | ht
      · exact Nat.lt_succ_self _
      · exact Nat.lt_succ_of_lt (p.allocated t ht) }

/-- Null when the pool has stopped or the set already had the timer. -/
def getTimer (p : TimerPool) : Option TimerId × TimerPool :=
  if !p.isRunning then (none, p)
  else if p.timers.length ∈ p.timerSet then (none, p.hold)
  else (some p.timers.length, p.hold)

def releaseTimer (p : TimerPool) (timer : TimerId) : TimerPool :=
  if !p.isRunning then p
  else
    { p with
      timerSet := p.timerSet.erase timer
      allocated := fun t ht => p.allocated t (Finset.mem_of_mem_erase ht) }

def modifyTimer (p : TimerPool) (timer : TimerId) (f : SteadyTimer → SteadyTimer) : TimerPool :=
  { p with
    timers := p.timers.modify timer f
    allocated := by
      intro t ht
      rw [List.length_modify]
      exact p.allocated t ht }

/-- `expires_after` sets the expiry; waits still pending are aborted. -/
def expiresAfter (p : TimerPool) (timer : TimerId) (ms : Nat) : TimerPool :=
  p.modifyTimer timer fun _ => ⟨some ms, []⟩

/-- `cancel`: the waits pending are aborted. -/
def cancel (p : TimerPool) (timer : TimerId) : TimerPool :=
  p.modifyTimer timer fun t => { t with waits := [] }

def asyncWait (p : TimerPool) (timer : TimerId) (game : GameId) : TimerPool :=
  p.modifyTimer timer fun t => { t with waits := t.waits ++ [game] }

/-- The pool holds the timer, it has an expiry and a handler of the game waits on it. -/
def Armed (p : TimerPool) (timer : TimerId) (game : GameId) : Prop :=
  timer ∈ p.timerSet ∧ ∃ t ms, p.timers[timer]? = some t ∧ t.expiry = some ms ∧ game ∈ t.waits

theorem getTimer_of_stopped {p : TimerPool} (h : p.isRunning = false) :
    p.getTimer = (none, p) := by
  simp [getTimer, h]

/-- A running pool always has a timer to give: its number is not in the set. -/
theorem getTimer_of_running {p : TimerPool} (h : p.isRunning = true) :
    p.getTimer = (some p.timers.length, p.hold) := by
  have hn : p.timers.length ∉ p.timerSet := fun hm => (p.allocated _ hm).false
  simp [getTimer, h, hn]

/-- Releasing the timer just taken restores the set. -/
theorem timerSet_release_hold {p : TimerPool} (h : p.isRunning = true) :
    (p.hold.releaseTimer p.timers.length).timerSet = p.timerSet := by
  have hn : p.timers.length ∉ p.timerSet := fun hm => (p.allocated _ hm).false
  have hr : p.hold.isRunning = true := h
  simp only [releaseTimer, hr, Bool.not_true, Bool.false_eq_true, ↓reduceIte]
  exact Finset.erase_insert hn

/-- The timer of a new game after `expires_after` and `async_wait`. -/
theorem armed_asyncWait {p : TimerPool} {timer : TimerId} (h : timer ∈ p.timerSet) (ms : Nat)
    (game : GameId) : ((p.expiresAfter timer ms).asyncWait timer game).Armed timer game := by
  have hlt := p.allocated timer h
  refine ⟨h, ⟨some ms, [game]⟩, ms, ?_, rfl, List.mem_singleton.mpr rfl⟩
  simp [asyncWait, expiresAfter, modifyTimer, hlt]

end TimerPool

/-! ## `GameInfo` and `MyBattle` -/

structure GameInfo where
  game : MyGame
  timer : TimerId
  /-- account, side and the weak pointer to the player's socket -/
  session : Table AccountId Int (Option SocketId)
  playerInfos : Sides ByteQueue
  previousAllIn : Bool
  sided : ∀ id side socket, session.findLKey id = some (side, socket) → side = 0 ∨ side = 1

/-- The constructor, and the loop that registers the two sides. -/
def GameInfo.make (ids : Sides AccountId) (timer : TimerId) (infos : Sides ByteQueue) :
    GameInfo where
  game := MyGame.fresh
  timer := timer
  session := ((Table.empty.insert (ids.left) 0 none).2.insert (ids.right) 1 none).2
  playerInfos := infos
  previousAllIn := false
  sided := by
    intro id side socket h
    rcases Table.findLKey_of_insert h with ⟨_, rfl, _⟩ | h
    · exact .inr rfl
    · rcases Table.findLKey_of_insert h with ⟨_, rfl, _⟩ | h
      · exact .inl rfl
      · simp at h

/-- `Enter`: the socket of the account before, or nothing where it is not in the game. -/
def GameInfo.enter (info : GameInfo) (id : AccountId) (socket : SocketId) :
    Option (Option SocketId × GameInfo) :=
  let origin := ((info.session.findLKey id).map (·.2)).getD none
  if (info.session.insertLKeyValue id (some socket)).1 then
    some (origin, { info with
      session := (info.session.insertLKeyValue id (some socket)).2
      sided := by
        intro id' side socket' h
        rw [Table.findLKey_insertLKeyValue] at h
        split at h
        · obtain ⟨⟨old, _⟩, hold, hs⟩ := Option.map_eq_some_iff.mp h
          cases hs
          exact info.sided _ _ _ hold
        · exact info.sided _ _ _ h })
  else none

structure MyBattle where
  sessions : Table AccountId Hash GameId
  gamepool : TimerPool
  games : List GameInfo
  disTime : Nat
  allocated : ∀ id cookie g, sessions.findLKey id = some (cookie, g) → g < games.length

namespace MyBattle

/-- The constructor; `Disconnect_Time` has the default of the configuration. -/
def start : MyBattle where
  sessions := Table.empty
  gamepool := TimerPool.start
  games := []
  disTime := 15000
  allocated := by simp

def setPool (b : MyBattle) (gamepool : TimerPool) : MyBattle := { b with gamepool }

/-- The object behind a `GameInfo` pointer is written. -/
def setGame (b : MyBattle) (g : GameId) (info : GameInfo) : MyBattle :=
  { b with
    games := b.games.set g info
    allocated := by
      intro id cookie g' h
      rw [List.length_set]
      exact b.allocated id cookie g' h }

/-- `sessions.EraseLKey`. -/
def eraseSession (b : MyBattle) (id : AccountId) : MyBattle :=
  { b with
    sessions := (b.sessions.eraseLKey id).2
    allocated := by
      intro id' cookie g h
      rw [Table.findLKey_eraseLKey] at h
      split at h
      · cases h
      · exact b.allocated id' cookie g h }

/-- The part of `GameProcess` the caller runs: wait on the timer while the pool is open. -/
def gameProcess (b : MyBattle) (timer : TimerId) (g : GameId) : MyBattle :=
  if !b.gamepool.isRunning then b else b.setPool (b.gamepool.asyncWait timer g)

/-- The new game and the loop of the two `sessions.Insert` calls; neither looks at
the result of the other. -/
def enroll (b : MyBattle) (ids : Sides AccountId) (cookies : Sides Hash) (info : GameInfo) :
    MyBattle :=
  { b with
    games := b.games ++ [info]
    sessions := ((b.sessions.insert (ids.left) (cookies.left) b.games.length).2.insert
      (ids.right) (cookies.right) b.games.length).2
    allocated := by
      intro id cookie g h
      rw [List.length_append]
      rcases Table.findLKey_of_insert h with ⟨_, _, rfl⟩ | h
      · exact Nat.lt_succ_self _
      · rcases Table.findLKey_of_insert h with ⟨_, _, rfl⟩ | h
        · exact Nat.lt_succ_self _
        · exact Nat.lt_succ_of_lt (b.allocated id cookie g h) }

end MyBattle
end DrgbServer.Battle
