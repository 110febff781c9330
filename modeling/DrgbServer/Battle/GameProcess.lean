import DrgbServer.Battle.ClientProcess

/-! # `MyBattle::GameProcess`: the timer of one game

`GameProcess` waits on the timer of the game and its handler, run when the wait
completes, plays a round, pauses or ends the game, and in all cases but the last waits
again. `Enter` and `Exit` cancel the wait when a player comes or goes. What the
database answers in one run of the handler is an argument.

Beside the data of the code the state counts the calls of `expires_after` and of
`MyGame::process` and records each time the game ends. No step depends on these. -/
namespace DrgbServer.Battle
open DrgbServer.Utils DrgbServer.Network DrgbServer.Lib.Procedure

/-! ## The timer -/

/-- The duration a deadline was armed with. -/
inductive Deadline where
  /-- `Dis_Time` -/
  | dis
  /-- `StartAnim_Time` -/
  | startAnim
  /-- `Round_Time` -/
  | round
deriving DecidableEq

/-- How a wait has completed: its deadline was reached, or it was cancelled. -/
inductive Completion where
  | expired (deadline : Deadline)
  | aborted
deriving DecidableEq

/-- The `steady_timer` of a game, with the waits pending on it and the completions
whose handlers have not run. -/
structure Clock where
  deadline : Deadline
  /-- how often `expires_after` was called -/
  armed : Nat
  pending : Nat
  queued : List Completion
deriving DecidableEq

namespace Clock

/-- A completion that is queued already is not taken back. -/
def cancel (c : Clock) : Clock :=
  { c with pending := 0, queued := c.queued ++ List.replicate c.pending .aborted }

def expiresAfter (c : Clock) (deadline : Deadline) : Clock :=
  { c.cancel with deadline, armed := c.armed + 1 }

def asyncWait (c : Clock) : Clock := { c with pending := c.pending + 1 }

/-- The deadline is reached. -/
def expire (c : Clock) : Clock :=
  { c with pending := 0, queued := c.queued ++ List.replicate c.pending (.expired c.deadline) }

/-- The handler of a queued completion is taken off the queue. -/
def take (c : Clock) (i : Nat) : Clock := { c with queued := c.queued.eraseIdx i }

/-- The waits that are pending or queued. -/
def outstanding (c : Clock) : Nat := c.pending + c.queued.length

end Clock

/-- A pool that holds no timer once it is stopped. -/
structure Gamepool where
  pool : TimerPool
  emptied : pool.isRunning = false → pool.timerSet = ∅

namespace Gamepool

def isRunning (p : Gamepool) : Bool := p.pool.isRunning

def releaseTimer (p : Gamepool) (timer : TimerId) : Gamepool where
  pool := p.pool.releaseTimer timer
  emptied h := by
    have hp : p.pool.isRunning = false := by
      unfold TimerPool.releaseTimer at h
      split at h
      · exact h
      · exact h
    rw [TimerPool.releaseTimer, if_pos (by rw [hp]; rfl)]
    exact p.emptied hp

/-- `Stop`, up to `TimerSet.clear()`. -/
def stop (p : Gamepool) : Gamepool where
  pool := { p.pool with isRunning := false, timerSet := ∅, allocated := by simp }
  emptied _ := rfl

/-- A timer released is not held, whether the pool runs or not. -/
theorem releaseTimer_not_mem (p : Gamepool) (timer : TimerId) :
    timer ∉ (p.releaseTimer timer).pool.timerSet := by
  unfold releaseTimer TimerPool.releaseTimer
  dsimp only
  split
  · rename_i h
    rw [p.emptied (by simpa using h)]
    exact Finset.notMem_empty timer
  · exact Finset.notMem_erase timer _

end Gamepool

/-! ## One game -/

/-- The weak pointer of a player is emptied, as in `Exit`. -/
def GameInfo.leave (info : GameInfo) (id : AccountId) : GameInfo :=
  { info with
    session := (info.session.insertLKeyValue id none).2
    sided := by
      intro id' side socket h
      rw [Table.findLKey_insertLKeyValue] at h
      split at h
      · obtain ⟨⟨old, _⟩, hold, hs⟩ := Option.map_eq_some_iff.mp h
        cases hs
        exact info.sided _ _ _ hold
      · exact info.sided _ _ _ h }

/-- A call of `ArchiveBattle`. -/
structure Archive where
  winner : AccountId
  looser : AccountId
  draw : Bool
  crashed : Bool
deriving DecidableEq

/-- A run of the terminal branch. -/
structure Ending where
  nowAllIn : Bool
  /-- what the expired deadline was armed with -/
  deadline : Deadline
  winner : Int
deriving DecidableEq

/-- One game with what its handlers use of the server. -/
structure Arena where
  selfKeyword : String
  info : GameInfo
  clock : Clock
  sockets : Sockets
  /-- `is_open` of a socket: the transport is not closed -/
  isOpen : SocketId → Bool
  sessions : Table AccountId Hash GameId
  gamepool : Gamepool
  archives : List Archive
  setInfos : List (AccountId × Hash × String)
  clearInfos : List (AccountId × Hash × String)
  /-- what the handlers have thrown -/
  threadExceptions : List Exn
  /-- a null pointer was dereferenced -/
  crashed : Bool
  /-- the threads of the pool are joined -/
  halted : Bool
  /-- how often `MyGame::process` was called -/
  processed : Nat
  endings : List Ending

namespace Arena

/-- `lock` of the weak pointer of a player. -/
def lock (s : Arena) (weak : Option SocketId) : Option SocketId :=
  weak.filter fun k => (s.sockets k).isSome

def isAllIn (s : Arena) : Bool :=
  s.info.session.getAll.all fun player => (s.lock player.2.2).any s.isOpen

/-! ## Steps of the handler -/

/-- What the database answers in one run of the handler. -/
structure Answers where
  /-- `dbpool.GetConnection` in `AchieveProgress` gave a connection -/
  achieveConnection : AccountId → AchievementId → Bool
  /-- `db->AchieveProgress` -/
  achieveProgress : AccountId → AchievementId → Int → Except Exn Bool
  /-- `db->Achieve` -/
  achieve : AccountId → AchievementId → Except Exn Bool
  /-- `dbpool.GetConnection` at the end of the game gave a connection -/
  connection : Bool
  /-- `db->ArchiveBattle` -/
  archiveBattle : Except Exn Unit
  commit : Except Exn Unit

def achieveNewbie : AchievementId := 1
def achieveNoive : AchievementId := 7
def achieveChallenger : AchievementId := 8
def achieveDominator : AchievementId := 9
def achieveSlayer : AchievementId := 10
def achieveConquerer : AchievementId := 11
def achieveAreyawinningson : AchievementId := 14

def send (client : SocketId) (bytes : ByteQueue) : Proc Arena Stop Unit :=
  modify fun s => { s with sockets := s.sockets.modify client (·.send bytes) }

def close (client : SocketId) : Proc Arena Stop Unit :=
  modify fun s => { s with sockets := s.sockets.modify client (·.close) }

/-- A message to each player of the game whose socket is there. -/
def announce (packet : Int → ByteQueue) : Proc Arena Stop Unit :=
  modify fun s => { s with
    sockets := s.info.session.getAll.foldl (fun ss player =>
      match player.2.2.filter fun k => (ss k).isSome with
      | some k => ss.modify k (·.send (packet player.2.1))
      | none => ss) s.sockets }

/-- The last action and the state of a side, once a round was played. -/
def sideResult (game : MyGame) (side : Int) : ByteQueue :=
  if 0 ≤ game.nowRound then
    let (action, health, energy) := game.getPlayerInfo side
    ((ByteQueue.empty.push [action]).push (intImage health)).push (intImage energy)
  else ByteQueue.empty

def roundResult (msg : Byte) (game : MyGame) (side : Int) : ByteQueue :=
  (((code msg).push (intImage game.nowRound)).add (sideResult game side)).add
    (sideResult game (2 - (side + 1)))

def sendRoundResult (msg : Byte) : Proc Arena Stop Unit := do
  let s ← get
  announce (roundResult msg s.info.game)

/-- The `switch` of `AchieveProgress`. -/
def progressOf (a : Answers) (id : AccountId) (achieve : AchievementId) (count : Int) :
    Except Exn Bool :=
  if achieve ∈ [MyGame.achieveMeditateAddiction, MyGame.achieveGuardAddiction,
      MyGame.achieveEvadeAddiction, MyGame.achievePunchAddiction] then
    a.achieveProgress id achieve count
  else if achieve ∈ [MyGame.achieveFireAddiction, achieveNewbie, achieveNoive, achieveChallenger,
      achieveDominator, achieveSlayer, achieveConquerer, MyGame.achieveKneelinmysight,
      MyGame.achieveDoppelganger, achieveAreyawinningson] then
    a.achieve id achieve
  else .ok false

/-- Both `catch` clauses only log, and between them they catch every exception. -/
def achieveProgress (a : Answers) (id : AccountId) (achieve : AchievementId) (count : Int)
    (socket : Option SocketId) : Proc Arena Stop Unit :=
  catching
    (if !a.achieveConnection id achieve then throw (.thrown .brokenConnection)
    else do
      let isAchieved ← raise (progressOf a id achieve count)
      let s ← get
      match socket.filter fun k => isAchieved && s.isOpen k with
      | some k => send k ((code gamePlayerAchieve).push (image 8 achieve))
      | none => pure ())
    fun _ => pure ()

/-- `FindRKey` of a side: the account, 0 where there is none, and the socket. -/
def player (s : Arena) (side : Int) : AccountId × Option SocketId :=
  match s.info.session.findRKey side with
  | some (id, weak) => (id, s.lock weak)
  | none => (0, none)

/-- The loop over `GetAchievement`. -/
def fetchAchievements (a : Answers) : List (Fin 2 × AchievementId × Int) → Proc Arena Stop Unit
  | [] => pure ()
  | (side, achieve, count) :: rest => do
    modify fun s => { s with info := { s.info with game := s.info.game.getAchievement.2 } }
    let s ← get
    let (id, socket) := s.player side.val
    achieveProgress a id achieve count socket
    fetchAchievements a rest

def expiresAfter (deadline : Deadline) : Proc Arena Stop Unit :=
  modify fun s => { s with clock := s.clock.expiresAfter deadline }

/-- `GameProcess` itself: the next wait, while the pool is open. -/
def gameProcess : Proc Arena Stop Unit :=
  modify fun s => if !s.gamepool.isRunning then s else { s with clock := s.clock.asyncWait }

/-! ## The terminal branch -/

/-- `sockets[i]->Send(ERR_DB_FAILED)`, without a test of the pointer. -/
def report (socket : Option SocketId) : Proc Arena Stop Unit :=
  match socket with
  | some k => send k (code errDbFailed)
  | none => throw .undefined

def archiveBattle (a : Answers) (archive : Archive) : Proc Arena Stop Unit := do
  raise a.archiveBattle
  modify fun s => { s with archives := s.archives ++ [archive] }

/-- The `try` block around the archive. -/
def archiving (a : Answers) (ids : Sides AccountId) (winner : Int) (isCrashed : Bool) :
    Proc Arena Stop Unit :=
  if !a.connection then throw (.thrown .brokenConnection)
  else do
    archiveBattle a (if winner < 0 then ⟨ids.left, ids.right, true, isCrashed⟩
      else ⟨ids.get winner, ids.get (1 - winner), false, isCrashed⟩)
    raise a.commit

/-- Both `catch` clauses report to the players and rethrow. -/
def archive (a : Answers) (ids : Sides AccountId) (sockets : Sides (Option SocketId))
    (winner : Int) (isCrashed : Bool) : Proc Arena Stop Unit :=
  catching (archiving a ids winner isCrashed) fun e => do
    report sockets.left
    report sockets.right
    throw (.thrown e)

def gameResult (isCrashed : Bool) (winner side : Int) : Byte :=
  if isCrashed && decide (winner < 0) then gameCrashed
  else if winner < 0 then gameFinishedDraw
  else if winner = side then gameFinishedWin
  else gameFinishedLoose

/-- The session of one side is erased and the player, if connected, sent to the match
server with the result. -/
def dismiss (isCrashed : Bool) (winner side : Int) (id : AccountId) (socket : Option SocketId) :
    Proc Arena Stop Unit := do
  let s ← get
  match s.sessions.eraseLKey id with
  | (none, _) => pure ()
  | (some (id, cookie, _), sessions) => do
    modify fun s => { s with sessions }
    match socket.filter s.isOpen with
    | none =>
      modify fun s => { s with clearInfos := s.clearInfos ++ [(id, cookie, s.selfKeyword)] }
    | some k => do
      modify fun s => { s with setInfos := s.setInfos ++ [(id, cookie, keywordMatch)] }
      send k (code (gameResult isCrashed winner side))
      close k

/-- The achievements of a draw that was played to its end. -/
def drawn (a : Answers) (ids : Sides AccountId) (sockets : Sides (Option SocketId))
    (winner : Int) (isCrashed : Bool) : Proc Arena Stop Unit :=
  if winner < 0 ∧ isCrashed = false then do
    achieveProgress a ids.left achieveAreyawinningson 1 sockets.left
    achieveProgress a ids.right achieveAreyawinningson 1 sockets.right
  else pure ()

/-- The achievements of the winner. -/
def won (a : Answers) (ids : Sides AccountId) (sockets : Sides (Option SocketId))
    (winner : Int) : Proc Arena Stop Unit :=
  if winner < 0 then pure ()
  else do
    achieveProgress a (ids.get winner) achieveNoive 1 (sockets.get winner)
    achieveProgress a (ids.get winner) achieveChallenger 1 (sockets.get winner)
    achieveProgress a (ids.get winner) achieveDominator 1 (sockets.get winner)
    achieveProgress a (ids.get winner) achieveSlayer 1 (sockets.get winner)
    achieveProgress a (ids.get winner) achieveConquerer 1 (sockets.get winner)

/-- The `try` block of the terminal branch. -/
def settle (a : Answers) (ids : Sides AccountId) (sockets : Sides (Option SocketId))
    (winner : Int) (isCrashed : Bool) : Proc Arena Stop Unit := do
  drawn a ids sockets winner isCrashed
  archive a ids sockets winner isCrashed
  won a ids sockets winner
  dismiss isCrashed winner 0 ids.left sockets.left
  dismiss isCrashed winner 1 ids.right sockets.right

def releaseTimer : Proc Arena Stop Unit :=
  modify fun s => { s with gamepool := s.gamepool.releaseTimer s.info.timer }

def eraseLKey (id : AccountId) : Proc Arena Stop Unit :=
  modify fun s => { s with sessions := (s.sessions.eraseLKey id).2 }

/-- The lines after the `try` block; its exception is thrown again at last. -/
def wrapUp (ids : Sides AccountId) (eptr : Option String) : Proc Arena Stop Unit := do
  releaseTimer
  eraseLKey ids.left
  eraseLKey ids.right
  match eptr with
  | some what => throw (.thrown (.stackTrace what))
  | none => pure ()

/-- The end of the game. -/
def terminal (a : Answers) (nowAllIn : Bool) (deadline : Deadline) : Proc Arena Stop Unit := do
  let s ← get
  let winner := s.info.game.getWinner
  modify fun s => { s with endings := s.endings ++ [⟨nowAllIn, deadline, winner⟩] }
  let ids : Sides AccountId := ⟨(s.player 0).1, (s.player 1).1⟩
  let eptr ← catching
    (do
      settle a ids ⟨(s.player 0).2, (s.player 1).2⟩ winner (!nowAllIn)
      return none)
    fun e => return some e.what
  wrapUp ids eptr

/-! ## The handler -/

/-- A player has come or gone. -/
def resume (prevAllIn nowAllIn : Bool) : Proc Arena Stop Unit :=
  if nowAllIn then do
    sendRoundResult gamePlayerAllConnected
    expiresAfter .startAnim
  else if prevAllIn then do
    announce fun _ => code gamePlayerDisconnedted
    expiresAfter .dis
  else pure ()

/-- One round; `true` when the game is over. -/
def playRound (a : Answers) : Proc Arena Stop Bool := do
  let s ← get
  let (isGameOver, game) := s.info.game.process
  modify fun s => { s with info := { s.info with game }, processed := s.processed + 1 }
  sendRoundResult gameRoundResult
  fetchAchievements a game.achievements
  return isGameOver

/-- The handler after it has looked who is in. -/
def proceed (a : Answers) (completion : Completion) (prevAllIn nowAllIn : Bool) :
    Proc Arena Stop Unit :=
  match completion with
  | .aborted => do
    resume prevAllIn nowAllIn
    gameProcess
  | .expired deadline =>
    if nowAllIn then do
      let isGameOver ← playRound a
      if isGameOver then terminal a nowAllIn deadline
      else do
        expiresAfter .round
        gameProcess
    else terminal a nowAllIn deadline

/-- The handler of the wait. -/
def handler (a : Answers) (completion : Completion) : Proc Arena Stop Unit := do
  let s ← get
  modify fun t => { t with info := { t.info with previousAllIn := s.isAllIn } }
  proceed a completion s.info.previousAllIn s.isAllIn

/-! ## What messages and sessions do not matter to -/

/-- Messages to sockets, the sessions and the calls of Redis keep `I`. -/
structure Tolerant (I : Arena → Prop) : Prop where
  sockets : ∀ s ss, (∀ k, (ss k).isSome = (s.sockets k).isSome) → I s → I { s with sockets := ss }
  sessions : ∀ s x, I s → I { s with sessions := x }
  setInfos : ∀ s x, I s → I { s with setInfos := x }
  clearInfos : ∀ s x, I s → I { s with clearInfos := x }

section Tolerant
variable {I : Arena → Prop} {E : Stop → Prop} {a : Answers} (hI : Tolerant I)
include hI

theorem send_keeps (k : SocketId) (bytes : ByteQueue) : Keeps I E (send k bytes) :=
  keeps_modify fun s h => hI.sockets s _ (fun j => Sockets.isSome_modify s.sockets k j _) h

theorem close_keeps (k : SocketId) : Keeps I E (close k) :=
  keeps_modify fun s h => hI.sockets s _ (fun j => Sockets.isSome_modify s.sockets k j _) h

theorem announce_keeps (packet : Int → ByteQueue) : Keeps I E (announce packet) := by
  refine keeps_modify fun s h => hI.sockets s _ (fun k => ?_) h
  generalize s.info.session.getAll = players
  generalize s.sockets = ss
  induction players generalizing ss with
  | nil => rfl
  | cons player rest ih =>
    rw [List.foldl_cons, ih]
    rcases player.2.2.filter fun k => (ss k).isSome with _ | j
    · rfl
    · exact Sockets.isSome_modify ss j k _

theorem sendRoundResult_keeps (msg : Byte) : Keeps I E (sendRoundResult msg) :=
  keeps_bind keeps_get fun _ => announce_keeps hI _

theorem achieveProgress_keeps (id : AccountId) (achieve : AchievementId) (count : Int)
    (socket : Option SocketId) : Keeps I E (achieveProgress a id achieve count socket) := by
  refine keeps_catching ?_ fun _ => keeps_pure
  split
  · exact keeps_throw nofun
  · refine keeps_bind (keeps_raise fun _ _ => nofun) fun isAchieved => ?_
    refine keeps_bind keeps_get fun s => ?_
    split
    · exact send_keeps hI _ _
    · exact keeps_pure

theorem report_keeps (socket : Option SocketId) : Keeps I (fun _ => True) (report socket) := by
  cases socket with
  | some k => exact send_keeps hI k _
  | none => exact keeps_throw trivial

theorem dismiss_keeps (isCrashed : Bool) (winner side : Int) (id : AccountId)
    (socket : Option SocketId) : Keeps I E (dismiss isCrashed winner side id socket) := by
  refine keeps_bind keeps_get fun s => ?_
  split
  · exact keeps_pure
  · refine keeps_bind (keeps_modify fun s h => hI.sessions s _ h) fun _ => ?_
    split
    · exact keeps_modify fun s h => hI.clearInfos s _ h
    · refine keeps_bind (keeps_modify fun s h => hI.setInfos s _ h) fun _ => ?_
      exact keeps_bind (send_keeps hI _ _) fun _ => close_keeps hI _

theorem drawn_keeps (ids : Sides AccountId) (sockets : Sides (Option SocketId)) (winner : Int)
    (isCrashed : Bool) : Keeps I E (drawn a ids sockets winner isCrashed) := by
  unfold drawn
  split
  · refine keeps_bind (achieveProgress_keeps hI _ _ _ _) fun _ => ?_
    exact achieveProgress_keeps hI _ _ _ _
  · exact keeps_pure

theorem won_keeps (ids : Sides AccountId) (sockets : Sides (Option SocketId)) (winner : Int) :
    Keeps I E (won a ids sockets winner) := by
  unfold won
  split
  · exact keeps_pure
  · refine keeps_bind (achieveProgress_keeps hI _ _ _ _) fun _ => ?_
    refine keeps_bind (achieveProgress_keeps hI _ _ _ _) fun _ => ?_
    refine keeps_bind (achieveProgress_keeps hI _ _ _ _) fun _ => ?_
    refine keeps_bind (achieveProgress_keeps hI _ _ _ _) fun _ => ?_
    exact achieveProgress_keeps hI _ _ _ _

end Tolerant

/-! ## The game as its threads run it

Clients enter, leave and act, sockets are closed and go away, the deadline is reached
and the handlers of completed waits run, in any order. A run of the handler is one
step, and so are `Enter` and `Exit`, which hold the mutex of the game. -/

inductive Label where
  | enter (id : AccountId) (socket : SocketId)
  | exit (id : AccountId) (socket : SocketId)
  | action (side : Int) (action : BitVec 32)
  /-- a client connects -/
  | accept (k : SocketId)
  /-- `Close` is called -/
  | shut (k : SocketId)
  /-- the transport is closed -/
  | drop (k : SocketId)
  /-- the last pointer to the socket goes away -/
  | free (k : SocketId)
  /-- other games and handlers change `sessions` -/
  | others (sessions : Table AccountId Hash GameId)
  | expire
  /-- the handler of a queued completion runs -/
  | handle (i : Nat) (a : Answers)
  /-- `gamepool.Stop` closes the pool and cancels its timers -/
  | stop
  /-- `gamepool.Stop` has stopped the io context and its threads -/
  | halt

def setClock (s : Arena) (clock : Clock) : Arena := { s with clock }

def enter (s : Arena) (id : AccountId) (socket : SocketId) : Arena :=
  match s.info.enter id socket with
  | some (_, info) => { s with info, clock := s.clock.cancel }
  | none => s

def exit (s : Arena) (id : AccountId) (socket : SocketId) : Arena :=
  match s.info.session.findLKey id with
  | some (_, weak) =>
    if s.lock weak = some socket then
      { s with info := s.info.leave id, clock := s.clock.cancel }
    else s
  | none => s

/-- `Action`; what it throws is caught by its caller. -/
def act (s : Arena) (side : Int) (action : BitVec 32) : Arena :=
  match s.info.game.action (MyGame.playerOf side) action with
  | .ok game => { s with info := { s.info with game } }
  | .error _ => s

def accept (s : Arena) (k : SocketId) : Option Arena :=
  if (s.sockets k).isSome then none
  else some { s with
    sockets := Function.update s.sockets k (some ⟨true, false, sessionTTL, []⟩)
    isOpen := Function.update s.isOpen k true }

def drop (s : Arena) (k : SocketId) : Arena :=
  { s with
    sockets := s.sockets.modify k fun c => { c with readable := false }
    isOpen := Function.update s.isOpen k false }

/-- An exception of the handler goes to the main thread. -/
def handle (s : Arena) (i : Nat) (a : Answers) : Option Arena :=
  match s.clock.queued[i]? with
  | none => none
  | some completion =>
    match exec (handler a completion) (s.setClock (s.clock.take i)) with
    | (.ok _, t) => some t
    | (.error (.thrown e), t) => some { t with threadExceptions := t.threadExceptions ++ [e] }
    | (.error .undefined, t) => some { t with crashed := true }

def step (s : Arena) (l : Label) : Option Arena :=
  if s.crashed then none
  else match l with
    | .enter id socket => some (s.enter id socket)
    | .exit id socket => some (s.exit id socket)
    | .action side action => some (s.act side action)
    | .accept k => s.accept k
    | .shut k => some { s with sockets := s.sockets.modify k (·.close) }
    | .drop k => some (s.drop k)
    | .free k => some { s with sockets := Function.update s.sockets k none }
    | .others sessions => some { s with sessions }
    | .expire => some (s.setClock s.clock.expire)
    | .handle i a => s.handle i a
    | .stop => some { s with gamepool := s.gamepool.stop, clock := s.clock.cancel }
    | .halt =>
      if s.gamepool.isRunning then none
      else some { s with clock := { s.clock with pending := 0, queued := [] }, halted := true }

/-- The game that `MatchTransfer` has made, at its first wait. -/
def start (selfKeyword : String) (ids : Sides AccountId) (timer : TimerId)
    (infos : Sides ByteQueue) (sockets : Sockets) (isOpen : SocketId → Bool)
    (sessions : Table AccountId Hash GameId) (gamepool : Gamepool) : Arena where
  selfKeyword := selfKeyword
  info := GameInfo.make ids timer infos
  clock := ⟨.dis, 1, if gamepool.isRunning then 1 else 0, []⟩
  sockets := sockets
  isOpen := isOpen
  sessions := sessions
  gamepool := gamepool
  archives := []
  setInfos := []
  clearInfos := []
  threadExceptions := []
  crashed := false
  halted := false
  processed := 0
  endings := []

end Arena
end DrgbServer.Battle
