import DrgbServer.Network.MyClientSocket

/-! # `TestClient`: the client of the stress test

The receive handlers of `AuthProcess`, `MatchProcess` and `BattleProcess` after a successful
receive, up to the call that waits for the next packet. The timers that measure delays are
left out. The random action is an argument and `sha256` stands for the digest of OpenSSL. -/
namespace DrgbServer.TestStress
open DrgbServer.Utils DrgbServer.Network

/-- The action, the health and the energy of a side. -/
structure SideState where
  action : Byte
  health : Int
  energy : Int
deriving DecidableEq

structure TestClient where
  id : List Byte
  pwd : List Byte
  cookie : Hash
  battleSeed : Seed
  /-- `nickname`, `win`, `draw`, `loose` -/
  player : Record
  /-- `action`, `health`, `energy` -/
  state : SideState
  /-- `enemy_nickname`, `enemy_win`, `enemy_draw`, `enemy_loose` -/
  enemy : Record
  /-- `enemy_action`, `enemy_health`, `enemy_energy` -/
  enemyState : SideState
  round : Int

/-- What a handler goes on with. -/
inductive Next where
  /-- the next packet of the same server -/
  | receive
  | doMatch
  | doBattle
  | doRestart
deriving DecidableEq

/-- What a handler leaves. -/
structure Handled where
  client : TestClient
  /-- the packet, read as far as the handler has -/
  packet : ByteQueue
  sent : List ByteQueue
  /-- the reasons given to `RecordError` -/
  reasons : List String
  /-- the codes given to `ThrowThreadException` -/
  thrown : List Byte
  next : Next

/-! ## Fields -/

/-- `pop<T>` of a type whose values have the images that `value` reads. -/
def popAs {α : Type} (len : Nat) (value : List Byte → α) (packet : ByteQueue) :
    Except Exn (α × ByteQueue) :=
  (packet.pop len false).map (Prod.map value id)

def popByte : ByteQueue → Except Exn (Byte × ByteQueue) := popAs 1 (·.headD 0)
def popInt : ByteQueue → Except Exn (Int × ByteQueue) := popAs 4 intOfImage
def popHash : ByteQueue → Except Exn (Hash × ByteQueue) := popAs 32 toHash
def popAchievementId : ByteQueue → Except Exn (AchievementId × ByteQueue) := popAs 8 ofImage

/-- `nickname`, `win`, `draw` and `loose`. -/
def readRecord (packet : ByteQueue) : Except Exn (Record × ByteQueue) := do
  let (nickname, packet) ← popAchievementId packet
  let (win, packet) ← popInt packet
  let (draw, packet) ← popInt packet
  let (loose, packet) ← popInt packet
  return (⟨nickname, win, draw, loose⟩, packet)

/-- `action`, `health` and `energy`. -/
def readState (packet : ByteQueue) : Except Exn (SideState × ByteQueue) := do
  let (action, packet) ← popByte packet
  let (health, packet) ← popInt packet
  let (energy, packet) ← popInt packet
  return (⟨action, health, energy⟩, packet)

namespace TestClient

def heartbeat (c : TestClient) (packet : ByteQueue) : Handled :=
  ⟨c, packet, [code ansHeartbeat], [], [], .receive⟩

/-- The last cases of the three handlers. -/
def fail (c : TestClient) (header : Byte) (packet : ByteQueue) : Handled :=
  ⟨c, packet, [], ["Failed from Server " ++ toString header.toNat], [header], .doRestart⟩

/-! ## `AuthProcess` -/

/-- The cookie, and where to go on with it. -/
def logIn (c : TestClient) (header : Byte) (packet : ByteQueue) : Except Exn Handled := do
  let (cookie, packet) ← popHash packet
  let (battleSeed, packet) ←
    if header = errExistAccountBattle then popInt packet else pure (-1, packet)
  return ⟨{ c with cookie, battleSeed }, packet, [], [], [],
    if battleSeed < 0 then .doMatch else .doBattle⟩

/-- The request for a new account. -/
def register (sha256 : List Byte → Hash) (c : TestClient) (packet : ByteQueue) : Handled :=
  ⟨c, packet, [((code reqRegister).push (sha256 c.pwd).toList).pushraw c.id], [], [], .receive⟩

def authProcess (sha256 : List Byte → Hash) (c : TestClient) (packet : ByteQueue) :
    Except Exn Handled := do
  let (header, packet) ← popByte packet
  if header = ansHeartbeat then return c.heartbeat packet
  else if header ∈ [success, errExistAccountMatch, errExistAccountBattle] then
    c.logIn header packet
  else if header = errNoMatchAccount then return c.register sha256 packet
  else return c.fail header packet

/-! ## `MatchProcess` -/

def matchProcess (c : TestClient) (packet : ByteQueue) : Except Exn Handled := do
  let (header, packet) ← popByte packet
  if header = ansHeartbeat then return c.heartbeat packet
  else if header = gamePlayerInfo then do
    let (player, packet) ← readRecord packet
    return ⟨{ c with player }, packet, [code reqStartmatch], [], [], .receive⟩
  else if header = ansMatchmade then do
    let (battleSeed, packet) ← popInt packet
    return ⟨{ c with battleSeed }, packet, [], [], [], .doBattle⟩
  else return c.fail header packet

/-! ## `BattleProcess` -/

/-- The round, and the two sides once there was one. -/
def readRound (c : TestClient) (packet : ByteQueue) : Except Exn (TestClient × ByteQueue) := do
  let (round, packet) ← popInt packet
  if 0 ≤ round then do
    let (state, packet) ← readState packet
    let (enemyState, packet) ← readState packet
    return ({ c with round, state, enemyState }, packet)
  else return ({ c with round }, packet)

def battleProcess (c : TestClient) (nextAction : Int) (packet : ByteQueue) :
    Except Exn Handled := do
  let (header, packet) ← popByte packet
  if header = ansHeartbeat then return c.heartbeat packet
  else if header = gamePlayerInfoName then do
    let (player, packet) ← readRecord packet
    let (enemy, packet) ← readRecord packet
    return ⟨{ c with player, enemy }, packet, [], [], [], .receive⟩
  else if header = gamePlayerDisconnedted then return ⟨c, packet, [], [], [], .receive⟩
  else if header = gamePlayerAllConnected ∨ header = gameRoundResult then do
    let (c, packet) ← c.readRound packet
    return ⟨c, packet, [(code reqGameAction).push (intImage nextAction)], [], [], .receive⟩
  else if header ∈ [gameFinishedWin, gameFinishedDraw, gameFinishedLoose, gameCrashed] then
    return ⟨c, packet, [], if header = gameCrashed then ["Game Crashed"] else [], [], .doMatch⟩
  else if header = gamePlayerAchieve then do
    let (_, packet) ← popAchievementId packet
    return ⟨c, packet, [], [], [], .receive⟩
  else return c.fail header packet

end TestClient
end DrgbServer.TestStress
