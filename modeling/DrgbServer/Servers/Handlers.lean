import DrgbServer.Auth.ServerName
import DrgbServer.Auth.SessionCheck
import DrgbServer.Battle.MyBattle
import DrgbServer.Match.Registration

/-! # The servers around one Redis

The auth server, the match server and any number of battle servers, as far as they hand
cookies on: every handler that calls Redis, stopped between any two Redis commands, and
the `sessions` of the servers. What a handler learns elsewhere (database, sockets, battle
servers) is a choice that comes with the step. -/
namespace DrgbServer.Servers
open DrgbServer.Utils DrgbServer.Lib.Redis DrgbServer.Redis
open DrgbServer.Network (SocketId)
open DrgbServer.Battle (Sides)

instance {α : Type} [Inhabited α] : Inhabited (Sides α) := ⟨⟨default, default⟩⟩

/-- A server that clients present cookies to. -/
inductive Server where
  | matching
  | battle (machineId : Nat)
deriving DecidableEq

/-- `"battle" + std::to_string(machine_id)` -/
def battleName (machineId : Nat) : ServerName where
  text := "battle".toList ++ toStr machineId
  nonempty := by simp
  alphanum := by
    rw [List.all_append, Bool.and_eq_true]
    refine ⟨by decide, List.all_eq_true.mpr fun c hc => ?_⟩
    simp [Char.isAlphanum, MyRedis.isDigit_of_mem_toStr hc]

/-- `self_keyword` -/
def Server.keyword : Server → ServerName
  | .matching => Redis.keywordMatch
  | .battle machineId => battleName machineId

/-- The Redis call a handler waits for, with its local variables. -/
inductive Stage where
  /-- `MyAuth::ClientProcess`, after the account is known -/
  | login (stage : Auth.Stage)
  /-- `AuthenticateProcess` -/
  | authenticate (server : Server) (client : SocketId) (cookie : Hash)
  /-- `SessionProcess` -/
  | heartbeat (server : Server) (accountId : AccountId) (cookie : Hash)
  /-- `MyMatch::MatchMake`: `RefreshInfo` of the left and the right player -/
  | refreshLeft (ids : Sides AccountId) (cookie : Hash)
  | refreshRight (ids : Sides AccountId) (left : Option Hash) (cookie : Hash)
  /-- and its two `SetInfo` -/
  | relocateLeft (ids : Sides AccountId) (cookies : Sides Hash) (machineId : Nat)
  | relocateRight (ids : Sides AccountId) (cookies : Sides Hash) (machineId : Nat)
  /-- `MyBattle::AuthenticateProcess`, without a game for the client -/
  | sendBack (accountId : AccountId) (cookie : Hash)
  /-- `MyBattle::MatchTransfer` -/
  | transferLeft (machineId : Nat) (ids : Sides AccountId)
  | transferRight (machineId : Nat) (ids : Sides AccountId) (left : Option Hash)
  /-- the end of `GameProcess`: a player who is connected, and one who is not -/
  | release (machineId : Nat) (ids : Sides AccountId) (accountId : AccountId) (cookie : Hash)
      (rest : List (AccountId × Bool))
  | clear (machineId : Nat) (ids : Sides AccountId) (accountId : AccountId) (cookie : Hash)
      (rest : List (AccountId × Bool))
  | ended

def Stage.call : Stage → Option Call
  | .login stage => some stage.call
  | .authenticate _ _ cookie => some (.getInfoFromCookie cookie)
  | .heartbeat server accountId cookie => some (.refreshInfo accountId cookie server.keyword)
  | .refreshLeft ids cookie => some (.refreshInfo ids.left cookie Redis.keywordMatch)
  | .refreshRight ids _ cookie => some (.refreshInfo ids.right cookie Redis.keywordMatch)
  | .relocateLeft ids cookies machineId =>
    some (.setInfo ids.left cookies.left (battleName machineId))
  | .relocateRight ids cookies machineId =>
    some (.setInfo ids.right cookies.right (battleName machineId))
  | .sendBack accountId cookie => some (.setInfo accountId cookie Redis.keywordMatch)
  | .transferLeft _ ids => some (.getInfoFromID ids.left)
  | .transferRight _ ids _ => some (.getInfoFromID ids.right)
  | .release _ _ accountId cookie _ => some (.setInfo accountId cookie Redis.keywordMatch)
  | .clear machineId _ accountId cookie _ =>
    some (.clearInfo accountId cookie (battleName machineId))
  | .ended => none

/-- What goes on from one call to the next is `Cluster.proceed`. -/
def handlers : Behaviour Stage Answer where
  body stage := (stage.call.map Call.body).getD (.ret (.flag false))
  next _ _ := none

structure Cluster where
  redis : System Stage Answer
  /-- `MyMatch::sessions` -/
  sessions : Table AccountId Hash SocketId
  /-- `MyBattle::sessions`; of a game only its two accounts matter here -/
  battles : Nat → Table AccountId Hash (Sides AccountId)
  /-- the accounts the database accepted a login to -/
  loggedIn : List AccountId
  /-- the texts the auth server made cookies of -/
  hashed : List (List Byte)
  /-- the cookies it stored or went to store, with the account -/
  issued : List (AccountId × Hash)
  /-- the cookies it sent to a client that had logged in to the account, and the server it
  sent the client to -/
  replied : List (AccountId × Hash × Text)
  /-- the cookies of the players of a transfer, and the battle server that has accepted it -/
  transfers : List (Hash × Nat)
  /-- the cookies presented by clients that were let in, and the account they were taken for -/
  admitted : List (Server × AccountId × Hash)

/-- What a handler meets besides Redis. -/
structure Choice where
  /-- the database has the data of the players -/
  informed : Bool
  /-- the socket is open -/
  isOpen : Bool
  /-- the result of `TransferMatch`, 0 for a failure -/
  transferred : Nat

namespace Cluster

def start : Cluster :=
  ⟨⟨.empty, []⟩, Table.empty, fun _ => Table.empty, [], [], [], [], [], []⟩

def setBattle (c : Cluster) (machineId : Nat) (sessions : Table AccountId Hash (Sides AccountId)) :
    Cluster := { c with battles := Function.update c.battles machineId sessions }

def letIn (c : Cluster) (server : Server) (accountId : AccountId) (cookie : Hash) : Cluster :=
  { c with admitted := (server, accountId, cookie) :: c.admitted }

/-! ## `MyAuth` -/

/-- The text the next cookie is made of. -/
def message : Auth.Stage → List Byte
  | .check accountId now =>
    ((ByteQueue.create (image 8 accountId)).add (ByteQueue.create now)).bytes
  | .probe _ cookie | .store _ cookie => cookie.toList

/-- The reply to the login, where it has a cookie: the server that the session is on, or
the match server for a new one. -/
def loginReply : Auth.Stage → Answer → Option (AccountId × Hash × Text)
  | .check accountId _, .session (.ok (cookie, serverName)) =>
    if serverName = Redis.keywordMatch.text ∨ 0 < Auth.parsedId serverName then
      some (accountId, cookie, serverName)
    else none
  | .store accountId cookie, .set (.ok _) => some (accountId, cookie, Redis.keywordMatch.text)
  | _, _ => none

def login (c : Cluster) (sha256 : List Byte → Hash) (stage : Auth.Stage) (answer : Answer) :
    Stage × Cluster :=
  let c := { c with replied := (loginReply stage answer).toList ++ c.replied }
  match stage.next sha256 answer with
  | none => (.ended, c)
  | some (.store accountId cookie) =>
    (.login (.store accountId cookie), { c with issued := (accountId, cookie) :: c.issued })
  | some next => (.login next, { c with hashed := message stage :: c.hashed })

/-! ## `MyMatch` -/

/-- `AuthenticateProcess` after the lookup. The entry stays when the database fails. -/
def enterMatch (c : Cluster) (x : Choice) (client : SocketId) (cookie : Hash) :
    Answer → Stage × Cluster
  | .owner (.ok (accountId, serverName)) =>
    if serverName ≠ Redis.keywordMatch.text then (.ended, c)
    else
      let c := { c with sessions := Match.MyMatch.entered c.sessions accountId cookie client }
      (.ended, if x.informed then c.letIn .matching accountId cookie else c)
  | _ => (.ended, c)

/-- The players without a socket leave `sessions`. -/
def giveUp (c : Cluster) (ids : Sides AccountId) (left right : Option Hash) : Cluster :=
  let sessions := if left.isSome then c.sessions else (c.sessions.eraseLKey ids.left).2
  { c with sessions := if right.isSome then sessions else (sessions.eraseLKey ids.right).2 }

/-- Both players are looked up and refreshed. -/
def transfer (c : Cluster) (x : Choice) (ids : Sides AccountId) (left right : Option Hash) :
    Stage × Cluster :=
  match left, right with
  | some left, some right =>
    if x.transferred = 0 then (.ended, c)
    else (.relocateLeft ids ⟨left, right⟩ x.transferred,
      { c with transfers := (left, x.transferred) :: (right, x.transferred) :: c.transfers })
  | left, right => (.ended, c.giveUp ids left right)

def lookRight (c : Cluster) (x : Choice) (ids : Sides AccountId) (left : Option Hash) :
    Stage × Cluster :=
  match c.sessions.findLKey ids.right with
  | some (cookie, _) => (.refreshRight ids left cookie, c)
  | none => c.transfer x ids left none

/-- `MatchMake` with the match at the front of the queue. -/
def lookLeft (c : Cluster) (x : Choice) (ids : Sides AccountId) : Stage × Cluster :=
  match c.sessions.findLKey ids.left with
  | some (cookie, _) => (.refreshLeft ids cookie, c)
  | none => c.lookRight x ids none

/-- The cookie of a player whose session lives and whose socket is open. -/
def refreshed (x : Choice) (cookie : Hash) : Answer → Option Hash
  | .flag true => if x.isOpen then some cookie else none
  | _ => none

def relocated (c : Cluster) (ids : Sides AccountId) : Cluster :=
  { c with sessions := ((c.sessions.eraseLKey ids.left).2.eraseLKey ids.right).2 }

/-! ## `MyBattle` -/

/-- `AuthenticateProcess` after the lookup. -/
def enterBattle (c : Cluster) (machineId : Nat) (cookie : Hash) : Answer → Stage × Cluster
  | .owner (.ok (accountId, serverName)) =>
    if serverName ≠ (battleName machineId).text then (.ended, c)
    else match (c.battles machineId).findRKey cookie with
      | some (_, players) =>
        if accountId = players.left ∨ accountId = players.right then
          (.ended, c.letIn (.battle machineId) accountId cookie)
        else (.sendBack accountId cookie,
          c.setBattle machineId ((c.battles machineId).eraseLKey accountId).2)
      | none => (.sendBack accountId cookie, c)
  | _ => (.ended, c)

/-- The cookie `GetInfoFromID` gave. -/
def cookieOf : Answer → Option Hash
  | .session (.ok (cookie, _)) => some cookie
  | _ => none

/-- `MatchTransfer` after both lookups. -/
def enroll (c : Cluster) (x : Choice) (machineId : Nat) (ids : Sides AccountId)
    (left right : Option Hash) : Cluster :=
  match left, right with
  | some left, some right =>
    if x.informed then
      let sessions := ((c.battles machineId).insert ids.left left ids).2
      c.setBattle machineId (sessions.insert ids.right right ids).2
    else c
  | _, _ => c

/-- The players of a finished game leave `sessions` one by one, then whoever is left. -/
def settle (c : Cluster) (machineId : Nat) (ids : Sides AccountId) :
    List (AccountId × Bool) → Stage × Cluster
  | [] => (.ended, c.setBattle machineId
      (((c.battles machineId).eraseLKey ids.left).2.eraseLKey ids.right).2)
  | (player, connected) :: rest =>
    match (c.battles machineId).eraseLKey player with
    | (none, _) => c.settle machineId ids rest
    | (some (accountId, cookie, _), sessions) =>
      (if connected then .release machineId ids accountId cookie rest
        else .clear machineId ids accountId cookie rest, c.setBattle machineId sessions)

/-! ## Steps -/

/-- A handler goes on with the answer to its call. -/
def proceed (c : Cluster) (sha256 : List Byte → Hash) (x : Choice) (answer : Answer) :
    Stage → Stage × Cluster
  | .login stage => c.login sha256 stage answer
  | .authenticate .matching client cookie => c.enterMatch x client cookie answer
  | .authenticate (.battle machineId) _ cookie => c.enterBattle machineId cookie answer
  | .heartbeat _ _ _ => (.ended, c)
  | .refreshLeft ids cookie => c.lookRight x ids (refreshed x cookie answer)
  | .refreshRight ids left cookie => c.transfer x ids left (refreshed x cookie answer)
  | .relocateLeft ids cookies machineId => (.relocateRight ids cookies machineId, c)
  | .relocateRight ids _ _ => (.ended, c.relocated ids)
  | .sendBack _ _ => (.ended, c)
  | .transferLeft machineId ids => (.transferRight machineId ids (cookieOf answer), c)
  | .transferRight machineId ids left =>
    (.ended, c.enroll x machineId ids left (cookieOf answer))
  | .release machineId ids _ _ rest => c.settle machineId ids rest
  | .clear machineId ids _ _ rest => c.settle machineId ids rest
  | .ended => (.ended, c)

inductive Label where
  /-- a login the database accepts, with the clock at that time -/
  | login (accountId : AccountId) (now : Nat)
  /-- a client sends 32 bytes, whoever it is and wherever it has them from -/
  | present (server : Server) (client : SocketId) (cookie : Hash)
  | heartbeat (server : Server) (accountId : AccountId) (cookie : Hash)
  /-- a match at the front of the matchmaker's queue -/
  | matched (ids : Sides AccountId) (x : Choice)
  /-- a transfer that arrives, and a game that ends with these players connected -/
  | transferred (machineId : Nat) (ids : Sides AccountId)
  | finished (machineId : Nat) (ids : Sides AccountId) (connected : Sides Bool)
  /-- the match server notices that a client has gone -/
  | gone (accountId : AccountId) (client : SocketId)
  /-- the next Redis command of a handler, and what it does after its call -/
  | command (i : Nat)
  | proceed (i : Nat) (x : Choice)
  | lose (i : Nat)
  | expire (keys : List Word)

/-- A new handler. -/
def enter : Stage × Cluster → Cluster
  | (stage, c) => { c with redis := { c.redis with
      clients := c.redis.clients ++ [.start handlers stage] } }

/-- The handler of a client at its next stage. -/
def resume (i : Nat) (client : Client Stage Answer) : Stage × Cluster → Cluster
  | (stage, c) => { c with redis := { c.redis with
      clients := c.redis.clients.set i { client with
        stage, task := (handlers.body stage).resume client.conn.isOpen } } }

def step (sha256 : List Byte → Hash) (c : Cluster) : Label → Option Cluster
  | .login accountId now =>
    if accountId < 2 ^ 64 then
      some (enter (.login (.check accountId (image 8 now)),
        { c with loggedIn := accountId :: c.loggedIn }))
    else none
  | .present server client cookie => some (enter (.authenticate server client cookie, c))
  | .heartbeat server accountId cookie =>
    if (server, accountId, cookie) ∈ c.admitted then
      some (enter (.heartbeat server accountId cookie, c))
    else none
  | .matched ids x => some (enter (c.lookLeft x ids))
  | .transferred machineId ids => some (enter (.transferLeft machineId ids, c))
  | .finished machineId ids connected =>
    some (enter (c.settle machineId ids [(ids.left, connected.left), (ids.right, connected.right)]))
  | .gone accountId client => match c.sessions.findLKey accountId with
    | some (_, registered) => some (if registered = client then
        { c with sessions := (c.sessions.eraseLKey accountId).2 } else c)
    | none => some c
  | .command i => (c.redis.step handlers (.step i)).map fun redis => { c with redis }
  | .proceed i x => c.redis.clients[i]?.bind fun client => match client.task with
    | .done answer => some (resume i client (c.proceed sha256 x answer client.stage))
    | .busy _ _ _ _ => none
  | .lose i => (c.redis.step handlers (.lose i)).map fun redis => { c with redis }
  | .expire keys => (c.redis.step handlers (.expire keys)).map fun redis => { c with redis }

end Cluster

end DrgbServer.Servers
