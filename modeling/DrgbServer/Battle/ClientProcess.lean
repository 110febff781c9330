import DrgbServer.Battle.MyBattle

/-! # The handlers of a battle server

`AuthenticateProcess` puts a client into the game of its account and `ClientProcess`
takes its actions. Of the two only the action of a player is read inside a `try`
block. -/
namespace DrgbServer.Battle
open DrgbServer.Utils DrgbServer.Network DrgbServer.Lib.Procedure

structure BattleServer where
  battle : MyBattle
  sockets : Sockets
  /-- the calls of `redis.SetInfo`; their results are not looked at -/
  setInfos : List (AccountId × Hash × String)

def keywordMatch : String := "match"

/-- `operator[]` of the array, for an index of a player. -/
def Sides.get {α : Type} (x : Sides α) (side : Int) : α := if side = 0 then x.left else x.right

namespace BattleServer

/-- `redis.GetInfoFromCookie`. -/
abbrev CookieInfo := Hash → Option (AccountId × String)

def send (client : SocketId) (bytes : ByteQueue) : Proc BattleServer Stop Unit :=
  modify fun s => { s with sockets := s.sockets.modify client (·.send bytes) }

def close (client : SocketId) : Proc BattleServer Stop Unit :=
  modify fun s => { s with sockets := s.sockets.modify client (·.close) }

def fillTTL (client : SocketId) : Proc BattleServer Stop Unit :=
  modify fun s => { s with sockets := s.sockets.modify client (·.fillTTL sessionTTL) }

/-! ## `AuthenticateProcess` -/

/-- No session, or one of another server. -/
def refuse (client : SocketId) : Proc BattleServer Stop Unit := do
  send client (code errNoMatchAccount)
  close client

/-- A session with no game here goes back to the match server. -/
def sendBack (client : SocketId) (accountId : AccountId) (cookie : Hash) :
    Proc BattleServer Stop Unit := do
  send client (code errNoMatchAccount)
  modify fun s => { s with setInfos := s.setInfos ++ [(accountId, cookie, keywordMatch)] }
  close client

/-- The dup-access branch: the older socket, if it is still there, is told and closed. -/
def supersede (origin : Option SocketId) : Proc BattleServer Stop Unit := do
  let s ← get
  match origin.filter fun k => (s.sockets k).isSome with
  | some k => do
    send k (code errDuplicatedAccess)
    close k
  | none => pure ()

/-- The player's own record, then the opponent's. -/
def playerNames (info : GameInfo) (side : Int) : ByteQueue :=
  (code gamePlayerInfoName).add
    ((info.playerInfos.get side).add (info.playerInfos.get (2 - (side + 1))))

/-- The account enters its game. -/
def joinGame (client : SocketId) (accountId : AccountId) (cookie : Hash) :
    Proc BattleServer Stop (Option (AccountId × Int × GameId)) := do
  let s ← get
  match s.battle.sessions.findRKey cookie with
  | none => do
    sendBack client accountId cookie
    return none
  | some (_, g) => match s.battle.games[g]? with
    | none => throw .undefined
    | some info =>
      -- 0 where the account is not in the game: the default of the failed lookup
      let side := ((info.session.findLKey accountId).map (·.1)).getD 0
      match info.enter accountId client with
      | none => do
        modify fun s => { s with battle := s.battle.eraseSession accountId }
        sendBack client accountId cookie
        return none
      | some (origin, entered) => do
        modify fun s =>
          let battle := s.battle.setGame g entered
          { s with battle := battle.setPool (battle.gamepool.cancel info.timer) }
        supersede origin
        send client (playerNames info side)
        fillTTL client
        return some (accountId, side, g)

/-- `AuthenticateProcess` after a successful receive, up to its call of `ClientProcess`
for the account, its side and its game. -/
def authenticateProcess (selfKeyword : String) (client : SocketId) (cookieInfo : CookieInfo)
    (packet : ByteQueue) : Proc BattleServer Stop (Option (AccountId × Int × GameId)) := do
  let (cookie, _) ← raise (packet.pop 32 false)
  match cookieInfo (toHash cookie) with
  | none => do
    refuse client
    return none
  | some (accountId, serverName) =>
    if serverName ≠ selfKeyword then do
      refuse client
      return none
    else joinGame client accountId (toHash cookie)

/-! ## `ClientProcess` -/

/-- `GameSession->Action`. -/
def play (side : Int) (g : GameId) (action : BitVec 32) : Proc BattleServer Stop Unit := do
  let s ← get
  match s.battle.games[g]? with
  -- the handler holds the game, so the list has it
  | none => pure ()
  | some info => do
    let game ← raise (info.game.action (MyGame.playerOf side) action)
    modify fun s => { s with battle := s.battle.setGame g { info with game := game } }

/-- `ClientProcess` after a successful receive, up to its last line. The header is read
outside of the `try` block. -/
def clientProcess (client : SocketId) (side : Int) (g : GameId) (packet : ByteQueue) :
    Proc BattleServer Stop Unit := do
  let (header, packet) ← raise (packet.pop 1 false)
  let header := header.headD 0
  if header = ansHeartbeat then fillTTL client
  else if header = reqGameAction then
    catching
      (do
        let (action, _) ← raise (packet.pop 4 false)
        play side g (BitVec.ofNat 32 (ofImage action)))
      fun _ => send client (code errProtocolViolation)
  else send client (code errProtocolViolation)

/-! ## What one run throws -/

section Throwing
variable {client : SocketId} {I : BattleServer → Prop} {E : Stop → Prop}

/-- What `ClientProcess` does to the state keeps `I`. -/
structure Stable (client : SocketId) (I : BattleServer → Prop) : Prop where
  send : ∀ s q, I s → I { s with sockets := s.sockets.modify client (·.send q) }
  fillTTL : ∀ s n, I s → I { s with sockets := s.sockets.modify client (·.fillTTL n) }
  battle : ∀ s b, I s → I { s with battle := b }

theorem send_keeps (hs : Stable client I) (q : ByteQueue) : Keeps I E (send client q) :=
  keeps_modify fun s h => hs.send s q h

theorem play_keeps (hs : Stable client I) (side : Int) (g : GameId) (action : BitVec 32) :
    Keeps I (· ≠ .undefined) (play side g action) := by
  refine keeps_bind keeps_get fun s => ?_
  split
  · exact keeps_pure
  · refine keeps_bind (keeps_raise fun e _ => nofun) fun game => ?_
    exact keeps_modify fun s h => hs.battle s _ h

/-- **One packet with a header lets no exception out.** -/
theorem clientProcess_keeps (hs : Stable client I) (side : Int) (g : GameId) {packet : List Byte}
    (hp : 1 ≤ (ByteQueue.ofVector packet).size) :
    Keeps I E (clientProcess client side g (ByteQueue.ofVector packet)) := by
  obtain ⟨r, hr⟩ := ByteQueue.pop_ofVector_of_le hp false
  rw [clientProcess, hr, raise_ok_bind]
  dsimp only
  split
  · exact keeps_modify fun s h => hs.fillTTL s _ h
  split
  · refine keeps_catching ?_ fun e => send_keeps hs _
    exact keeps_bind (keeps_raise fun e _ => nofun) fun p => play_keeps hs side g _
  · exact send_keeps hs _

/-- An empty packet gets one out: there is no header to read. -/
theorem clientProcess_throws (client : SocketId) (side : Int) (g : GameId) {packet : List Byte}
    (hp : ¬ 1 ≤ (ByteQueue.ofVector packet).size) (s : BattleServer) :
    Throws (clientProcess client side g (ByteQueue.ofVector packet)) s :=
  throws_bind_left (throws_pop hp (by decide) s) _

theorem sendBack_keeps (accountId : AccountId) (cookie : Hash) :
    Keeps (fun _ => True) E (sendBack client accountId cookie) := by
  refine keeps_bind (keeps_modify fun _ _ => trivial) fun _ => ?_
  exact keeps_bind (keeps_modify fun _ _ => trivial) fun _ => keeps_modify fun _ _ => trivial

theorem supersede_keeps (origin : Option SocketId) :
    Keeps (fun _ => True) E (supersede origin) := by
  refine keeps_bind keeps_get fun s => ?_
  split
  · exact keeps_bind (keeps_modify fun _ _ => trivial) fun _ => keeps_modify fun _ _ => trivial
  · exact keeps_pure

theorem joinGame_keeps (accountId : AccountId) (cookie : Hash) :
    Keeps (fun _ => True) E (joinGame client accountId cookie) := by
  refine keeps_bind keeps_get fun s => ?_
  split
  · exact keeps_bind (sendBack_keeps _ _) fun _ => keeps_pure
  · rename_i l g hfind
    split
    · -- the sessions lead to games of the list
      rename_i hnone
      have hlt := s.battle.allocated l cookie g (Table.findRKey_eq_some.mp hfind)
      exact absurd hlt (not_lt.mpr (List.getElem?_eq_none_iff.mp hnone))
    · dsimp only
      split
      · refine keeps_bind (keeps_modify fun _ _ => trivial) fun _ => ?_
        exact keeps_bind (sendBack_keeps _ _) fun _ => keeps_pure
      · refine keeps_bind (keeps_modify fun _ _ => trivial) fun _ => ?_
        refine keeps_bind (supersede_keeps _) fun _ => ?_
        refine keeps_bind (keeps_modify fun _ _ => trivial) fun _ => ?_
        exact keeps_bind (keeps_modify fun _ _ => trivial) fun _ => keeps_pure

/-- **Authentication throws nothing** on a packet that holds a cookie. -/
theorem authenticateProcess_keeps (selfKeyword : String) (cookieInfo : CookieInfo)
    {packet : List Byte} (hp : 32 ≤ (ByteQueue.ofVector packet).size) :
    Keeps (fun _ => True) E
      (authenticateProcess selfKeyword client cookieInfo (ByteQueue.ofVector packet)) := by
  obtain ⟨r, hr⟩ := ByteQueue.pop_ofVector_of_le hp false
  have hrefuse : Keeps (fun _ => True) E (refuse client) :=
    keeps_bind (keeps_modify fun _ _ => trivial) fun _ => keeps_modify fun _ _ => trivial
  rw [authenticateProcess, hr, raise_ok_bind]
  dsimp only
  split
  · exact keeps_bind hrefuse fun _ => keeps_pure
  · split
    · exact keeps_bind hrefuse fun _ => keeps_pure
    · exact joinGame_keeps _ _

end Throwing

/-! ## The handlers with their `StartRecv` -/

section Handlers
variable {κ : Type} (crypt : κ → List Byte → Except Exn (List Byte) × κ)

def onReceive (client : SocketId) (side : Int) (g : GameId)
    (meanwhile : Nat → BattleServer → BattleServer) (inbox : Inbox κ) (packet : List Byte) :
    Proc BattleServer Stop (Inbox κ) :=
  receiving crypt (·.sockets.accepts client) meanwhile (fun _ => clientProcess client side g) inbox
    packet

def onAuthenticate (selfKeyword : String) (client : SocketId) (cookieInfo : CookieInfo)
    (meanwhile : Nat → BattleServer → BattleServer) (inbox : Inbox κ) (packet : List Byte) :
    Proc BattleServer Stop (Inbox κ) := do
  match ← authenticateProcess selfKeyword client cookieInfo (ByteQueue.ofVector packet) with
  | none => return inbox
  | some (_, side, g) =>
    startRecv crypt (·.sockets.accepts client) meanwhile (fun _ => clientProcess client side g)
      inbox.isSecure inbox.msgs inbox.decryptor 0

/-- The handler of `ClientProcess` finishes without an exception, whatever the state of
the server and the other threads. -/
def Finishes (client : SocketId) (side : Int) (g : GameId) (inbox : Inbox κ) (packet : List Byte) :
    Prop :=
  ∀ meanwhile s, ∃ rest t,
    exec (onReceive crypt client side g meanwhile inbox packet) s = (.ok rest, t)

def AuthenticateFinishes (selfKeyword : String) (client : SocketId) (inbox : Inbox κ)
    (packet : List Byte) : Prop :=
  ∀ cookieInfo meanwhile s, ∃ rest t,
    exec (onAuthenticate crypt selfKeyword client cookieInfo meanwhile inbox packet) s =
      (.ok rest, t)

variable {crypt}

/-- A packet with a header byte. -/
def Headed (packet : List Byte) : Prop := 1 ≤ (ByteQueue.ofVector packet).size

theorem true_stable (client : SocketId) : Stable client fun _ => True :=
  ⟨fun _ _ _ => trivial, fun _ _ _ => trivial, fun _ _ _ => trivial⟩

theorem accepts_stable (client : SocketId) :
    Stable client fun s => s.sockets.accepts client = true := by
  refine ⟨?_, ?_, fun _ _ h => h⟩
  · intro s q h
    exact (s.sockets.accepts_modify client client fun c => c.accepts_send q).trans h
  · intro s n h
    exact (s.sockets.accepts_modify client client fun c => c.accepts_fillTTL n).trans h

/-- A server with one open socket and one game, that of account 1 with the cookie. -/
def serving (client : SocketId) (cookie : Hash) : BattleServer where
  battle :=
    { MyBattle.start with
      sessions := (Table.empty.insert 1 cookie 0).2
      games := [GameInfo.make ⟨1, 2⟩ 0 ⟨ByteQueue.empty, ByteQueue.empty⟩]
      allocated := by
        intro id cookie' g h
        rcases Table.findLKey_of_insert h with ⟨_, _, rfl⟩ | h
        · exact Nat.zero_lt_one
        · simp at h }
  sockets := Function.update (fun _ => none) client (some ⟨true, false, 0, []⟩)
  setInfos := []

theorem serving_accepts (client : SocketId) (cookie : Hash) :
    (serving client cookie).sockets.accepts client = true := by
  simp [serving, Sockets.accepts, Socket.accepts]

theorem finishes_iff (client : SocketId) (side : Int) (g : GameId) (inbox : Inbox κ)
    (packet : List Byte) :
    Finishes crypt client side g inbox packet ↔ Headed packet ∧ inbox.Legible crypt Headed := by
  constructor
  · intro h
    by_contra hl
    have hthrow : Throws (onReceive crypt client side g (fun _ => id) inbox packet)
        (serving client (toHash [])) :=
      receiving_throws (fun _ hs => hs)
        (fun _ v hv => clientProcess_keeps (accepts_stable client) side g hv)
        (fun _ v s hv => clientProcess_throws client side g hv s) hl (serving_accepts client _)
    obtain ⟨rest, t, hr⟩ := h (fun _ => id) (serving client (toHash []))
    exact hthrow.not_returns hr
  · rintro ⟨hp, hl⟩ meanwhile s
    have hk : Keeps (fun _ => True) (fun _ => False)
        (onReceive crypt client side g meanwhile inbox packet) :=
      receiving_keeps _ _ (fun _ v hv => clientProcess_keeps (true_stable client) side g hv) hp hl
    obtain ⟨rest, t, hr, _⟩ := hk.returns (s := s) trivial
    exact ⟨rest, t, hr⟩

/-- The owner of the cookie enters its game. -/
theorem joinGame_serving (client : SocketId) (cookie : Hash) :
    ∃ t, exec (joinGame client 1 cookie) (serving client cookie) = (.ok (some (1, 0, 0)), t) ∧
      t.sockets.accepts client = true := by
  have hins : (Table.empty.insert 1 cookie 0 : Bool × Table AccountId Hash GameId).1 = true :=
    Table.insert_fst.mpr ⟨Table.findLKey_empty, Table.findRKey_empty⟩
  have hfind : (serving client cookie).battle.sessions.findRKey cookie = some (1, 0) := by
    refine Table.findRKey_eq_some.mpr ?_
    exact (Table.findLKey_insert hins 1).trans (if_pos rfl)
  let info := GameInfo.make ⟨1, 2⟩ 0 ⟨ByteQueue.empty, ByteQueue.empty⟩
  have hgame : (serving client cookie).battle.games[0]? = some info := rfl
  have hside : info.session.findLKey 1 = some (0, none) := by decide +kernel
  obtain ⟨entered, henter⟩ : ∃ entered, info.enter 1 client = some (none, entered) := by
    simp [GameInfo.enter, Table.insertLKeyValue_fst, hside]
  rw [joinGame, exec_bind, exec_get]
  simp only [hfind, hgame, hside, henter]
  refine ⟨_, rfl, ?_⟩
  simp only [Sockets.accepts_modify _ client client (fun c => c.accepts_fillTTL _),
    Sockets.accepts_modify _ client client (fun c => c.accepts_send _)]
  exact serving_accepts client cookie

theorem authenticateFinishes_iff (selfKeyword : String) (client : SocketId) (inbox : Inbox κ)
    (packet : List Byte) :
    AuthenticateFinishes crypt selfKeyword client inbox packet ↔
      32 ≤ (ByteQueue.ofVector packet).size ∧ inbox.Legible crypt Headed := by
  constructor
  · intro h
    by_contra hl
    rw [not_and] at hl
    by_cases hp : 32 ≤ (ByteQueue.ofVector packet).size
    · obtain ⟨r, hr⟩ := ByteQueue.pop_ofVector_of_le hp false
      obtain ⟨t, ht, hopen⟩ := joinGame_serving client (toHash r.1)
      obtain ⟨rest, t', ht'⟩ := h (fun _ => some (1, selfKeyword)) (fun _ => id)
        (serving client (toHash r.1))
      have hauth : exec (authenticateProcess selfKeyword client (fun _ => some (1, selfKeyword))
          (ByteQueue.ofVector packet)) (serving client (toHash r.1)) = (.ok (some (1, 0, 0)), t) := by
        rw [authenticateProcess, hr, raise_ok_bind]
        dsimp only
        rw [if_neg (not_not.mpr rfl), ht]
      have hthrow := startRecv_throws (fun _ hs => hs)
        (fun _ v hv => clientProcess_keeps (accepts_stable client) 0 0 hv)
        (fun _ v s hv => clientProcess_throws client 0 0 hv s) (hl hp) 0 hopen
      exact (throws_bind_right hauth hthrow).not_returns ht'
    · obtain ⟨rest, t, ht⟩ := h (fun _ => none) (fun _ => id) (serving client (toHash []))
      exact (throws_bind_left (throws_bind_left (throws_pop hp (by decide) _) _) _).not_returns ht
  · rintro ⟨hp, hl⟩ cookieInfo meanwhile s
    have hk : Keeps (fun _ => True) (fun _ => False)
        (onAuthenticate crypt selfKeyword client cookieInfo meanwhile inbox packet) := by
      refine keeps_bind (authenticateProcess_keeps selfKeyword cookieInfo hp) fun found => ?_
      split
      · exact keeps_pure
      · exact startRecv_keeps _ _ (fun _ v hv => clientProcess_keeps (true_stable client) _ _ hv)
          hl 0
    obtain ⟨rest, t, hr, _⟩ := hk.returns (s := s) trivial
    exact ⟨rest, t, hr⟩

end Handlers
end BattleServer
end DrgbServer.Battle
