import DrgbServer.Match.Coherence
import DrgbServer.Match.MyMatch
import DrgbServer.Match.Queueing

/-! # One round of `MatchMake`

The body of the loop over the matches, with every answer of Redis and of the battle
servers as an argument. The results of `SetInfo` and of `Send` are not looked at, and
`Enter` drops a player when an equivalent one waits already; `round_ends` says that
these are the only ways to lose a player. -/
namespace DrgbServer.Match
open DrgbServer.Utils DrgbServer.Network DrgbServer.Lib DrgbServer.Lib.Procedure

/-- The index of the two players of a match. -/
inductive Side where
  | left
  | right
deriving DecidableEq

namespace Side

def of {α : Type} (p : α × α) : Side → α
  | .left => p.1
  | .right => p.2

def other : Side → Side
  | .left => .right
  | .right => .left

end Side

/-- The match server with the sessions Redis keeps: the cookie of an account and the
server it is located at. -/
structure Located where
  mm : MyMatch
  redis : AccountId → Option (Hash × String)

namespace Located

/-- What one round hears from the outside. -/
structure Answers where
  /-- `redis.RefreshInfo` -/
  refreshed : Side → Bool
  /-- `is_open` of the socket -/
  isOpen : Side → Bool
  /-- `MatchService.TransferMatch` -/
  battleServer : Seed
  /-- `redis.SetInfo` reached the store -/
  setInfo : Side → Bool
  /-- the elements of `wait_queue` an insertion compares with -/
  visited : Side → List Nat

def send (client : SocketId) (bytes : ByteQueue) : Proc Located Stop Unit :=
  modify fun s => { s with mm.sockets := s.mm.sockets.modify client (·.send bytes) }

def close (client : SocketId) : Proc Located Stop Unit :=
  modify fun s => { s with mm.sockets := s.mm.sockets.modify client (·.close) }

def eraseLKey (id : AccountId) : Proc Located Stop Unit :=
  modify fun s => { s with mm.sessions := (s.mm.sessions.eraseLKey id).2 }

def enter (ar : Arith) (elem : QueueElement) (visited : List Nat) : Proc Located Stop Unit :=
  modify fun s => { s with mm.matchmaker := s.mm.matchmaker.enterElem ar elem visited }

def popMatch : Proc Located Stop Unit :=
  modify fun s => { s with mm.matchmaker := s.mm.matchmaker.popMatch }

def relocated (done : Bool) (id : AccountId) (cookie : Hash) (serverName : String)
    (redis : AccountId → Option (Hash × String)) : AccountId → Option (Hash × String) :=
  if done then Function.update redis id (some (cookie, serverName)) else redis

/-- `redis.SetInfo`, whose error code nobody reads. -/
def setInfo (done : Bool) (id : AccountId) (cookie : Hash) (serverName : String) :
    Proc Located Stop Unit :=
  modify fun s => { s with redis := relocated done id cookie serverName s.redis }

/-- The first loop, for one side: the cookie and the socket of a player who is there. The
pointer of the session is used without a test. -/
def seek (a : Answers) (i : Side) (id : AccountId) : Proc Located Stop (Option (Hash × SocketId)) := do
  let s ← get
  match s.mm.sessions.findLKey id with
  | none => return none
  | some (cookie, k) =>
    if (s.mm.sockets k).isNone then throw .undefined
    else do
      send k (code ansHeartbeat)
      if !a.refreshed i || !a.isOpen i then do
        close k
        return none
      else return some (cookie, k)

def battleName (battleServer : Seed) : String := "battle" ++ toString battleServer

def matchMade (battleServer : Seed) : ByteQueue := (code ansMatchmade).push (intImage battleServer)

/-- The result is sent and the session given up. -/
def dismiss (a : Answers) (id : AccountId) (client : SocketId) : Proc Located Stop Unit := do
  send client (matchMade a.battleServer)
  eraseLKey id
  close client

/-- Both players are there; `false` leaves the loop. -/
def transfer (a : Answers) (m : MatchPair) (l r : Hash × SocketId) : Proc Located Stop Bool :=
  catching
    (if a.battleServer ≤ 0 then throw (.thrown (.stackTrace "ERR_OUT_OF_CAPACITY"))
    else do
      setInfo (a.setInfo .left) m.1.id l.1 (battleName a.battleServer)
      setInfo (a.setInfo .right) m.2.id r.1 (battleName a.battleServer)
      dismiss a m.1.id l.2
      dismiss a m.2.id r.2
      popMatch
      return true)
    fun _ => return false

/-- A player who is there goes back to `wait_queue`, one who is not loses the session. -/
def giveBack (ar : Arith) (a : Answers) (i : Side) (elem : QueueElement)
    (there : Option (Hash × SocketId)) : Proc Located Stop Unit :=
  if there.isSome then enter ar elem (a.visited i) else eraseLKey elem.id

/-- The body of the loop `while(matchmaker.isThereMatch())`. -/
def round (ar : Arith) (a : Answers) : Proc Located Stop Bool := do
  let m := (← get).mm.matchmaker.getMatch.1
  let l ← seek a .left m.1.id
  let r ← seek a .right m.2.id
  match l, r with
  | some l, some r => transfer a m l r
  | l, r => do
    giveBack ar a .left m.1 l
    giveBack ar a .right m.2 r
    popMatch
    return true

/-! ## What a round does -/

variable {ar : Arith} {a : Answers} {s : Located}

/-- The element of one side of the front match. -/
def player (s : Located) (i : Side) : QueueElement := i.of s.mm.matchmaker.getMatch.1

/-- The cookie and the socket of a side that is available. -/
def there (a : Answers) (s : Located) (i : Side) : Option (Hash × SocketId) :=
  (s.mm.sessions.findLKey (s.player i).id).filter fun _ => a.refreshed i && a.isOpen i

/-- The pointers of all sessions are live. -/
def Live (s : Located) : Prop :=
  ∀ id cookie k, s.mm.sessions.findLKey id = some (cookie, k) → (s.mm.sockets k).isSome = true

/-- The state after the first loop was at one side. -/
def sought (a : Answers) (i : Side) (id : AccountId) (s : Located) : Located :=
  match s.mm.sessions.findLKey id with
  | none => s
  | some (_, k) =>
    let ss := s.mm.sockets.modify k (·.send (code ansHeartbeat))
    { s with mm.sockets := if a.refreshed i && a.isOpen i then ss else ss.modify k (·.close) }

@[simp] theorem sought_sessions (i : Side) (id : AccountId) :
    (sought a i id s).mm.sessions = s.mm.sessions := by
  unfold sought
  split <;> rfl

@[simp] theorem sought_matchmaker (i : Side) (id : AccountId) :
    (sought a i id s).mm.matchmaker = s.mm.matchmaker := by
  unfold sought
  split <;> rfl

@[simp] theorem sought_redis (i : Side) (id : AccountId) :
    (sought a i id s).redis = s.redis := by
  unfold sought
  split <;> rfl

theorem sought_live (h : s.Live) (i : Side) (id : AccountId) : (sought a i id s).Live := by
  intro id' cookie k hf
  rw [sought_sessions] at hf
  have hk := h id' cookie k hf
  unfold sought
  split
  · exact hk
  · dsimp only
    split
    · rwa [Sockets.isSome_modify]
    · rwa [Sockets.isSome_modify, Sockets.isSome_modify]

theorem exec_seek (h : s.Live) (i : Side) (id : AccountId) :
    exec (seek a i id) s = (.ok ((s.mm.sessions.findLKey id).filter fun _ =>
      a.refreshed i && a.isOpen i), sought a i id s) := by
  rw [seek, exec_bind, exec_get, sought]
  dsimp only
  rcases hf : s.mm.sessions.findLKey id with _ | ⟨cookie, k⟩
  · rfl
  · have hk : (s.mm.sockets k).isNone = false := by
      rw [← Option.not_isSome, h id cookie k hf]
      rfl
    simp only [hk, Bool.false_eq_true, if_false]
    rcases hr : a.refreshed i
    · rfl
    rcases ho : a.isOpen i
    · rfl
    · rfl

/-- The state after the first loop. -/
def looked (a : Answers) (s : Located) : Located :=
  sought a .right (s.player .right).id (sought a .left (s.player .left).id s)

theorem exec_round (h : s.Live) :
    exec (round ar a) s = match s.there a .left, s.there a .right with
      | some l, some r => exec (transfer a s.mm.matchmaker.getMatch.1 l r) (s.looked a)
      | l, r => exec (do
          giveBack ar a .left (s.player .left) l
          giveBack ar a .right (s.player .right) r
          popMatch
          return true) (s.looked a) := by
  rw [round, exec_bind, exec_get]
  dsimp only
  rw [exec_bind, exec_seek h]
  dsimp only
  rw [exec_bind, exec_seek (sought_live h _ _), sought_sessions]
  dsimp only
  change exec (match s.there a .left, s.there a .right with
    | some l, some r => _
    | l, r => _) (s.looked a) = _
  rcases s.there a .left with _ | l <;> rcases s.there a .right with _ | r <;> rfl

theorem exec_round_of_there (ar : Arith) (h : s.Live) {l r : Hash × SocketId}
    (hl : s.there a .left = some l) (hr : s.there a .right = some r) :
    exec (round ar a) s = exec (transfer a s.mm.matchmaker.getMatch.1 l r) (s.looked a) := by
  rw [exec_round h, hl, hr]

/-! ## How a round ends -/

inductive Ending where
  /-- no battle server took the match -/
  | kept
  | moved
  /-- a side was not available -/
  | returned
deriving DecidableEq

def locatedAt (s : Located) (id : AccountId) (serverName : String) : Prop :=
  (s.redis id).map (·.2) = some serverName

/-- The socket was sent the message between the two states. -/
def Told (k : SocketId) (msg : ByteQueue) (ss tt : Sockets) : Prop :=
  ∃ c c', ss k = some c ∧ tt k = some c' ∧ msg.bytes ∈ c'.sent.drop c.sent.length

def Ended (a : Answers) (s t : Located) : Ending → Prop
  | .kept => (∀ i, (s.there a i).isSome) ∧ a.battleServer ≤ 0 ∧
    t.mm.matchmaker = s.mm.matchmaker ∧ t.mm.sessions = s.mm.sessions
  | .moved => (∀ i, (s.there a i).isSome) ∧ 0 < a.battleServer ∧
    t.mm.matchmaker.matchQueue = s.mm.matchmaker.matchQueue.tail ∧
    ∀ i, t.locatedAt (s.player i).id (battleName a.battleServer) ∧
      t.mm.sessions.findLKey (s.player i).id = none ∧
      ∀ cookie k, s.there a i = some (cookie, k) →
        Told k (matchMade a.battleServer) s.mm.sockets t.mm.sockets
  | .returned => ¬ (∀ i, (s.there a i).isSome) ∧
    t.mm.matchmaker.matchQueue = s.mm.matchmaker.matchQueue.tail ∧
    ∀ i, if (s.there a i).isSome then
        s.player i ∈ t.mm.matchmaker.waitQueue ∧
        t.mm.matchmaker.counts[(s.player i).waitCount]? =
          s.mm.matchmaker.counts[(s.player i).waitCount]?
      else t.mm.sessions.findLKey (s.player i).id = none

/-- The round runs to its end, in exactly one of the three ways. -/
def Ends (ar : Arith) (a : Answers) (s : Located) : Prop :=
  ∃ again t, exec (round ar a) s = (.ok again, t) ∧ ∃! ending, Ended a s t ending

/-- Redis locates the account of a side at the battle server: by one of the two calls
of `SetInfo`, or because it did before. -/
def locates (a : Answers) (s : Located) (i : Side) : Prop :=
  (∃ j, a.setInfo j = true ∧ (s.player j).id = (s.player i).id) ∨
    s.locatedAt (s.player i).id (battleName a.battleServer)

/-- The condition. -/
structure Serves (ar : Arith) (a : Answers) (s : Located) : Prop where
  /-- when a server takes the match, Redis is told of both players and both sockets
  still send -/
  moving : (∀ i, (s.there a i).isSome) → 0 < a.battleServer → ∀ i, s.locates a i ∧
    ∀ cookie k, s.there a i = some (cookie, k) → s.mm.sockets.accepts k = true
  /-- a player who goes back meets no equivalent one -/
  returning : ¬ (∀ i, (s.there a i).isSome) → ∀ i, (s.there a i).isSome →
    ∀ e ∈ s.mm.matchmaker.waitQueue, MyMatchMaker.key ar e ≠ MyMatchMaker.key ar (s.player i)

/-- The one way that the answers leave open. -/
def kind (a : Answers) (s : Located) : Ending :=
  if (s.there a .left).isSome && (s.there a .right).isSome then
    if a.battleServer ≤ 0 then .kept else .moved
  else .returned

theorem forall_side {p : Side → Prop} : (∀ i, p i) ↔ p .left ∧ p .right :=
  ⟨fun h => ⟨h .left, h .right⟩, fun h i => by cases i; exacts [h.1, h.2]⟩

instance (s : Located) (id : AccountId) (serverName : String) :
    Decidable (s.locatedAt id serverName) := inferInstanceAs (Decidable (_ = _))

theorem Ended.eq_kind {t : Located} {ending : Ending} (h : Ended a s t ending) :
    ending = s.kind a := by
  unfold kind
  cases ending with
  | kept =>
    obtain ⟨hthere, hserver, _⟩ := h
    rw [hthere .left, hthere .right, Bool.and_self, if_pos rfl, if_pos hserver]
  | moved =>
    obtain ⟨hthere, hserver, _⟩ := h
    rw [hthere .left, hthere .right, Bool.and_self, if_pos rfl, if_neg (not_le.mpr hserver)]
  | returned =>
    obtain ⟨hgone, _⟩ := h
    rw [forall_side, ← Bool.and_eq_true] at hgone
    rw [if_neg hgone]

theorem ends_iff {again : Bool} {t : Located} (h : exec (round ar a) s = (.ok again, t)) :
    Ends ar a s ↔ Ended a s t (s.kind a) := by
  constructor
  · intro hgiven
    obtain ⟨_, t', ht', ending, hended, _⟩ := hgiven
    rw [h] at ht'
    cases ht'
    rwa [← hended.eq_kind]
  · exact fun hended => ⟨again, t, h, s.kind a, hended, fun _ h' => h'.eq_kind⟩

theorem looked_matchmaker : (s.looked a).mm.matchmaker = s.mm.matchmaker := by
  rw [looked, sought_matchmaker, sought_matchmaker]

theorem looked_sessions : (s.looked a).mm.sessions = s.mm.sessions := by
  rw [looked, sought_sessions, sought_sessions]

theorem looked_redis : (s.looked a).redis = s.redis := by
  rw [looked, sought_redis, sought_redis]

/-! ## The match is moved -/

section Moved
variable {l r : Hash × SocketId}

theorem there_eq_some {i : Side} {p : Hash × SocketId} (h : s.there a i = some p) :
    s.mm.sessions.findLKey (s.player i).id = some p ∧ (a.refreshed i && a.isOpen i) = true := by
  unfold there at h
  obtain ⟨hf, hp⟩ := Option.filter_eq_some_iff.mp h
  exact ⟨hf, hp⟩

/-- Both sides get a heartbeat and no socket is closed. -/
theorem looked_sockets (hl : s.there a .left = some l) (hr : s.there a .right = some r) :
    (s.looked a).mm.sockets = (s.mm.sockets.modify l.2 (·.send (code ansHeartbeat))).modify r.2
      (·.send (code ansHeartbeat)) := by
  obtain ⟨hfl, hal⟩ := there_eq_some hl
  obtain ⟨hfr, har⟩ := there_eq_some hr
  have hleft : (sought a .left (s.player .left).id s).mm.sockets =
      s.mm.sockets.modify l.2 (·.send (code ansHeartbeat)) := by
    rw [sought, hfl]
    exact if_pos hal
  rw [looked, sought, sought_sessions, hfr]
  dsimp only
  rw [hleft, if_pos har]

/-- The state after a match was handed over. -/
def handedOver (a : Answers) (m : MatchPair) (l r : Hash × SocketId) (s : Located) : Located :=
  { mm :=
      { s.mm with
        sessions := ((s.mm.sessions.eraseLKey m.1.id).2.eraseLKey m.2.id).2
        matchmaker := s.mm.matchmaker.popMatch
        sockets := (((s.mm.sockets.modify l.2 (·.send (matchMade a.battleServer))).modify l.2
          (·.close)).modify r.2 (·.send (matchMade a.battleServer))).modify r.2 (·.close) }
    redis := relocated (a.setInfo .right) m.2.id r.1 (battleName a.battleServer)
      (relocated (a.setInfo .left) m.1.id l.1 (battleName a.battleServer) s.redis) }

theorem exec_transfer (m : MatchPair) (hs : 0 < a.battleServer) :
    exec (transfer a m l r) s = (.ok true, handedOver a m l r s) := by
  rw [transfer, if_neg (not_le.mpr hs)]
  rfl

theorem exec_transfer_refused (m : MatchPair) (hs : a.battleServer ≤ 0) :
    exec (transfer a m l r) s = (.ok false, s) := by
  rw [transfer, if_pos hs]
  rfl

/-- What a socket was sent when its player was dismissed. -/
theorem sent_dismissed (c : Socket) (msg : ByteQueue) :
    ((c.send (code ansHeartbeat)).send msg).close.sent.drop c.sent.length =
      if c.accepts then [(code ansHeartbeat).bytes] ++ [msg.bytes] else [] := by
  by_cases hac : c.accepts = true
  · have hac' : ∀ sent, Socket.accepts { c with sent := sent } = true := fun _ => hac
    simp [Socket.send, Socket.close, hac, hac']
  · simp [Socket.send, hac, Socket.close]

/-- The same where both sides have one socket: it is closed before the second message. -/
theorem sent_dismissed_twice (c : Socket) (msg : ByteQueue) :
    ((((c.send (code ansHeartbeat)).send (code ansHeartbeat)).send msg).close.send
      msg).close.sent.drop c.sent.length =
      if c.accepts then [(code ansHeartbeat).bytes, (code ansHeartbeat).bytes] ++ [msg.bytes]
      else [] := by
  have hclosed : ∀ c : Socket, c.close.send msg = c.close := by
    intro c
    simp [Socket.send, Socket.accepts, Socket.close]
  rw [hclosed]
  by_cases hac : c.accepts = true
  · have hac' : ∀ sent, Socket.accepts { c with sent := sent } = true := fun _ => hac
    simp [Socket.send, Socket.close, hac, hac']
  · simp [Socket.send, hac, Socket.close]

theorem told_iff {ss tt : Sockets} {k : SocketId} {msg : ByteQueue} {c c' : Socket}
    {beats : List (List Byte)} (hc : ss k = some c) (ht : tt k = some c')
    (hsent : c'.sent.drop c.sent.length = if c.accepts then beats ++ [msg.bytes] else []) :
    Told k msg ss tt ↔ ss.accepts k = true := by
  have ha : ss.accepts k = c.accepts := by
    rw [Sockets.accepts, hc]
    rfl
  have htold : Told k msg ss tt ↔ msg.bytes ∈ c'.sent.drop c.sent.length := by
    constructor
    · intro h
      obtain ⟨d, d', hd, hd', hmem⟩ := h
      rw [hc] at hd
      rw [ht] at hd'
      cases hd
      cases hd'
      exact hmem
    · exact fun hmem => ⟨c, c', hc, ht, hmem⟩
  rw [htold, ha, hsent]
  split <;> simp [*]

theorem told_handedOver {m : MatchPair} {cl cr : Socket} (hl : s.there a .left = some l)
    (hr : s.there a .right = some r) (hcl : s.mm.sockets l.2 = some cl)
    (hcr : s.mm.sockets r.2 = some cr) :
    (Told l.2 (matchMade a.battleServer) s.mm.sockets
        (handedOver a m l r (s.looked a)).mm.sockets ↔ s.mm.sockets.accepts l.2 = true) ∧
    (Told r.2 (matchMade a.battleServer) s.mm.sockets
        (handedOver a m l r (s.looked a)).mm.sockets ↔ s.mm.sockets.accepts r.2 = true) := by
  have hss : (handedOver a m l r (s.looked a)).mm.sockets = _ :=
    congrArg (fun ss : Sockets => (((ss.modify l.2 (·.send (matchMade a.battleServer))).modify l.2
      (·.close)).modify r.2 (·.send (matchMade a.battleServer))).modify r.2 (·.close))
      (looked_sockets hl hr)
  rw [hss]
  by_cases hk : l.2 = r.2
  · rw [← hk] at hcr ⊢
    rw [and_self]
    refine told_iff hcl ?_ (sent_dismissed_twice cl _)
    simp [hcl]
  · constructor
    · refine told_iff hcl ?_ (sent_dismissed cl _)
      simp [Sockets.modify_other _ _ hk, hcl]
    · refine told_iff hcr ?_ (sent_dismissed cr _)
      simp [Sockets.modify_other _ _ (Ne.symm hk), hcr]

theorem relocated_iff {done : Bool} {id id' : AccountId} {cookie : Hash} {serverName : String}
    {redis : AccountId → Option (Hash × String)} :
    ((relocated done id cookie serverName redis id').map (·.2) = some serverName) ↔
      (done = true ∧ id = id') ∨ (redis id').map (·.2) = some serverName := by
  by_cases hid : id' = id
  · subst hid
    cases done <;> simp [relocated]
  · cases done <;> simp [relocated, hid, Ne.symm hid]

theorem locatedAt_handedOver (i : Side) :
    (handedOver a s.mm.matchmaker.getMatch.1 l r (s.looked a)).locatedAt (s.player i).id
      (battleName a.battleServer) ↔ s.locates a i := by
  have hsides : s.locates a i ↔
      (a.setInfo .right = true ∧ (s.player .right).id = (s.player i).id) ∨
      (a.setInfo .left = true ∧ (s.player .left).id = (s.player i).id) ∨
      s.locatedAt (s.player i).id (battleName a.battleServer) := by
    unfold locates
    constructor
    · intro hgiven
      rcases hgiven with ⟨j, hj⟩ | h
      · cases j
        exacts [.inr (.inl hj), .inl hj]
      · exact .inr (.inr h)
    · intro hgiven
      rcases hgiven with h | h | h
      exacts [.inl ⟨.right, h⟩, .inl ⟨.left, h⟩, .inr h]
  unfold locatedAt handedOver
  rw [relocated_iff, relocated_iff, looked_redis, hsides]
  rfl

/-- **A match handed over ends well** exactly when Redis was told of both players and
both sockets still sent. -/
theorem moved_iff (hlive : s.Live) (hs : 0 < a.battleServer) (hl : s.there a .left = some l)
    (hr : s.there a .right = some r) :
    Ended a s (handedOver a s.mm.matchmaker.getMatch.1 l r (s.looked a)) .moved ↔
      ∀ i, s.locates a i ∧
        ∀ cookie k, s.there a i = some (cookie, k) → s.mm.sockets.accepts k = true := by
  obtain ⟨cl, hcl⟩ := Option.isSome_iff_exists.mp (hlive _ _ _ (there_eq_some hl).1)
  obtain ⟨cr, hcr⟩ := Option.isSome_iff_exists.mp (hlive _ _ _ (there_eq_some hr).1)
  obtain ⟨htl, htr⟩ := told_handedOver (m := s.mm.matchmaker.getMatch.1) hl hr hcl hcr
  have hthere : ∀ i, (s.there a i).isSome := forall_side.mpr ⟨by rw [hl]; rfl, by rw [hr]; rfl⟩
  have hgone : ∀ i, (handedOver a s.mm.matchmaker.getMatch.1 l r (s.looked a)).mm.sessions.findLKey
      (s.player i).id = none := by
    intro i
    change ((((s.looked a).mm.sessions.eraseLKey (s.player .left).id).2.eraseLKey
      (s.player .right).id).2).findLKey (s.player i).id = none
    rw [Table.findLKey_eraseLKey, Table.findLKey_eraseLKey]
    cases i
    · simp
    · simp
  have hpop : (handedOver a s.mm.matchmaker.getMatch.1 l r (s.looked a)).mm.matchmaker.matchQueue =
      s.mm.matchmaker.matchQueue.tail :=
    congrArg (fun mm : MyMatchMaker => mm.matchQueue.tail) looked_matchmaker
  have htold : ∀ i cookie k, s.there a i = some (cookie, k) →
      (Told k (matchMade a.battleServer) s.mm.sockets
        (handedOver a s.mm.matchmaker.getMatch.1 l r (s.looked a)).mm.sockets ↔
        s.mm.sockets.accepts k = true) := by
    intro i cookie k hi
    cases i with
    | left =>
      rw [hl] at hi
      cases hi
      exact htl
    | right =>
      rw [hr] at hi
      cases hi
      exact htr
  constructor
  · intro hgiven i
    obtain ⟨_, _, _, h⟩ := hgiven
    obtain ⟨hloc, _, hsent⟩ := h i
    exact ⟨(locatedAt_handedOver i).mp hloc,
      fun cookie k hi => (htold i cookie k hi).mp (hsent cookie k hi)⟩
  · intro h
    refine ⟨hthere, hs, hpop, fun i => ⟨(locatedAt_handedOver i).mpr (h i).1, hgone i, ?_⟩⟩
    exact fun cookie k hi => (htold i cookie k hi).mpr ((h i).2 cookie k hi)

end Moved

/-! ## A side is not available -/

/-- The state after one side of the second loop. -/
def givenBack (ar : Arith) (a : Answers) (i : Side) (elem : QueueElement)
    (there : Option (Hash × SocketId)) (s : Located) : Located :=
  if there.isSome then
    { s with mm.matchmaker := s.mm.matchmaker.enterElem ar elem (a.visited i) }
  else { s with mm.sessions := (s.mm.sessions.eraseLKey elem.id).2 }

theorem exec_giveBack (i : Side) (elem : QueueElement) (there : Option (Hash × SocketId)) :
    exec (giveBack ar a i elem there) s = (.ok (), givenBack ar a i elem there s) := by
  unfold giveBack givenBack
  split <;> rfl

/-- The state after a round with a side missing. -/
def afterwards (ar : Arith) (a : Answers) (s : Located) : Located :=
  let t := givenBack ar a .right (s.player .right) (s.there a .right)
    (givenBack ar a .left (s.player .left) (s.there a .left) (s.looked a))
  { t with mm.matchmaker := t.mm.matchmaker.popMatch }

theorem exec_round_returned (hlive : s.Live) (h : ¬ ∀ i, (s.there a i).isSome) :
    exec (round ar a) s = (.ok true, s.afterwards ar a) := by
  rw [exec_round hlive]
  rw [forall_side] at h
  have hexec : exec (do
      giveBack ar a .left (s.player .left) (s.there a .left)
      giveBack ar a .right (s.player .right) (s.there a .right)
      popMatch
      return true) (s.looked a) = (.ok true, s.afterwards ar a) := by
    rw [exec_bind, exec_giveBack]
    dsimp only
    rw [exec_bind, exec_giveBack]
    rfl
  split
  · rename_i hl hr
    rw [hl, hr] at h
    exact absurd ⟨rfl, rfl⟩ h
  · exact hexec

theorem givenBack_sessions (i : Side) (elem : QueueElement) (there : Option (Hash × SocketId)) :
    (givenBack ar a i elem there s).mm.sessions =
      if there.isSome then s.mm.sessions else (s.mm.sessions.eraseLKey elem.id).2 := by
  unfold givenBack
  split <;> rfl

theorem givenBack_matchmaker (i : Side) (elem : QueueElement) (there : Option (Hash × SocketId)) :
    (givenBack ar a i elem there s).mm.matchmaker =
      if there.isSome then s.mm.matchmaker.enterElem ar elem (a.visited i)
      else s.mm.matchmaker := by
  unfold givenBack
  split <;> rfl

/-- A player of the front match goes back to `wait_queue`. -/
theorem enterElem_iff {mm : MyMatchMaker} (hc : mm.Coherent ar) {e : QueueElement}
    (he : e ∈ MyMatchMaker.players mm.matchQueue) (visited : List Nat) :
    (e ∈ (mm.enterElem ar e visited).waitQueue ↔
      ∀ x ∈ mm.waitQueue, MyMatchMaker.key ar x ≠ MyMatchMaker.key ar e) ∧
    (mm.enterElem ar e visited).counts[e.waitCount]? = mm.counts[e.waitCount]? := by
  have hid : ¬ e.id ≤ 0 := not_le.mpr (hc.positive e (List.mem_append_right _ he))
  have hother : ∀ x ∈ mm.waitQueue, x.waitCount ≠ e.waitCount := by
    have hdis := List.disjoint_of_nodup_append (List.map_append ▸ hc.owned)
    exact fun x hx hk => hdis (List.mem_map.mpr ⟨x, hx, hk⟩) (List.mem_map_of_mem he)
  rw [MyMatchMaker.enterElem, if_neg hid]
  constructor
  · change e ∈ OrderedSet.insert _ e mm.waitQueue ↔ _
    rcases OrderedSet.insert_cases (MyMatchMaker.less_ordersBy ar) hc.sorted e with
      ⟨⟨x, hx, hk⟩, heq⟩ | ⟨hnone, hperm⟩
    · rw [heq]
      constructor
      · exact fun hmem => absurd rfl (hother e hmem)
      · exact fun hall => absurd hk (hall x hx)
    · exact ⟨fun _ => hnone, fun _ => hperm.mem_iff.mpr List.mem_cons_self⟩
  · rcases (MyMatchMaker.compared_touched mm e visited).kept e.waitCount with
      hk | ⟨hk, x, hx, hg, hw⟩
    · exact hk
    · rcases List.mem_cons.mp hx with rfl | hx
      · exact hk.trans (hc.settled x he hg).symm
      · exact absurd hw (hother x hx)

theorem player_mem (hm : s.mm.matchmaker.isThereMatch = true) (i : Side) :
    s.player i ∈ MyMatchMaker.players s.mm.matchmaker.matchQueue := by
  refine MyMatchMaker.mem_players.mpr ⟨_, MyMatchMaker.getMatch_mem hm, ?_⟩
  cases i
  exacts [.inl rfl, .inr rfl]

theorem matchQueue_givenBack (i : Side) (elem : QueueElement) (there : Option (Hash × SocketId)) :
    (givenBack ar a i elem there s).mm.matchmaker.matchQueue = s.mm.matchmaker.matchQueue := by
  rw [givenBack_matchmaker]
  split
  · unfold MyMatchMaker.enterElem
    split <;> rfl
  · rfl

theorem matchQueue_afterwards :
    (s.afterwards ar a).mm.matchmaker.matchQueue = s.mm.matchmaker.matchQueue.tail := by
  change List.tail _ = _
  rw [matchQueue_givenBack, matchQueue_givenBack, looked_matchmaker]

/-- Whoever is not there has no session afterwards. -/
theorem findLKey_afterwards {i : Side} (h : (s.there a i).isSome = false) :
    (s.afterwards ar a).mm.sessions.findLKey (s.player i).id = none := by
  change (Located.mm (givenBack ..)).sessions.findLKey _ = none
  rw [givenBack_sessions, givenBack_sessions]
  cases i with
  | left =>
    rw [h]
    split
    · simp [Table.findLKey_eraseLKey]
    · simp [Table.findLKey_eraseLKey]
  | right =>
    rw [h]
    simp [Table.findLKey_eraseLKey]

/-- Whoever is there is the only one to go back. -/
theorem matchmaker_afterwards (h : ¬ ∀ i, (s.there a i).isSome) {i : Side}
    (hi : (s.there a i).isSome = true) :
    (s.afterwards ar a).mm.matchmaker =
      (s.mm.matchmaker.enterElem ar (s.player i) (a.visited i)).popMatch := by
  change MyMatchMaker.popMatch _ = _
  rw [forall_side] at h
  rw [givenBack_matchmaker, givenBack_matchmaker, looked_matchmaker]
  cases i with
  | left =>
    have hr : ¬ (s.there a .right).isSome = true := fun hr => h ⟨hi, hr⟩
    rw [if_neg hr, if_pos hi]
  | right =>
    have hl : ¬ (s.there a .left).isSome = true := fun hl => h ⟨hl, hi⟩
    rw [if_pos hi, if_neg hl]

/-- **A match given back ends well** exactly when no equivalent player waits. -/
theorem returned_iff (hc : s.mm.matchmaker.Coherent ar)
    (hm : s.mm.matchmaker.isThereMatch = true) (h : ¬ ∀ i, (s.there a i).isSome) :
    Ended a s (s.afterwards ar a) .returned ↔ ∀ i, (s.there a i).isSome →
      ∀ e ∈ s.mm.matchmaker.waitQueue,
        MyMatchMaker.key ar e ≠ MyMatchMaker.key ar (s.player i) := by
  have hback := fun i => enterElem_iff hc (player_mem hm i) (a.visited i)
  constructor
  · intro hgiven i hi
    obtain ⟨_, _, hsides⟩ := hgiven
    have hside := hsides i
    rw [if_pos hi, matchmaker_afterwards h hi] at hside
    exact (hback i).1.mp hside.1
  · intro hfree
    refine ⟨h, matchQueue_afterwards, fun i => ?_⟩
    split
    · rename_i hi
      rw [matchmaker_afterwards h hi]
      exact ⟨(hback i).1.mpr (hfree i hi), (hback i).2⟩
    · rename_i hi
      exact findLKey_afterwards (Bool.eq_false_iff.mpr hi)

/-! ## The round as a whole -/

/-- **No player is lost by a round** exactly when the answers and the state before it
meet the condition. -/
theorem round_ends (hlive : s.Live) (hc : s.mm.matchmaker.Coherent ar)
    (hm : s.mm.matchmaker.isThereMatch = true) : Ends ar a s ↔ Serves ar a s := by
  by_cases hall : ∀ i, (s.there a i).isSome
  · obtain ⟨l, hl⟩ := Option.isSome_iff_exists.mp (hall .left)
    obtain ⟨r, hr⟩ := Option.isSome_iff_exists.mp (hall .right)
    have hexec := exec_round_of_there ar hlive hl hr
    by_cases hs : 0 < a.battleServer
    · have hkind : s.kind a = .moved := by
        simp [kind, hl, hr, not_le.mpr hs]
      rw [exec_transfer _ hs] at hexec
      rw [ends_iff hexec, hkind, moved_iff hlive hs hl hr]
      exact ⟨fun h => ⟨fun _ _ => h, fun hnot => absurd hall hnot⟩, fun h => h.moving hall hs⟩
    · have hkind : s.kind a = .kept := by
        simp [kind, hl, hr, not_lt.mp hs]
      rw [exec_transfer_refused _ (not_lt.mp hs)] at hexec
      rw [ends_iff hexec, hkind]
      constructor
      · exact fun _ => ⟨fun _ hs' => absurd hs' hs, fun hnot => absurd hall hnot⟩
      · exact fun _ => ⟨hall, not_lt.mp hs, looked_matchmaker, looked_sessions⟩
  · have hkind : s.kind a = .returned := by
      rw [forall_side, ← Bool.and_eq_true] at hall
      rw [kind, if_neg hall]
    rw [ends_iff (exec_round_returned hlive hall), hkind, returned_iff hc hm hall]
    exact ⟨fun h => ⟨fun hall' => absurd hall' hall, fun _ => h⟩, fun h => h.returning hall⟩

/-- A player comes out of the front match into `wait_queue`. -/
theorem coherent_giveBack {mm : MyMatchMaker} (hc : mm.Coherent ar) {e : QueueElement}
    (he : ∃ rest, (MyMatchMaker.players mm.matchQueue).Perm
      (e :: (MyMatchMaker.players mm.matchQueue.tail ++ rest))) (visited : List Nat) :
    ((mm.enterElem ar e visited).popMatch).Coherent ar := by
  obtain ⟨rest, hperm⟩ := he
  have hmem : e ∈ mm.everyone := List.mem_append_right _ (hperm.mem_iff.mpr List.mem_cons_self)
  have hid : ¬ e.id ≤ 0 := not_le.mpr (hc.positive e hmem)
  have hpop : (mm.enterElem ar e visited).popMatch = mm.popMatch.insert ar e visited := by
    rw [MyMatchMaker.enterElem, if_neg hid]
    rfl
  rw [hpop]
  refine (MyMatchMaker.coherent_popMatch hc).insert (not_le.mp hid) ?_ (hc.counted e hmem) visited
  -- the counter of the player was its own among all those queued before
  have hown : ((e :: (mm.popMatch.everyone ++ rest)).map (·.waitCount)).Nodup := by
    refine ((List.Perm.map _ ?_).nodup_iff).mp hc.owned
    refine (hperm.append_left mm.waitQueue).trans (List.perm_middle.trans (List.Perm.cons e ?_))
    rw [← List.append_assoc]
    exact List.Perm.refl _
  intro hin
  refine (List.nodup_cons.mp hown).1 ?_
  rw [List.map_append]
  exact List.mem_append_left _ hin

/-- **A round leaves the matchmaker coherent.** -/
theorem round_coherent (hlive : s.Live) (hc : s.mm.matchmaker.Coherent ar)
    (hm : s.mm.matchmaker.isThereMatch = true) :
    (exec (round ar a) s).2.mm.matchmaker.Coherent ar := by
  obtain ⟨rest, hrest⟩ := MyMatchMaker.matchQueue_eq_cons hm
  by_cases hall : ∀ i, (s.there a i).isSome
  · obtain ⟨l, hl⟩ := Option.isSome_iff_exists.mp (hall .left)
    obtain ⟨r, hr⟩ := Option.isSome_iff_exists.mp (hall .right)
    rw [exec_round_of_there ar hlive hl hr]
    by_cases hs : 0 < a.battleServer
    · rw [exec_transfer _ hs]
      refine MyMatchMaker.coherent_popMatch ?_
      rw [looked_matchmaker]
      exact hc
    · rw [exec_transfer_refused _ (not_lt.mp hs)]
      change (s.looked a).mm.matchmaker.Coherent ar
      rw [looked_matchmaker]
      exact hc
  · rw [exec_round_returned hlive hall]
    by_cases hsome : ∃ i, (s.there a i).isSome = true
    · obtain ⟨i, hi⟩ := hsome
      change (s.afterwards ar a).mm.matchmaker.Coherent ar
      rw [matchmaker_afterwards hall hi]
      refine coherent_giveBack hc ⟨[i.other.of s.mm.matchmaker.getMatch.1], ?_⟩ _
      rw [hrest]
      cases i with
      | left => exact List.Perm.cons _ (List.perm_append_singleton _ _).symm
      | right =>
        refine (List.Perm.swap _ _ _).trans ?_
        exact List.Perm.cons _ (List.perm_append_singleton _ _).symm
    · have hnone : ∀ i, ¬ (s.there a i).isSome = true := fun i hi => hsome ⟨i, hi⟩
      change (MyMatchMaker.popMatch _).Coherent ar
      rw [givenBack_matchmaker, givenBack_matchmaker, if_neg (hnone .right), if_neg (hnone .left),
        looked_matchmaker]
      exact MyMatchMaker.coherent_popMatch hc

/-- Two players without games who were waiting for each other, both of them connected. -/
def pair : Located where
  mm :=
    { sessions := ((Table.empty.insert 1 (toHash [1]) 1).2.insert 2 (toHash [2]) 2).2
      matchmaker := ((MyMatchMaker.start.enter Lobby.exact 1 0 0 0 []).enter Lobby.exact 2 0 0 0
        [0]).process Lobby.exact
      sockets := fun _ => some ⟨true, false, sessionTTL, []⟩
      threadExceptions := [] }
  redis id := if id = 1 then some (toHash [1], "match")
    else if id = 2 then some (toHash [2], "match") else none

theorem pair_coherent : pair.mm.matchmaker.Coherent Lobby.exact :=
  MyMatchMaker.coherent_process (MyMatchMaker.coherent_enter
    (MyMatchMaker.coherent_enter MyMatchMaker.coherent_start _ _ _ _ _) _ _ _ _ _)

/-- Everything succeeds. -/
def allWell : Answers where
  refreshed _ := true
  isOpen _ := true
  battleServer := 1
  setInfo _ := true
  visited _ := []

/-- Both players are moved to the battle server. -/
theorem round_ends_allWell : Ends Lobby.exact allWell pair ∧ pair.kind allWell = .moved := by
  refine ⟨(round_ends (fun _ _ _ _ => rfl) pair_coherent (by decide +kernel)).mpr ⟨?_, ?_⟩,
    by decide +kernel⟩
  · exact fun _ _ i => ⟨.inl ⟨i, rfl, rfl⟩, fun _ _ _ => rfl⟩
  · intro h
    exact absurd (forall_side.mpr (by decide +kernel)) h

/-- The battle server has taken the match and Redis does not hear of it. -/
def redisDown : Answers := { allWell with setInfo := fun _ => false }

theorem not_ends_redisDown : ¬ Ends Lobby.exact redisDown pair := by
  have hl : pair.there redisDown .left = some (toHash [1], 1) := by decide +kernel
  have hr : pair.there redisDown .right = some (toHash [2], 2) := by decide +kernel
  have hkind : pair.kind redisDown = .moved := by decide +kernel
  have hlive : pair.Live := fun _ _ _ _ => rfl
  have hexec := exec_round_of_there Lobby.exact hlive hl hr
  rw [exec_transfer _ (by decide)] at hexec
  rw [ends_iff hexec, hkind, moved_iff hlive (by decide) hl hr]
  intro h
  rcases (h .left).1 with ⟨j, hj, _⟩ | hlocated
  · cases hj
  · exact absurd hlocated (by decide +kernel)

end Located
end DrgbServer.Match
