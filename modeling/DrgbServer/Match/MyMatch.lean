import DrgbServer.Match.MyMatchMaker
import DrgbServer.Network.MyClientSocket
import DrgbServer.Utils.DeMap

/-! # `MyMatch`: the handlers of the match server

`AuthenticateProcess` turns a cookie into a session and `ClientProcess` serves the
requests of an account. A session holds a weak pointer to the client's socket. What
the database and Redis answer in one run of a handler is an argument. -/
namespace DrgbServer.Match
open DrgbServer.Utils DrgbServer.Network DrgbServer.Lib.Procedure

structure MyMatch where
  sessions : Table AccountId Hash SocketId
  matchmaker : MyMatchMaker
  sockets : Sockets
  /-- what `ThrowThreadException` has handed to the main thread -/
  threadExceptions : List Exn

namespace MyMatch

structure Answers where
  /-- `redis.GetInfoFromCookie` -/
  cookieInfo : Hash → Option (AccountId × String)
  /-- `dbpool.GetConnection` gave a connection -/
  connection : Bool
  /-- `db->GetInfo` of the account -/
  info : Except Exn Record
  /-- `db->GetAllAchieve` of the account -/
  achieves : Except Exn (List (AchievementId × Int))
  changePwd : Hash → Hash → Except Exn Bool
  setNickName : AchievementId → Except Exn Bool
  commit : Except Exn Unit
  /-- the elements of `wait_queue` an insertion compares with -/
  visited : List Nat

def selfKeyword : String := "match"

def send (client : SocketId) (bytes : ByteQueue) : Proc MyMatch Stop Unit :=
  modify fun s => { s with sockets := s.sockets.modify client (·.send bytes) }

def close (client : SocketId) : Proc MyMatch Stop Unit :=
  modify fun s => { s with sockets := s.sockets.modify client (·.close) }

def fillTTL (client : SocketId) : Proc MyMatch Stop Unit :=
  modify fun s => { s with sockets := s.sockets.modify client (·.fillTTL sessionTTL) }

def exitQueue (accountId : AccountId) : Proc MyMatch Stop Unit :=
  modify fun s => { s with matchmaker := s.matchmaker.exit accountId }

/-- The fields of `GAME_PLAYER_INFO` up to the record of the account. -/
def playerInfo (r : Record) : ByteQueue :=
  ((((code gamePlayerInfo).push (image 8 r.nickname)).push (intImage r.win)).push
    (intImage r.draw)).push (intImage r.loose)

/-! ## `AuthenticateProcess` -/

def refuse (client : SocketId) : Proc MyMatch Stop Unit := do
  send client (code errNoMatchAccount)
  close client

/-- The dup-access branch: the older socket of the session, if it is still there, is
told and closed. -/
def supersede (accountId : AccountId) (origin : SocketId) : Proc MyMatch Stop Unit := do
  let s ← get
  if (s.sockets origin).isSome then do
    exitQueue accountId
    send origin (code errDuplicatedAccess)
    close origin
  else pure ()

/-- The local session: an existing one under the cookie gets the new socket. -/
def enterSession (client : SocketId) (accountId : AccountId) (cookie : Hash) :
    Proc MyMatch Stop Unit := do
  let s ← get
  match s.sessions.findRKey cookie with
  | some (_, origin) => do
    supersede accountId origin
    modify fun s => { s with sessions := (s.sessions.insertLKeyValue accountId client).2 }
  | none =>
    modify fun s => { s with sessions := (s.sessions.insert accountId cookie client).2 }

/-- The data of the account with its achievements. -/
def infoPacket (info : Record) (achieves : List (AchievementId × Int)) : ByteQueue :=
  achieves.foldl (fun q p => (q.push (image 8 p.1)).push (intImage p.2)) (playerInfo info)

/-- The `try` block that sends the account its data; every exception becomes another. -/
def inform (client : SocketId) (a : Answers) : Proc MyMatch Stop Unit :=
  catching
    (if !a.connection then throw (.thrown (.stackTrace "DB Connection Failed"))
    else do
      let info ← raise a.info
      let achieves ← raise a.achieves
      send client (infoPacket info achieves))
    fun e => do
      send client (code errDbFailed)
      close client
      throw (.thrown (.stackTrace ("DB Failed : " ++ e.what)))

/-- The account and the cookie of a packet whose cookie Redis knows for this server. -/
def identify (a : Answers) (packet : ByteQueue) : Except Exn (Option (AccountId × Hash)) :=
  match packet.pop 32 false with
  | .error e => .error e
  | .ok (cookie, _) => match a.cookieInfo (toHash cookie) with
    | none => .ok none
    | some (accountId, serverName) =>
      if serverName ≠ selfKeyword then .ok none else .ok (some (accountId, toHash cookie))

/-- `AuthenticateProcess` after a successful receive, up to its call of `ClientProcess`
for the account. -/
def authenticateProcess (client : SocketId) (a : Answers) (packet : ByteQueue) :
    Proc MyMatch Stop (Option AccountId) := do
  match ← raise (identify a packet) with
  | none => do
    refuse client
    return none
  | some (accountId, cookie) => do
    enterSession client accountId cookie
    inform client a
    fillTTL client
    return some accountId

/-! ## `ClientProcess` -/

/-- `REQ_CHPWD`: the inner `try` block catches what comes from the database. -/
def changePassword (client : SocketId) (a : Answers) (packet : ByteQueue) :
    Proc MyMatch Stop Unit :=
  catching
    (do
      let (oldPwd, packet) ← raise (packet.pop 32 false)
      let (newPwd, _) ← raise (packet.pop 32 false)
      if !a.connection then throw (.thrown .brokenConnection)
      else do
        let changed ← raise (a.changePwd (toHash oldPwd) (toHash newPwd))
        if changed then do
          raise a.commit
          send client (code success)
        else send client (code errNoMatchAccount))
    fun e => if e.isPqxx then send client (code errDbFailed) else throw (.thrown e)

/-- `REQ_STARTMATCH`. -/
def startMatch (ar : Arith) (accountId : AccountId) (a : Answers) : Proc MyMatch Stop Unit :=
  if !a.connection then throw (.thrown .brokenConnection)
  else do
    let r ← raise a.info
    modify fun s => { s with
      matchmaker := s.matchmaker.enter ar accountId r.win r.draw r.loose a.visited }

/-- `REQ_CHNAME`: the record is sent whether the name was changed or not. -/
def changeName (client : SocketId) (a : Answers) (packet : ByteQueue) :
    Proc MyMatch Stop Unit := do
  let (nameIndex, _) ← raise (packet.pop 8 false)
  if !a.connection then throw (.thrown .brokenConnection)
  else do
    let _ ← raise (a.setNickName (ofImage nameIndex))
    let info ← raise a.info
    raise a.commit
    send client (playerInfo info)

/-- The `switch` over the header. -/
def request (ar : Arith) (client : SocketId) (accountId : AccountId) (a : Answers) (header : Byte)
    (packet : ByteQueue) : Proc MyMatch Stop Unit :=
  if header = ansHeartbeat then fillTTL client
  else if header = reqChpwd then changePassword client a packet
  else if header = reqStartmatch then startMatch ar accountId a
  else if header = reqPausematch then exitQueue accountId
  else if header = reqChname then changeName client a packet
  else send client (code errProtocolViolation)

/-- The catch clauses of `ClientProcess`. -/
def failed (client : SocketId) (e : Exn) : Proc MyMatch Stop Unit :=
  if e.isPqxx then do
    send client (code errDbFailed)
    close client
  else do
    send client (code errProtocolViolation)
    modify fun s => { s with threadExceptions := s.threadExceptions ++ [e] }

/-- The first byte of a packet, where there is one. -/
def headerOf (packet : ByteQueue) : Option Byte :=
  match packet.pop 1 false with
  | .ok (header, _) => some (header.headD 0)
  | .error _ => none

/-- `ClientProcess` after a successful receive, up to its last line. -/
def clientProcess (ar : Arith) (client : SocketId) (accountId : AccountId) (a : Answers)
    (packet : ByteQueue) : Proc MyMatch Stop Unit :=
  catching
    (do
      let (header, packet) ← raise (packet.pop 1 false)
      request ar client accountId a (header.headD 0) packet)
    (failed client)

/-! ## What one run throws -/

/-- The database answers. -/
structure Answers.Normal (a : Answers) : Prop where
  connection : a.connection = true
  info : ∃ r, a.info = .ok r
  achieves : ∃ r, a.achieves = .ok r
  changePwd : ∀ o n, ∃ r, a.changePwd o n = .ok r
  setNickName : ∀ n, ∃ r, a.setNickName n = .ok r
  commit : a.commit = .ok ()

section Throwing
variable {client : SocketId} {a : Answers} {I : MyMatch → Prop} {E : Stop → Prop}

/-- What `ClientProcess` does to the state beside closing the socket and queueing keeps
`I`. -/
structure Stable (client : SocketId) (I : MyMatch → Prop) : Prop where
  send : ∀ s q, I s → I { s with sockets := s.sockets.modify client (·.send q) }
  fillTTL : ∀ s n, I s → I { s with sockets := s.sockets.modify client (·.fillTTL n) }
  threadExceptions : ∀ s es, I s → I { s with threadExceptions := es }

/-- A request for the queue keeps `I`. -/
def Queueable (header : Option Byte) (I : MyMatch → Prop) : Prop :=
  header = some reqStartmatch ∨ header = some reqPausematch →
    ∀ s mm, I s → I { s with matchmaker := mm }

/-- Closing the socket keeps `I`. -/
def Closable (client : SocketId) (I : MyMatch → Prop) : Prop :=
  ∀ s, I s → I { s with sockets := s.sockets.modify client (·.close) }

/-- An exception of the database is thrown only if the socket may be closed. -/
def Raised (client : SocketId) (I : MyMatch → Prop) : Stop → Prop
  | .thrown e => e.isPqxx = true → Closable client I
  | .undefined => False

theorem Raised.ne_undefined {stop : Stop} (h : Raised client I stop) : stop ≠ .undefined := by
  rintro rfl
  exact h

theorem send_keeps (hs : Stable client I) (q : ByteQueue) : Keeps I E (send client q) :=
  keeps_modify fun s h => hs.send s q h

theorem pop_keeps (q : ByteQueue) (len : Nat) :
    Keeps I (Raised client I) (raise (q.pop len false)) := by
  refine keeps_raise fun e he hp => ?_
  rw [ByteQueue.pop_error he] at hp
  cases hp

/-- A call of the database: an exception means that its answers are not normal. -/
theorem answer_keeps {α : Type} (hdb : ¬ a.Normal → Closable client I) {r : Except Exn α}
    (hr : a.Normal → ∃ x, r = .ok x) : Keeps I (Raised client I) (raise r) := by
  refine keeps_raise fun e he _ => hdb fun hn => ?_
  obtain ⟨x, hx⟩ := hr hn
  rw [hx] at he
  cases he

theorem connection_keeps {α : Type} (hdb : ¬ a.Normal → Closable client I)
    {m : Proc MyMatch Stop α} (hm : Keeps I (Raised client I) m) :
    Keeps I (Raised client I) (if !a.connection then throw (.thrown .brokenConnection) else m) := by
  split
  · rename_i hc
    refine keeps_throw fun _ => hdb fun hn => ?_
    rw [hn.connection] at hc
    cases hc
  · exact hm

theorem changePassword_keeps (hs : Stable client I) (hdb : ¬ a.Normal → Closable client I)
    (packet : ByteQueue) : Keeps I (Raised client I) (changePassword client a packet) := by
  refine keeps_catching (keeps_mono (E := Raised client I) ?_ fun _ h => h.ne_undefined)
    fun e => ?_
  · refine keeps_bind (pop_keeps _ _) fun old => ?_
    refine keeps_bind (pop_keeps _ _) fun new => ?_
    refine connection_keeps hdb ?_
    refine keeps_bind (answer_keeps hdb fun hn => hn.changePwd _ _) fun changed => ?_
    split
    · exact keeps_bind (answer_keeps hdb fun hn => ⟨_, hn.commit⟩) fun _ => send_keeps hs _
    · exact send_keeps hs _
  · split
    · exact send_keeps hs _
    · rename_i hp
      exact keeps_throw fun h => absurd h hp

theorem request_keeps (ar : Arith) (hs : Stable client I) (hdb : ¬ a.Normal → Closable client I)
    (accountId : AccountId) {header : Byte} (hq : Queueable (some header) I) (packet : ByteQueue) :
    Keeps I (Raised client I) (request ar client accountId a header packet) := by
  unfold request
  split
  · exact keeps_modify fun s h => hs.fillTTL s _ h
  split
  · exact changePassword_keeps hs hdb packet
  split
  · rename_i hstart
    refine connection_keeps hdb ?_
    refine keeps_bind (answer_keeps hdb fun hn => hn.info) fun r => ?_
    exact keeps_modify fun s h => hq (.inl (congrArg some hstart)) s _ h
  split
  · rename_i hpause
    exact keeps_modify fun s h => hq (.inr (congrArg some hpause)) s _ h
  split
  · refine keeps_bind (pop_keeps _ _) fun name => ?_
    refine connection_keeps hdb ?_
    refine keeps_bind (answer_keeps hdb fun hn => hn.setNickName _) fun _ => ?_
    refine keeps_bind (answer_keeps hdb fun hn => hn.info) fun info => ?_
    exact keeps_bind (answer_keeps hdb fun hn => ⟨_, hn.commit⟩) fun _ => send_keeps hs _
  · exact send_keeps hs _

/-- **One request lets no exception out**: the block around it catches everything. -/
theorem clientProcess_keeps (ar : Arith) (hs : Stable client I)
    (hdb : ¬ a.Normal → Closable client I) (accountId : AccountId) {packet : ByteQueue}
    (hq : Queueable (headerOf packet) I) :
    Keeps I E (clientProcess ar client accountId a packet) := by
  refine keeps_tryCatch (F := Raised client I) ?_ fun stop hstop => ?_
  · cases hp : packet.pop 1 false with
    | error e =>
      rw [raise_error_bind]
      refine keeps_throw fun h => ?_
      rw [ByteQueue.pop_error hp] at h
      cases h
    | ok p =>
      rw [raise_ok_bind]
      rw [headerOf, hp] at hq
      exact request_keeps ar hs hdb accountId hq p.2
  cases stop with
  | undefined => exact hstop.elim
  | thrown e =>
    change Keeps I E (failed client e)
    unfold failed
    split
    · rename_i hp
      exact keeps_bind (send_keeps hs _) fun _ => keeps_modify (hstop hp)
    · refine keeps_bind (send_keeps hs _) fun _ => ?_
      exact keeps_modify fun s h => hs.threadExceptions s _ h

theorem true_stable (client : SocketId) : Stable client fun _ => True :=
  ⟨fun _ _ _ => trivial, fun _ _ _ => trivial, fun _ _ _ => trivial⟩

theorem clientProcess_safe (ar : Arith) (client : SocketId) (accountId : AccountId) (a : Answers)
    (packet : ByteQueue) :
    Keeps (fun _ => True) (fun _ => False) (clientProcess ar client accountId a packet) :=
  clientProcess_keeps ar (true_stable client) (fun _ _ _ => trivial) accountId
    fun _ _ _ _ => trivial

/-- With a database that answers, the data is sent. -/
theorem exec_inform {info : Record} {achieves : List (AchievementId × Int)}
    (hc : a.connection = true) (hi : a.info = .ok info) (ha : a.achieves = .ok achieves)
    (s : MyMatch) : exec (inform client a) s =
      (.ok (), { s with sockets := s.sockets.modify client (·.send (infoPacket info achieves)) }) := by
  rw [inform, catching, exec_tryCatch]
  simp only [hc, hi, ha, Bool.not_true, Bool.false_eq_true, if_false, raise_ok_bind]
  rfl

theorem inform_keeps (hn : a.Normal) : Keeps (fun _ => True) E (inform client a) := by
  intro s _
  obtain ⟨info, hi⟩ := hn.info
  obtain ⟨achieves, ha⟩ := hn.achieves
  rw [exec_inform hn.connection hi ha]
  exact ⟨trivial, nofun⟩

theorem enterSession_keeps (accountId : AccountId) (cookie : Hash) :
    Keeps (fun _ => True) E (enterSession client accountId cookie) := by
  refine keeps_bind keeps_get fun s => ?_
  split
  · refine keeps_bind (keeps_bind keeps_get fun s => ?_) fun _ => keeps_modify fun _ _ => trivial
    split
    · refine keeps_bind (keeps_modify fun _ _ => trivial) fun _ => ?_
      exact keeps_bind (keeps_modify fun _ _ => trivial) fun _ => keeps_modify fun _ _ => trivial
    · exact keeps_pure
  · exact keeps_modify fun _ _ => trivial

theorem identify_of_le (a : Answers) {packet : List Byte}
    (hp : 32 ≤ (ByteQueue.ofVector packet).size) :
    ∃ found, identify a (ByteQueue.ofVector packet) = .ok found := by
  obtain ⟨r, hr⟩ := ByteQueue.pop_ofVector_of_le hp false
  rw [identify, hr]
  dsimp only
  split
  · exact ⟨_, rfl⟩
  · split
    · exact ⟨_, rfl⟩
    · exact ⟨_, rfl⟩

theorem identify_of_lt (a : Answers) {packet : List Byte}
    (hp : ¬ 32 ≤ (ByteQueue.ofVector packet).size) :
    ∃ e, identify a (ByteQueue.ofVector packet) = .error e := by
  rw [identify, ByteQueue.pop_ofVector_of_lt hp (by decide)]
  exact ⟨_, rfl⟩

/-- **Authentication throws nothing** on a packet that holds a cookie. -/
theorem authenticateProcess_keeps (hn : a.Normal) {packet : List Byte}
    (hp : 32 ≤ (ByteQueue.ofVector packet).size) :
    Keeps (fun _ => True) E (authenticateProcess client a (ByteQueue.ofVector packet)) := by
  obtain ⟨found, hfound⟩ := identify_of_le a hp
  rw [authenticateProcess, hfound, raise_ok_bind]
  cases found with
  | none =>
    refine keeps_bind ?_ fun _ => keeps_pure
    exact keeps_bind (keeps_modify fun _ _ => trivial) fun _ => keeps_modify fun _ _ => trivial
  | some p =>
    refine keeps_bind (enterSession_keeps _ _) fun _ => ?_
    refine keeps_bind (inform_keeps hn) fun _ => ?_
    exact keeps_bind (keeps_modify fun _ _ => trivial) fun _ => keeps_pure

end Throwing

/-! ## What a packet does to the state -/

section Effect
variable (ar : Arith) {client : SocketId} {accountId : AccountId} {a : Answers} {packet : ByteQueue}

theorem clientProcess_of_header {header : Byte} (h : headerOf packet = some header) :
    ∃ rest, clientProcess ar client accountId a packet =
      catching (request ar client accountId a header rest) (failed client) := by
  unfold headerOf at h
  split at h
  · rename_i rest hp
    cases h
    refine ⟨rest, ?_⟩
    rw [clientProcess, hp, raise_ok_bind]
  · cases h

/-- `REQ_PAUSEMATCH` takes the account off the queue. -/
theorem exec_clientProcess_pause (h : headerOf packet = some reqPausematch) (s : MyMatch) :
    exec (clientProcess ar client accountId a packet) s =
      (.ok (), { s with matchmaker := s.matchmaker.exit accountId }) := by
  obtain ⟨rest, hr⟩ := clientProcess_of_header ar h
  rw [hr]
  rfl

/-- `REQ_STARTMATCH` enters the account with its record. -/
theorem exec_clientProcess_start (h : headerOf packet = some reqStartmatch)
    (hc : a.connection = true) {r : Record} (hi : a.info = .ok r) (s : MyMatch) :
    exec (clientProcess ar client accountId a packet) s = (.ok (), { s with
      matchmaker := s.matchmaker.enter ar accountId r.win r.draw r.loose a.visited }) := by
  obtain ⟨rest, hr⟩ := clientProcess_of_header ar h
  have hreq : request ar client accountId a reqStartmatch rest = startMatch ar accountId a := rfl
  rw [hr, hreq, startMatch, hc, hi]
  rfl

/-- Without the record `REQ_STARTMATCH` ends in the catch clauses. -/
theorem exec_clientProcess_start_failed (h : headerOf packet = some reqStartmatch) {e : Exn}
    (hf : (a.connection = false ∧ e = .brokenConnection) ∨
      (a.connection = true ∧ a.info = .error e)) (s : MyMatch) :
    exec (clientProcess ar client accountId a packet) s = exec (failed client e) s := by
  obtain ⟨rest, hr⟩ := clientProcess_of_header ar h
  have hreq : request ar client accountId a reqStartmatch rest = startMatch ar accountId a := rfl
  rw [hr, hreq, startMatch]
  obtain ⟨hc, rfl⟩ | ⟨hc, hi⟩ := hf
  · rw [hc]
    rfl
  · rw [hc, hi]
    rfl

/-- An exception of the database closes the socket. -/
theorem failed_closes {e : Exn} (he : e.isPqxx = true) (s : MyMatch) :
    (exec (failed client e) s).2.sockets.accepts client = false := by
  rw [failed, if_pos he]
  exact Sockets.not_accepts_close _ client

/-- Any other packet leaves the queue alone. -/
theorem clientProcess_matchmaker (hs : headerOf packet ≠ some reqStartmatch)
    (hp : headerOf packet ≠ some reqPausematch) (s : MyMatch) :
    (exec (clientProcess ar client accountId a packet) s).2.matchmaker = s.matchmaker := by
  have hk : Keeps (fun t => t.matchmaker = s.matchmaker) (fun _ => False)
      (clientProcess ar client accountId a packet) := by
    refine clientProcess_keeps ar ⟨fun _ _ h => h, fun _ _ h => h, fun _ _ h => h⟩
      (fun _ _ h => h) accountId ?_
    rintro (h | h)
    · exact absurd h hs
    · exact absurd h hp
  exact (hk s rfl).1

/-- The sessions and sockets after a packet: no socket is opened or freed. -/
structure Framed (s t : MyMatch) : Prop where
  sessions : t.sessions = s.sessions
  alive : ∀ k, (t.sockets k).isSome = (s.sockets k).isSome
  accepts : ∀ k, t.sockets.accepts k = true → s.sockets.accepts k = true

theorem Framed.modify {s t : MyMatch} (h : Framed s t) (k : SocketId) {f : Socket → Socket}
    (hf : ∀ c, (f c).accepts = true → c.accepts = true) :
    Framed s { t with sockets := t.sockets.modify k f } where
  sessions := h.sessions
  alive j := (t.sockets.isSome_modify k j f).trans (h.alive j)
  accepts j hj := h.accepts j (Sockets.accepts_of_modify hf hj)

theorem Framed.send {s t : MyMatch} (h : Framed s t) (k : SocketId) (q : ByteQueue) :
    Framed s { t with sockets := t.sockets.modify k (·.send q) } :=
  h.modify k fun c hc => (c.accepts_send q).symm.trans hc

theorem Framed.close {s t : MyMatch} (h : Framed s t) (k : SocketId) :
    Framed s { t with sockets := t.sockets.modify k (·.close) } := by
  refine h.modify k fun c hc => ?_
  simp [Socket.accepts, Socket.close] at hc

theorem Framed.fillTTL {s t : MyMatch} (h : Framed s t) (k : SocketId) (n : Int) :
    Framed s { t with sockets := t.sockets.modify k (·.fillTTL n) } :=
  h.modify k fun c hc => (c.accepts_fillTTL n).symm.trans hc

theorem framed_refl (s : MyMatch) : Framed s s := ⟨rfl, fun _ => rfl, fun _ h => h⟩

theorem clientProcess_framed (client : SocketId) (accountId : AccountId) (a : Answers)
    (packet : ByteQueue) (s : MyMatch) :
    Framed s (exec (clientProcess ar client accountId a packet) s).2 := by
  have hk : Keeps (Framed s) (fun _ => False) (clientProcess ar client accountId a packet) := by
    refine clientProcess_keeps ar ⟨?_, ?_, ?_⟩ ?_ accountId ?_
    · intro t q h
      exact h.send client q
    · intro t n h
      exact h.fillTTL client n
    · intro t es h
      exact ⟨h.sessions, h.alive, h.accepts⟩
    · intro _ t h
      exact h.close client
    · intro _ t mm h
      exact ⟨h.sessions, h.alive, h.accepts⟩
  exact (hk s (framed_refl s)).1

theorem refuse_framed (client : SocketId) (s : MyMatch) : Framed s (exec (refuse client) s).2 ∧
    (exec (refuse client) s).2.matchmaker = s.matchmaker :=
  ⟨((framed_refl s).send client _).close client, rfl⟩

/-- Sending an account its data leaves the queue alone. -/
theorem inform_framed (client : SocketId) (a : Answers) (s : MyMatch) :
    Framed s (exec (inform client a) s).2 ∧
      (exec (inform client a) s).2.matchmaker = s.matchmaker := by
  have hk : Keeps (fun t => Framed s t ∧ t.matchmaker = s.matchmaker) (fun _ => True)
      (inform client a) := by
    have hsend : ∀ q, Keeps (fun t => Framed s t ∧ t.matchmaker = s.matchmaker)
        (fun stop => stop ≠ .undefined) (send client q) :=
      fun q => keeps_modify fun t h => ⟨h.1.send client q, h.2⟩
    refine keeps_catching ?_ fun e => ?_
    · split
      · exact keeps_throw nofun
      · refine keeps_bind (keeps_raise fun _ _ => nofun) fun info => ?_
        exact keeps_bind (keeps_raise fun _ _ => nofun) fun achieves => hsend _
    · refine keeps_bind (keeps_mono (hsend _) fun _ _ => trivial) fun _ => ?_
      refine keeps_bind (keeps_modify fun t h => ⟨h.1.close client, h.2⟩) fun _ => ?_
      exact keeps_throw trivial
  exact (hk s ⟨framed_refl s, rfl⟩).1

end Effect

/-! ## The handlers with their `StartRecv` -/

section Handlers
variable {κ : Type} (crypt : κ → List Byte → Except Exn (List Byte) × κ) (ar : Arith)

def onReceive (client : SocketId) (accountId : AccountId) (answers : Nat → Answers)
    (meanwhile : Nat → MyMatch → MyMatch) (inbox : Inbox κ) (packet : List Byte) :
    Proc MyMatch Stop (Inbox κ) :=
  receiving crypt (·.sockets.accepts client) meanwhile
    (fun i => clientProcess ar client accountId (answers i)) inbox packet

def onAuthenticate (client : SocketId) (answers : Nat → Answers)
    (meanwhile : Nat → MyMatch → MyMatch) (inbox : Inbox κ) (packet : List Byte) :
    Proc MyMatch Stop (Inbox κ) := do
  match ← authenticateProcess client (answers 0) (ByteQueue.ofVector packet) with
  | none => return inbox
  | some accountId =>
    startRecv crypt (·.sockets.accepts client) meanwhile
      (fun i => clientProcess ar client accountId (answers (i + 1))) inbox.isSecure inbox.msgs
      inbox.decryptor 0

/-- The handler of `ClientProcess` finishes without an exception, whatever the state of
the server, the other threads and the answers, as long as the database answers. -/
def Finishes (client : SocketId) (accountId : AccountId) (inbox : Inbox κ) (packet : List Byte) :
    Prop :=
  ∀ answers meanwhile, (∀ i, (answers i).Normal) → ∀ s, ∃ rest t,
    exec (onReceive crypt ar client accountId answers meanwhile inbox packet) s = (.ok rest, t)

def AuthenticateFinishes (client : SocketId) (inbox : Inbox κ) (packet : List Byte) : Prop :=
  ∀ answers meanwhile, (∀ i, (answers i).Normal) → ∀ s, ∃ rest t,
    exec (onAuthenticate crypt ar client answers meanwhile inbox packet) s = (.ok rest, t)

variable {crypt ar}

/-- Answers with which every cookie is that of account 1. -/
def plain : Answers where
  cookieInfo _ := some (1, selfKeyword)
  connection := true
  info := .ok ⟨1, 0, 0, 0⟩
  achieves := .ok []
  changePwd _ _ := .ok true
  setNickName _ := .ok true
  commit := .ok ()
  visited := []

theorem plain_normal : plain.Normal :=
  ⟨rfl, ⟨_, rfl⟩, ⟨_, rfl⟩, fun _ _ => ⟨_, rfl⟩, fun _ => ⟨_, rfl⟩, rfl⟩

/-- A server with one open socket. -/
def serving (client : SocketId) : MyMatch :=
  ⟨Table.empty, MyMatchMaker.start, Function.update (fun _ => none) client (some ⟨true, false, 0, []⟩),
    []⟩

theorem serving_accepts (client : SocketId) : (serving client).sockets.accepts client = true := by
  simp [serving, Sockets.accepts, Socket.accepts]

/-- An open socket stays open while the database answers. -/
theorem accepts_stable (client : SocketId) :
    Stable client fun s => s.sockets.accepts client = true := by
  refine ⟨?_, ?_, fun _ _ h => h⟩
  · intro s q h
    exact (s.sockets.accepts_modify client client fun c => c.accepts_send q).trans h
  · intro s n h
    exact (s.sockets.accepts_modify client client fun c => c.accepts_fillTTL n).trans h

theorem clientProcess_open (ar : Arith) (client : SocketId) (accountId : AccountId)
    (packet : ByteQueue) :
    Keeps (fun s => s.sockets.accepts client = true) (fun _ => False)
      (clientProcess ar client accountId plain packet) :=
  clientProcess_keeps ar (accepts_stable client) (fun h => absurd plain_normal h) accountId
    fun _ _ _ h => h

theorem finishes_iff (client : SocketId) (accountId : AccountId) (inbox : Inbox κ)
    (packet : List Byte) :
    Finishes crypt ar client accountId inbox packet ↔ inbox.Legible crypt fun _ => True := by
  constructor
  · intro h
    by_contra hl
    have hthrow : Throws (onReceive crypt ar client accountId (fun _ => plain) (fun _ => id) inbox
        packet) (serving client) :=
      receiving_throws (fun _ hs => hs)
        (fun _ v _ => clientProcess_open ar client accountId (ByteQueue.ofVector v))
        (fun _ _ _ hv => absurd trivial hv) (fun hp => hl hp.2)
        (serving_accepts client)
    obtain ⟨rest, t, hr⟩ := h (fun _ => plain) (fun _ => id) (fun _ => plain_normal) (serving client)
    exact hthrow.not_returns hr
  · intro hl answers meanwhile hn s
    have hk : Keeps (fun _ => True) (fun _ => False)
        (onReceive crypt ar client accountId answers meanwhile inbox packet) :=
      receiving_keeps _ _ (fun i v _ => clientProcess_safe ar client accountId (answers i) _)
        trivial hl
    obtain ⟨rest, t, hr, _⟩ := hk.returns (s := s) trivial
    exact ⟨rest, t, hr⟩

/-- A cookie of account 1 opens a session on a server that has none. -/
theorem authenticateProcess_plain (client : SocketId) {packet : List Byte}
    (hp : 32 ≤ (ByteQueue.ofVector packet).size) :
    ∃ t, exec (authenticateProcess client plain (ByteQueue.ofVector packet)) (serving client) =
        (.ok (some 1), t) ∧ t.sockets.accepts client = true := by
  obtain ⟨r, hr⟩ := ByteQueue.pop_ofVector_of_le hp false
  have hsession : ∀ cookie, exec (enterSession client 1 cookie) (serving client) =
      (.ok (), { serving client with
        sessions := ((serving client).sessions.insert 1 cookie client).2 }) := by
    intro cookie
    have hnone : (serving client).sessions.findRKey cookie = none := Table.findRKey_empty
    rw [enterSession, exec_bind, exec_get]
    simp only [hnone]
    rfl
  have hid : identify plain (ByteQueue.ofVector packet) = .ok (some (1, toHash r.1)) := by
    rw [identify, hr]
    exact if_neg (not_not.mpr rfl)
  rw [authenticateProcess, hid, raise_ok_bind]
  dsimp only
  rw [exec_bind, hsession]
  dsimp only
  rw [exec_bind, exec_inform rfl rfl rfl]
  refine ⟨_, rfl, ?_⟩
  simp only [Sockets.accepts_modify _ client client (fun c => c.accepts_fillTTL _),
    Sockets.accepts_modify _ client client (fun c => c.accepts_send _)]
  exact serving_accepts client

theorem authenticateFinishes_iff (client : SocketId) (inbox : Inbox κ) (packet : List Byte) :
    AuthenticateFinishes crypt ar client inbox packet ↔
      32 ≤ (ByteQueue.ofVector packet).size ∧ inbox.Legible crypt fun _ => True := by
  constructor
  · intro h
    obtain ⟨rest, t, hr⟩ := h (fun _ => plain) (fun _ => id) (fun _ => plain_normal) (serving client)
    by_contra hl
    rw [not_and] at hl
    by_cases hp : 32 ≤ (ByteQueue.ofVector packet).size
    · obtain ⟨t, ht, hopen⟩ := authenticateProcess_plain client hp
      have hthrow := startRecv_throws (fun _ hs => hs)
        (fun _ v _ => clientProcess_open ar client 1 (ByteQueue.ofVector v))
        (fun _ _ _ hv => absurd trivial hv) (hl hp) 0 hopen
      exact (throws_bind_right ht hthrow).not_returns hr
    · obtain ⟨e, he⟩ := identify_of_lt plain hp
      have hthrow : Throws (raise (identify plain (ByteQueue.ofVector packet))) (serving client) := by
        rw [he]
        exact ⟨_, _, rfl⟩
      exact (throws_bind_left (throws_bind_left hthrow _) _).not_returns hr
  · rintro ⟨hp, hl⟩ answers meanwhile hn s
    have hk : Keeps (fun _ => True) (fun _ => False)
        (onAuthenticate crypt ar client answers meanwhile inbox packet) := by
      refine keeps_bind (authenticateProcess_keeps (hn 0) hp) fun account => ?_
      split
      · exact keeps_pure
      · exact startRecv_keeps _ _ (fun i v _ => clientProcess_safe ar client _ (answers (i + 1)) _)
          hl 0
    obtain ⟨rest, t, hr, _⟩ := hk.returns (s := s) trivial
    exact ⟨rest, t, hr⟩

end Handlers
end MyMatch
end DrgbServer.Match
