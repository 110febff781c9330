import DrgbServer.Network.MyClientSocket

/-! # `MyAuth`: registration and login

`ClientProcess` answers one request of a client whose account is not known yet.
What the database, Redis and the clock answer in one run of the handler is an
argument; `sha256` stands for the digest of OpenSSL. -/
namespace DrgbServer.Auth
open DrgbServer.Utils DrgbServer.Network DrgbServer.Lib.Procedure

structure Answers where
  /-- `dbpool.GetConnection` gave a connection -/
  connection : Bool
  registerAccount : List Byte → Hash → Except Exn AccountId
  findAccount : List Byte → Hash → Except Exn AccountId
  commit : Except Exn Unit
  abort : Except Exn Unit
  /-- `redis.GetInfoFromID`, with the error code -/
  info : Except Byte (Hash × String)
  /-- the image of `system_clock::now()` -/
  now : List Byte
  /-- how many of the cookies tried Redis knows already -/
  taken : Nat
  /-- `redis.SetInfo` succeeded -/
  setInfo : Bool

def keywordMatch : String := "match"

namespace MyAuth

def send (bytes : ByteQueue) : Proc Socket Stop Unit := modify (·.send bytes)

/-- The server id in a location: the digits at its end, where `battle` stands before
them and they are an `int`, else -1. -/
def serverIdOf (serverName : String) : Seed :=
  let chars := serverName.toList
  let digits := (chars.reverse.takeWhile Char.isDigit).reverse
  if digits.isEmpty then -1
  else if chars.take (chars.length - digits.length) ≠ "battle".toList then -1
  else
    let n := digits.foldl (fun (n : Nat) d => 10 * n + (d.toNat - 48)) 0
    if n < 2 ^ 31 then (n : Int) else -1

/-- The `switch` over the header: password hash and e-mail, empty for a heartbeat. -/
def readRequest (header : Byte) (packet : ByteQueue) : Proc Socket Stop (Hash × List Byte) :=
  if header = ansHeartbeat then do
    modify (·.fillTTL sessionTTL)
    return (toHash [], [])
  else if header = reqRegister ∨ header = reqLogin then do
    let (pwdHash, packet) ← raise (packet.pop 32 false)
    let (email, _) ← raise (packet.popstr false)
    return (toHash pwdHash, email)
  else throw (.thrown (.stackTrace ("Unknown Header '" ++ toString header.toNat ++ "'")))

/-- The account of a request, 0 where there is none. -/
def login (a : Answers) (header : Byte) (pwdHash : Hash) (email : List Byte) :
    Proc Socket Stop AccountId :=
  if email.length > 0 then
    -- the connection is used without a test for null
    if !a.connection then throw .undefined
    else do
      let accountId ← raise
        (if header = reqRegister then a.registerAccount email pwdHash
        else a.findAccount email pwdHash)
      if accountId ≤ 0 then
        send (code errNoMatchAccount)
        raise a.abort
        return 0
      else
        raise a.commit
        return accountId
  else return 0

/-- The first cookie Redis does not know. -/
def freshCookie (sha256 : List Byte → Hash) (a : Answers) (accountId : AccountId) : Hash :=
  let seed := (ByteQueue.create (image 8 accountId)).add (ByteQueue.create a.now)
  (fun cookie => sha256 cookie.toList)^[a.taken] (sha256 seed.bytes)

/-- The reply to an account that has a session: where it is to go on. -/
def existingReply (cookie : Hash) (serverName : String) : ByteQueue :=
  let cookie := ByteQueue.create cookie.toList
  if serverName = keywordMatch then (code errExistAccountMatch).add cookie
  else
    let serverId := serverIdOf serverName
    if serverId > 0 then
      ((code errExistAccountBattle).add cookie).add (ByteQueue.create (intImage serverId))
    else code errDbFailed

/-- A new session is stored and its cookie sent. -/
def openSession (a : Answers) (cookie : Hash) : Proc Socket Stop Unit :=
  if !a.setInfo then send (code errDbFailed)
  else do
    send ((code success).add (ByteQueue.create cookie.toList))
    modify (·.close)

/-- A session for the account: a new one, or the one it has. -/
def sessionCheck (sha256 : List Byte → Hash) (a : Answers) (accountId : AccountId) :
    Proc Socket Stop Unit :=
  match a.info with
  | .error ec =>
    if ec = errConnectionClosed then do
      send (code errDbFailed)
      openSession a (freshCookie sha256 a accountId)
    else openSession a (freshCookie sha256 a accountId)
  | .ok (cookie, serverName) => do
    send (existingReply cookie serverName)
    modify (·.close)

/-- The catch clauses. -/
def refusal : Exn → Byte
  | .uniqueViolation => errExistAccount
  | .plpgsqlNoDataFound | .unexpectedRows => errNoMatchAccount
  | .brokenConnection | .pqxxOther _ => errDbFailed
  | .outOfRange _ | .stackTrace _ | .stdOther _ => errProtocolViolation

/-- `ClientProcess` after a successful receive, up to its last line. -/
def clientProcess (sha256 : List Byte → Hash) (a : Answers) (packet : ByteQueue) :
    Proc Socket Stop Unit :=
  catching
    (do
      let (header, packet) ← raise (packet.pop 1 false)
      let header := header.headD 0
      let (pwdHash, email) ← readRequest header packet
      let accountId ← login a header pwdHash email
      if accountId > 0 then sessionCheck sha256 a accountId)
    fun e => send (code (refusal e))

variable {a : Answers} {I : Socket → Prop} {E : Stop → Prop}

theorem send_keeps (hs : ∀ c q, I c → I (c.send q)) (q : ByteQueue) : Keeps I E (send q) :=
  keeps_modify fun c hc => hs c q hc

theorem readRequest_keeps (ht : ∀ c n, I c → I (c.fillTTL n)) (header : Byte)
    (packet : ByteQueue) : Keeps I (· ≠ .undefined) (readRequest header packet) := by
  unfold readRequest
  split
  · exact keeps_bind (keeps_modify fun c hc => ht c _ hc) fun _ => keeps_pure
  · split
    · refine keeps_bind (keeps_raise fun e _ => nofun) fun _ => ?_
      exact keeps_bind (keeps_raise fun e _ => nofun) fun _ => keeps_pure
    · exact keeps_throw nofun

theorem login_keeps (hc : a.connection = true) (hs : ∀ c q, I c → I (c.send q)) (header : Byte)
    (pwdHash : Hash) (email : List Byte) :
    Keeps I (· ≠ .undefined) (login a header pwdHash email) := by
  unfold login
  split
  · simp only [hc, Bool.not_true, Bool.false_eq_true, if_false]
    refine keeps_bind (keeps_raise fun e _ => nofun) fun accountId => ?_
    split
    · refine keeps_bind (send_keeps hs _) fun _ => ?_
      exact keeps_bind (keeps_raise fun e _ => nofun) fun _ => keeps_pure
    · exact keeps_bind (keeps_raise fun e _ => nofun) fun _ => keeps_pure
  · exact keeps_pure

/-- A session that is not stored leaves the socket open. -/
theorem openSession_keeps (hs : ∀ c q, I c → I (c.send q))
    (hc : (∀ c, I c → I c.close) ∨ a.setInfo = false) (cookie : Hash) :
    Keeps I E (openSession a cookie) := by
  unfold openSession
  split
  · exact send_keeps hs _
  · rename_i hset
    rcases hc with hc | hc
    · exact keeps_bind (send_keeps hs _) fun _ => keeps_modify hc
    · simp [hc] at hset

theorem sessionCheck_keeps (sha256 : List Byte → Hash) (hs : ∀ c q, I c → I (c.send q))
    (hc : (∀ c, I c → I c.close) ∨ ∃ ec, a.info = .error ec ∧ a.setInfo = false)
    (accountId : AccountId) : Keeps I E (sessionCheck sha256 a accountId) := by
  have hopen : ∀ cookie, Keeps I E (openSession a cookie) :=
    openSession_keeps hs (hc.imp_right fun ⟨_, _, hset⟩ => hset)
  unfold sessionCheck
  split
  · split
    · exact keeps_bind (send_keeps hs _) fun _ => hopen _
    · exact hopen _
  · rename_i hi
    rcases hc with hc | ⟨ec, he, _⟩
    · exact keeps_bind (send_keeps hs _) fun _ => keeps_modify hc
    · rw [he] at hi
      cases hi

/-- **One request lets no exception out**: all of it stands in the `try` block. -/
theorem clientProcess_keeps (sha256 : List Byte → Hash) (hdb : a.connection = true)
    (hs : ∀ c q, I c → I (c.send q)) (ht : ∀ c n, I c → I (c.fillTTL n))
    (hc : (∀ c, I c → I c.close) ∨ ∃ ec, a.info = .error ec ∧ a.setInfo = false)
    (packet : ByteQueue) : Keeps I E (clientProcess sha256 a packet) := by
  refine keeps_catching ?_ fun e => send_keeps hs _
  refine keeps_bind (keeps_raise fun e _ => nofun) fun p => ?_
  refine keeps_bind (readRequest_keeps ht _ _) fun r => ?_
  refine keeps_bind (login_keeps hdb hs _ _ _) fun accountId => ?_
  split
  · exact sessionCheck_keeps sha256 hs hc accountId
  · exact keeps_pure

/-- The receive handler: the request, then `ClientProcess` again. -/
def onReceive {κ : Type} (crypt : κ → List Byte → Except Exn (List Byte) × κ)
    (sha256 : List Byte → Hash) (answers : Nat → Answers) (meanwhile : Nat → Socket → Socket)
    (inbox : Inbox κ) (packet : List Byte) : Proc Socket Stop (Inbox κ) :=
  receiving crypt Socket.accepts meanwhile (fun i => clientProcess sha256 (answers i)) inbox packet

/-- The handler finishes without an exception, whatever the socket, the other threads
and the answers, as long as there is a database connection. -/
def Finishes {κ : Type} (crypt : κ → List Byte → Except Exn (List Byte) × κ)
    (sha256 : List Byte → Hash) (inbox : Inbox κ) (packet : List Byte) : Prop :=
  ∀ answers meanwhile, (∀ i, (answers i).connection = true) → ∀ c,
    ∃ rest c', exec (onReceive crypt sha256 answers meanwhile inbox packet) c = (.ok rest, c')

/-- Answers with which a request leaves the socket open. -/
def quiet : Answers :=
  ⟨true, fun _ _ => .ok 0, fun _ _ => .ok 0, .ok (), .ok (), .error 0, [], 0, false⟩

/-- **Only a buffered message that does not decrypt** gets an exception out. -/
theorem finishes_iff {κ : Type} (crypt : κ → List Byte → Except Exn (List Byte) × κ)
    (sha256 : List Byte → Hash) (inbox : Inbox κ) (packet : List Byte) :
    Finishes crypt sha256 inbox packet ↔ inbox.Legible crypt fun _ => True := by
  constructor
  · intro h
    by_contra hl
    have hkeep : ∀ q, Keeps (fun c : Socket => c.accepts = true) (fun _ => False)
        (clientProcess sha256 quiet q) := by
      refine clientProcess_keeps sha256 rfl ?_ (fun _ _ hc => hc) (.inr ⟨0, rfl, rfl⟩)
      intro c q hc
      rw [Socket.accepts_send]
      exact hc
    have hthrow : Throws (onReceive crypt sha256 (fun _ => quiet) (fun _ => id) inbox packet)
        ⟨true, false, 0, []⟩ :=
      receiving_throws (fun _ hc => hc) (fun _ v _ => hkeep (ByteQueue.ofVector v))
        (fun _ _ _ hv => absurd trivial hv) (fun hp => hl hp.2) rfl
    obtain ⟨rest, c', hr⟩ := h (fun _ => quiet) (fun _ => id) (fun _ => rfl) ⟨true, false, 0, []⟩
    exact hthrow.not_returns hr
  · intro hl answers meanwhile hn c
    have hall : ∀ i v, True → Keeps (fun _ => True) (fun _ => False)
        (clientProcess sha256 (answers i) (ByteQueue.ofVector v)) := fun i v _ =>
      clientProcess_keeps sha256 (hn i) (fun _ _ _ => trivial) (fun _ _ _ => trivial)
        (.inl fun _ _ => trivial) (ByteQueue.ofVector v)
    obtain ⟨rest, t, hr, _⟩ :=
      (receiving_keeps Socket.accepts meanwhile hall trivial hl).returns (s := c) trivial
    exact ⟨rest, t, hr⟩

end MyAuth
end DrgbServer.Auth
