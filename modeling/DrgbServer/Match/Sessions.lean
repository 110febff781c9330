import DrgbServer.Lib.Transition
import DrgbServer.Match.MyMatch

/-! # The match server as its threads run it

Receive handlers of any number of sockets and the matchmaker thread, stepping in any
order. A step is what a thread does between two points where another one can come
in: one operation of `sessions`, of `matchmaker` or of a socket. A request of a client
makes at most one of these, so `ClientProcess` serves a packet in one step.

At most one receive is outstanding for a socket. `StartRecv` is a step of its own; it
registers nothing on a socket that is closed. A receive that is outstanding ends with
a packet, with a fragment of one, after which `Recv_Handle` calls `StartRecv` again,
or with an error. Sockets are closed by any thread at any time. An exception that
leaves a handler ends the process, and so does a null pointer in `MatchMake`.

Beside the data of the code the state records through which socket an element came
into `wait_queue` and which sockets have asked for a match. No step depends on these. -/
namespace DrgbServer.Match
open DrgbServer.Utils DrgbServer.Network DrgbServer.Lib.Procedure

/-- Where the receive handler of a socket stands. -/
inductive Rx where
  /-- no receive is outstanding and no handler runs -/
  | none
  /-- before the `StartRecv` of `AuthenticateProcess` -/
  | authArming
  | authWaiting
  /-- the cookie is known, before `FindRKey` -/
  | entering (accountId : AccountId) (cookie : Hash)
  /-- `FindRKey` gave a session with the socket `origin` -/
  | found (accountId : AccountId) (origin : SocketId)
  /-- `origin` was there and the account is off the queue, before `Close` -/
  | superseding (accountId : AccountId) (origin : SocketId)
  /-- before `InsertLKeyValue` -/
  | updating (accountId : AccountId)
  /-- before `Insert` -/
  | inserting (accountId : AccountId) (cookie : Hash)
  /-- before the data of the account is read and sent -/
  | informing (accountId : AccountId)
  /-- before the `StartRecv` of `ClientProcess` -/
  | arming (accountId : AccountId)
  | waiting (accountId : AccountId)
  /-- the receive has failed, before `Exit` -/
  | failed (accountId : AccountId)
  /-- before `FindLKey` -/
  | leaving (accountId : AccountId)
  /-- the session is that of this socket, before `EraseLKey` -/
  | erasing (accountId : AccountId)
  /-- before the last `Close` -/
  | closing
deriving DecidableEq

/-- Where `MatchMake` stands. A match is a list of its two elements; `done` pairs the
elements looked up with the sockets found open. -/
inductive MakerPc where
  /-- before `sleep_for` -/
  | idle
  /-- in `matchmaker_cv.wait` -/
  | waiting
  /-- before `Process` -/
  | woken
  /-- at the condition of the loop -/
  | looping
  /-- before `FindLKey` of the next element -/
  | finding (todo : List QueueElement) (done : List (QueueElement × Option SocketId))
  /-- `FindLKey` gave the socket `k`, before `lock` -/
  | locking (e : QueueElement) (k : SocketId) (todo : List QueueElement)
      (done : List (QueueElement × Option SocketId))
  /-- the socket is held, before `RefreshInfo` and `is_open` -/
  | checking (e : QueueElement) (k : SocketId) (todo : List QueueElement)
      (done : List (QueueElement × Option SocketId))
  /-- a battle server has taken the match, before the next player is told -/
  | dismissing (battleServer : Seed) (done : List (QueueElement × Option SocketId))
  /-- before `Close` of the socket of a player told -/
  | parting (battleServer : Seed) (k : SocketId) (done : List (QueueElement × Option SocketId))
  /-- a side is gone, before `Enter` or `EraseLKey` of the next element -/
  | returning (done : List (QueueElement × Option SocketId))
  /-- a null pointer was dereferenced -/
  | crashed
deriving DecidableEq

/-- The sockets `MatchMake` holds. -/
def MakerPc.held : MakerPc → List SocketId
  | .idle | .waiting | .woken | .looping | .crashed => []
  | .finding _ done | .locking _ _ _ done | .dismissing _ done | .returning done =>
    done.filterMap (·.2)
  | .checking _ k _ done | .parting _ k done => k :: done.filterMap (·.2)

structure Server where
  mm : MyMatch
  rx : SocketId → Rx
  /-- the number of the next socket -/
  next : SocketId
  pc : MakerPc
  /-- the process has ended -/
  terminated : Bool
  /-- the socket whose request, or whose session in `MatchMake`, brought an element into
  `wait_queue` last -/
  entered : QueueElement → Option SocketId
  /-- the account a socket has asked for a match for, until it leaves the queue by its
  own `REQ_PAUSEMATCH` or in a match -/
  wants : SocketId → Option AccountId

namespace Server

inductive Label where
  | accept
  | authPacket (k : SocketId) (answers : MyMatch.Answers) (packet : List Byte)
  | authError (k : SocketId)
  | findSession (k : SocketId)
  | testOrigin (k : SocketId)
  | closeOrigin (k : SocketId)
  | updateSession (k : SocketId)
  | insertSession (k : SocketId)
  | inform (k : SocketId) (answers : MyMatch.Answers)
  | arm (k : SocketId)
  | fragment (k : SocketId)
  /-- the message received does not decrypt -/
  | undecrypted (k : SocketId)
  | packet (k : SocketId) (answers : MyMatch.Answers) (packet : List Byte)
  | error (k : SocketId)
  | leaveQueue (k : SocketId)
  | findOwn (k : SocketId)
  | eraseOwn (k : SocketId)
  | finish (k : SocketId)
  /-- a timer, a failed write or the server closes the socket -/
  | close (k : SocketId)
  /-- the transport goes down -/
  | disconnect (k : SocketId)
  /-- the last pointer to the socket goes away -/
  | free (k : SocketId)
  | wait
  | wake
  | process
  | getMatch
  | find
  | lock
  | check (ok : Bool)
  | transfer (battleServer : Seed)
  | tell
  | part
  | giveBack (visited : List Nat)
  | popMatch

def start : Server where
  mm := ⟨Table.empty, MyMatchMaker.start, fun _ => none, []⟩
  rx _ := .none
  next := 0
  pc := .idle
  terminated := false
  entered _ := none
  wants _ := none

def setRx (s : Server) (k : SocketId) (r : Rx) : Server :=
  { s with rx := Function.update s.rx k r }

def setSessions (s : Server) (sessions : Table AccountId Hash SocketId) : Server :=
  { s with mm := { s.mm with sessions } }

def setMaker (s : Server) (matchmaker : MyMatchMaker) : Server :=
  { s with mm := { s.mm with matchmaker } }

def setSockets (s : Server) (sockets : Sockets) : Server :=
  { s with mm := { s.mm with sockets } }

/-- `Close` of a socket. -/
def shut (s : Server) (k : SocketId) : Server := s.setSockets (s.mm.sockets.modify k (·.close))

section Fields
variable (s : Server) (k j : SocketId) (r : Rx) (sessions : Table AccountId Hash SocketId)
  (matchmaker : MyMatchMaker) (sockets : Sockets)

@[simp] theorem setRx_mm : (s.setRx k r).mm = s.mm := rfl
@[simp] theorem setRx_next : (s.setRx k r).next = s.next := rfl
@[simp] theorem setRx_pc : (s.setRx k r).pc = s.pc := rfl
@[simp] theorem setRx_entered : (s.setRx k r).entered = s.entered := rfl
@[simp] theorem setRx_wants : (s.setRx k r).wants = s.wants := rfl
@[simp] theorem setRx_rx_self : (s.setRx k r).rx k = r := by
  simp [setRx]

variable {k j} in
theorem setRx_rx_other (h : j ≠ k) : (s.setRx k r).rx j = s.rx j := by
  simp [setRx, h]

@[simp] theorem setSessions_rx : (s.setSessions sessions).rx = s.rx := rfl
@[simp] theorem setMaker_rx : (s.setMaker matchmaker).rx = s.rx := rfl
@[simp] theorem setSockets_rx : (s.setSockets sockets).rx = s.rx := rfl
@[simp] theorem shut_rx : (s.shut k).rx = s.rx := rfl

end Fields

/-! ## `AuthenticateProcess` -/

def accept (s : Server) : Server :=
  { (s.setSockets (Function.update s.mm.sockets s.next (some ⟨true, false, 0, []⟩))).setRx s.next
      .authArming with next := s.next + 1 }

/-- What becomes of a packet with a cookie. -/
def identified (s : Server) (k : SocketId) : Except Exn (Option (AccountId × Hash)) → Server
  -- the exception leaves the handler
  | .error _ => { s.setRx k .none with terminated := true }
  | .ok none => { s with mm := (exec (MyMatch.refuse k) s.mm).2 }.setRx k .none
  | .ok (some (accountId, cookie)) => s.setRx k (.entering accountId cookie)

def authPacket (s : Server) (k : SocketId) (answers : MyMatch.Answers) (packet : List Byte) :
    Option Server :=
  match s.rx k with
  | .authWaiting => some (s.identified k (MyMatch.identify answers (ByteQueue.ofVector packet)))
  | _ => none

def authError (s : Server) (k : SocketId) : Option Server :=
  match s.rx k with
  | .authWaiting => some ((s.shut k).setRx k .none)
  | _ => none

def findSession (s : Server) (k : SocketId) : Option Server :=
  match s.rx k with
  | .entering accountId cookie => match s.mm.sessions.findRKey cookie with
    | some (_, origin) => some (s.setRx k (.found accountId origin))
    | none => some (s.setRx k (.inserting accountId cookie))
  | _ => none

def testOrigin (s : Server) (k : SocketId) : Option Server :=
  match s.rx k with
  | .found accountId origin =>
    if (s.mm.sockets origin).isSome then
      some ((s.setMaker (s.mm.matchmaker.exit accountId)).setRx k (.superseding accountId origin))
    else some (s.setRx k (.updating accountId))
  | _ => none

def closeOrigin (s : Server) (k : SocketId) : Option Server :=
  match s.rx k with
  | .superseding accountId origin =>
    let told := s.mm.sockets.modify origin (·.send (code errDuplicatedAccess))
    some ((s.setSockets (told.modify origin (·.close))).setRx k (.updating accountId))
  | _ => none

def updateSession (s : Server) (k : SocketId) : Option Server :=
  match s.rx k with
  | .updating accountId =>
    some ((s.setSessions (s.mm.sessions.insertLKeyValue accountId k).2).setRx k
      (.informing accountId))
  | _ => none

def insertSession (s : Server) (k : SocketId) : Option Server :=
  match s.rx k with
  | .inserting accountId cookie =>
    some ((s.setSessions (s.mm.sessions.insert accountId cookie k).2).setRx k
      (.informing accountId))
  | _ => none

def inform (s : Server) (k : SocketId) (answers : MyMatch.Answers) : Option Server :=
  match s.rx k with
  | .informing accountId => match exec (MyMatch.inform k answers) s.mm with
    | (.ok _, t) =>
      some ({ s with mm := (exec (MyMatch.fillTTL k) t).2 }.setRx k (.arming accountId))
    -- the exception leaves the handler
    | (.error _, t) => some { { s with mm := t }.setRx k .none with terminated := true }
  | _ => none

/-- `StartRecv`. -/
def arm (s : Server) (k : SocketId) : Option Server :=
  match s.rx k with
  | .authArming => some (s.setRx k (if s.mm.sockets.accepts k then .authWaiting else .none))
  | .arming accountId =>
    some (s.setRx k (if s.mm.sockets.accepts k then .waiting accountId else .none))
  | _ => none

/-- `Recv_Handle` finds no complete message. -/
def fragment (s : Server) (k : SocketId) : Option Server :=
  match s.rx k with
  | .authWaiting => some (s.setRx k .authArming)
  | .waiting accountId => some (s.setRx k (.arming accountId))
  | _ => none

/-- `Crypt` throws, in `Recv_Handle` or in a `StartRecv` that finds a message buffered. -/
def undecrypted (s : Server) (k : SocketId) : Option Server :=
  match s.rx k with
  | .authWaiting | .waiting _ => some { s.setRx k .none with terminated := true }
  | .authArming | .arming _ =>
    if s.mm.sockets.accepts k then some { s.setRx k .none with terminated := true } else none
  | _ => none

/-! ## `ClientProcess` -/

/-- The element a packet brings into `wait_queue`. -/
def brings (mm : MyMatchMaker) (accountId : AccountId) (answers : MyMatch.Answers)
    (packet : ByteQueue) : Option QueueElement :=
  if MyMatch.headerOf packet = some reqStartmatch ∧ answers.connection ∧ 0 < accountId then
    match answers.info with
    | .ok r => some ⟨accountId, r.win, r.draw, r.loose, mm.counts.length⟩
    | .error _ => none
  else none

/-- What a packet says about the wishes of its sender. -/
def wish (accountId : AccountId) (packet : ByteQueue) (before : Option AccountId) :
    Option AccountId :=
  if MyMatch.headerOf packet = some reqStartmatch then some accountId
  else if MyMatch.headerOf packet = some reqPausematch then none
  else before

variable (ar : Arith)

/-- **What a packet can do to the matchmaker.** -/
theorem clientProcess_cases (k : SocketId) (accountId : AccountId) (answers : MyMatch.Answers)
    (packet : ByteQueue) (mm : MyMatch) :
    (∃ r : Record, 0 < accountId ∧ MyMatch.headerOf packet = some reqStartmatch ∧
      brings mm.matchmaker accountId answers packet =
        some ⟨accountId, r.win, r.draw, r.loose, mm.matchmaker.counts.length⟩ ∧
      (exec (MyMatch.clientProcess ar k accountId answers packet) mm).2.matchmaker =
        mm.matchmaker.enter ar accountId r.win r.draw r.loose answers.visited) ∨
    (MyMatch.headerOf packet = some reqPausematch ∧
      brings mm.matchmaker accountId answers packet = none ∧
      (exec (MyMatch.clientProcess ar k accountId answers packet) mm).2.matchmaker =
        mm.matchmaker.exit accountId) ∨
    (MyMatch.headerOf packet ≠ some reqPausematch ∧
      brings mm.matchmaker accountId answers packet = none ∧
      (exec (MyMatch.clientProcess ar k accountId answers packet) mm).2.matchmaker =
        mm.matchmaker) := by
  by_cases hs : MyMatch.headerOf packet = some reqStartmatch
  · have hp : MyMatch.headerOf packet ≠ some reqPausematch := by
      rw [hs]
      decide
    cases hc : answers.connection with
    | false =>
      refine .inr (.inr ⟨hp, ?_, ?_⟩)
      · simp [brings, hc]
      · rw [MyMatch.exec_clientProcess_start_failed ar hs (.inl ⟨hc, rfl⟩)]
        rfl
    | true => cases hi : answers.info with
      | error e =>
        refine .inr (.inr ⟨hp, ?_, ?_⟩)
        · simp [brings, hi]
        · rw [MyMatch.exec_clientProcess_start_failed ar hs (.inr ⟨hc, hi⟩)]
          rw [MyMatch.failed]
          split <;> rfl
      | ok r =>
        rw [MyMatch.exec_clientProcess_start ar hs hc hi]
        by_cases hid : 0 < accountId
        · refine .inl ⟨r, hid, hs, ?_, rfl⟩
          simp [brings, hs, hc, hid, hi]
        · refine .inr (.inr ⟨hp, ?_, ?_⟩)
          · simp [brings, hid]
          · simp [MyMatchMaker.enter, not_lt.mp hid]
  · have hb : brings mm.matchmaker accountId answers packet = none := by
      simp [brings, hs]
    by_cases hp : MyMatch.headerOf packet = some reqPausematch
    · refine .inr (.inl ⟨hp, hb, ?_⟩)
      rw [MyMatch.exec_clientProcess_pause ar hp]
    · exact .inr (.inr ⟨hp, hb, MyMatch.clientProcess_matchmaker ar hs hp mm⟩)

/-- The server after a packet of an account has been handled. -/
def served (s : Server) (k : SocketId) (accountId : AccountId) (answers : MyMatch.Answers)
    (packet : ByteQueue) : Server :=
  { s with
    mm := (exec (MyMatch.clientProcess ar k accountId answers packet) s.mm).2
    rx := Function.update s.rx k (.arming accountId)
    entered := (brings s.mm.matchmaker accountId answers packet).elim s.entered
      fun e => Function.update s.entered e (some k)
    wants := Function.update s.wants k (wish accountId packet (s.wants k)) }

def packet (s : Server) (k : SocketId) (answers : MyMatch.Answers) (packet : List Byte) :
    Option Server :=
  match s.rx k with
  | .waiting accountId => some (s.served ar k accountId answers (ByteQueue.ofVector packet))
  | _ => none

def error (s : Server) (k : SocketId) : Option Server :=
  match s.rx k with
  | .waiting accountId => some (s.setRx k (.failed accountId))
  | _ => none

def leaveQueue (s : Server) (k : SocketId) : Option Server :=
  match s.rx k with
  | .failed accountId =>
    some ((s.setMaker (s.mm.matchmaker.exit accountId)).setRx k (.leaving accountId))
  | _ => none

def findOwn (s : Server) (k : SocketId) : Option Server :=
  match s.rx k with
  | .leaving accountId => match s.mm.sessions.findLKey accountId with
    | some (_, k') => some (s.setRx k (if k' = k then .erasing accountId else .closing))
    | none => some (s.setRx k .closing)
  | _ => none

def eraseOwn (s : Server) (k : SocketId) : Option Server :=
  match s.rx k with
  | .erasing accountId =>
    some ((s.setSessions (s.mm.sessions.eraseLKey accountId).2).setRx k .closing)
  | _ => none

def finish (s : Server) (k : SocketId) : Option Server :=
  match s.rx k with
  | .closing => some ((s.shut k).setRx k .none)
  | _ => none

/-! ## Sockets -/

def disconnect (s : Server) (k : SocketId) : Server :=
  s.setSockets (s.mm.sockets.modify k fun c => { c with readable := false })

def free (s : Server) (k : SocketId) : Option Server :=
  match s.mm.sockets k with
  | some c =>
    if c.initiateClose ∧ s.rx k = .none ∧ k ∉ s.pc.held then
      some (s.setSockets (Function.update s.mm.sockets k none))
    else none
  | none => none

/-! ## `MatchMake` -/

def wait (s : Server) : Option Server :=
  match s.pc with
  | .idle => some { s with pc := .waiting }
  | _ => none

/-- The predicate of the wait holds. -/
def wake (s : Server) : Option Server :=
  match s.pc with
  | .waiting => if s.mm.matchmaker.size ≥ 2 then some { s with pc := .woken } else none
  | _ => none

/-- `Process`; who is matched has no open wish any more. -/
def process (s : Server) : Option Server :=
  match s.pc with
  | .woken =>
    let matched := (MyMatchMaker.pairUp ar s.mm.matchmaker.waitQueue s.mm.matchmaker.counts).1
    some { s.setMaker (s.mm.matchmaker.process ar) with
      pc := .looping
      wants := fun k => (s.wants k).filter fun accountId =>
        !(MyMatchMaker.players matched).any (·.id == accountId) }
  | _ => none

def getMatch (s : Server) : Option Server :=
  match s.pc with
  | .looping =>
    if s.mm.matchmaker.isThereMatch then
      let m := s.mm.matchmaker.getMatch.1
      some { s with pc := .finding [m.1, m.2] [] }
    else some { s with pc := .idle }
  | _ => none

def find (s : Server) : Option Server :=
  match s.pc with
  | .finding (e :: todo) done => match s.mm.sessions.findLKey e.id with
    | some (_, k) => some { s with pc := .locking e k todo done }
    | none => some { s with pc := .finding todo (done ++ [(e, none)]) }
  | _ => none

def lock (s : Server) : Option Server :=
  match s.pc with
  | .locking e k todo done =>
    if (s.mm.sockets k).isSome then
      some { s.setSockets (s.mm.sockets.modify k (·.send (code ansHeartbeat))) with
        pc := .checking e k todo done }
    else some { s with pc := .crashed, terminated := true }
  | _ => none

def check (s : Server) (ok : Bool) : Option Server :=
  match s.pc with
  | .checking e k todo done =>
    if ok then some { s with pc := .finding todo (done ++ [(e, some k)]) }
    else some { s.shut k with pc := .finding todo (done ++ [(e, none)]) }
  | _ => none

/-- Both sides are there and `TransferMatch` is called, or one is not. -/
def transfer (s : Server) (battleServer : Seed) : Option Server :=
  match s.pc with
  | .finding [] done =>
    if done.all (·.2.isSome) then
      some { s with pc := if battleServer ≤ 0 then .idle else .dismissing battleServer done }
    else some { s with pc := .returning done }
  | _ => none

/-- The result is sent and the session erased. -/
def tell (s : Server) : Option Server :=
  match s.pc with
  | .dismissing battleServer ((e, some k) :: done) =>
    let msg := (code ansMatchmade).push (intImage battleServer)
    some { (s.setSockets (s.mm.sockets.modify k (·.send msg))).setSessions
        (s.mm.sessions.eraseLKey e.id).2 with pc := .parting battleServer k done }
  | _ => none

def part (s : Server) : Option Server :=
  match s.pc with
  | .parting battleServer k done => some { s.shut k with pc := .dismissing battleServer done }
  | _ => none

def giveBack (s : Server) (visited : List Nat) : Option Server :=
  match s.pc with
  | .returning ((e, some k) :: done) =>
    some { s.setMaker (s.mm.matchmaker.enterElem ar e visited) with
      pc := .returning done
      entered := Function.update s.entered e (some k) }
  | .returning ((e, none) :: done) =>
    some { s.setSessions (s.mm.sessions.eraseLKey e.id).2 with pc := .returning done }
  | _ => none

def popMatch (s : Server) : Option Server :=
  match s.pc with
  | .dismissing _ [] | .returning [] =>
    some { s.setMaker s.mm.matchmaker.popMatch with pc := .looping }
  | _ => none

/-- What a thread of a running server does. -/
def act (s : Server) : Label → Option Server
  | .accept => some s.accept
  | .authPacket k answers packet => s.authPacket k answers packet
  | .authError k => s.authError k
  | .findSession k => s.findSession k
  | .testOrigin k => s.testOrigin k
  | .closeOrigin k => s.closeOrigin k
  | .updateSession k => s.updateSession k
  | .insertSession k => s.insertSession k
  | .inform k answers => s.inform k answers
  | .arm k => s.arm k
  | .fragment k => s.fragment k
  | .undecrypted k => s.undecrypted k
  | .packet k answers packet => s.packet ar k answers packet
  | .error k => s.error k
  | .leaveQueue k => s.leaveQueue k
  | .findOwn k => s.findOwn k
  | .eraseOwn k => s.eraseOwn k
  | .finish k => s.finish k
  | .close k => some (s.shut k)
  | .disconnect k => some (s.disconnect k)
  | .free k => s.free k
  | .wait => s.wait
  | .wake => s.wake
  | .process => s.process ar
  | .getMatch => s.getMatch
  | .find => s.find
  | .lock => s.lock
  | .check ok => s.check ok
  | .transfer battleServer => s.transfer battleServer
  | .tell => s.tell
  | .part => s.part
  | .giveBack visited => s.giveBack ar visited
  | .popMatch => s.popMatch

def step (s : Server) (l : Label) : Option Server := if s.terminated then none else s.act ar l

/-! ## What each step does -/

section Cases
variable {ar} {s t : Server} {k : SocketId} {answers : MyMatch.Answers}

theorem authPacket_cases {packet : List Byte} (h : s.authPacket k answers packet = some t) :
    s.rx k = .authWaiting ∧
      t = s.identified k (MyMatch.identify answers (ByteQueue.ofVector packet)) := by
  unfold authPacket at h
  split at h
  · rename_i hrx
    cases h
    exact ⟨hrx, rfl⟩
  · cases h

theorem authError_cases (h : s.authError k = some t) :
    s.rx k = .authWaiting ∧ t = (s.shut k).setRx k .none := by
  unfold authError at h
  split at h
  · rename_i hrx
    cases h
    exact ⟨hrx, rfl⟩
  · cases h

theorem findSession_cases (h : s.findSession k = some t) :
    ∃ accountId cookie, s.rx k = .entering accountId cookie ∧
      ((∃ l origin, s.mm.sessions.findRKey cookie = some (l, origin) ∧
          t = s.setRx k (.found accountId origin)) ∨
        (s.mm.sessions.findRKey cookie = none ∧ t = s.setRx k (.inserting accountId cookie))) := by
  unfold findSession at h
  split at h
  · rename_i accountId cookie hrx
    refine ⟨accountId, cookie, hrx, ?_⟩
    split at h
    · rename_i l origin hfind
      cases h
      exact .inl ⟨l, origin, hfind, rfl⟩
    · rename_i hfind
      cases h
      exact .inr ⟨hfind, rfl⟩
  · cases h

theorem testOrigin_cases (h : s.testOrigin k = some t) :
    ∃ accountId origin, s.rx k = .found accountId origin ∧
      ((s.mm.sockets origin).isSome = true ∧
          t = (s.setMaker (s.mm.matchmaker.exit accountId)).setRx k
            (.superseding accountId origin) ∨
        ¬ (s.mm.sockets origin).isSome = true ∧ t = s.setRx k (.updating accountId)) := by
  unfold testOrigin at h
  split at h
  · rename_i accountId origin hrx
    refine ⟨accountId, origin, hrx, ?_⟩
    split at h
    · rename_i halive
      cases h
      exact .inl ⟨halive, rfl⟩
    · rename_i hgone
      cases h
      exact .inr ⟨hgone, rfl⟩
  · cases h

theorem closeOrigin_cases (h : s.closeOrigin k = some t) :
    ∃ accountId origin, s.rx k = .superseding accountId origin ∧
      t = (s.setSockets ((s.mm.sockets.modify origin
        (·.send (code errDuplicatedAccess))).modify origin (·.close))).setRx k
          (.updating accountId) := by
  unfold closeOrigin at h
  split at h
  · rename_i accountId origin hrx
    cases h
    exact ⟨accountId, origin, hrx, rfl⟩
  · cases h

theorem updateSession_cases (h : s.updateSession k = some t) :
    ∃ accountId, s.rx k = .updating accountId ∧
      t = (s.setSessions (s.mm.sessions.insertLKeyValue accountId k).2).setRx k
        (.informing accountId) := by
  unfold updateSession at h
  split at h
  · rename_i accountId hrx
    cases h
    exact ⟨accountId, hrx, rfl⟩
  · cases h

theorem insertSession_cases (h : s.insertSession k = some t) :
    ∃ accountId cookie, s.rx k = .inserting accountId cookie ∧
      t = (s.setSessions (s.mm.sessions.insert accountId cookie k).2).setRx k
        (.informing accountId) := by
  unfold insertSession at h
  split at h
  · rename_i accountId cookie hrx
    cases h
    exact ⟨accountId, cookie, hrx, rfl⟩
  · cases h

theorem inform_cases (h : s.inform k answers = some t) :
    ∃ accountId, s.rx k = .informing accountId ∧
      ((∃ x u, exec (MyMatch.inform k answers) s.mm = (.ok x, u) ∧
          t = { s with mm := (exec (MyMatch.fillTTL k) u).2 }.setRx k (.arming accountId)) ∨
        ∃ stop u, exec (MyMatch.inform k answers) s.mm = (.error stop, u) ∧
          t = { { s with mm := u }.setRx k .none with terminated := true }) := by
  unfold inform at h
  split at h
  · rename_i accountId hrx
    refine ⟨accountId, hrx, ?_⟩
    split at h
    · rename_i x u he
      cases h
      exact .inl ⟨x, u, he, rfl⟩
    · rename_i stop u he
      cases h
      exact .inr ⟨stop, u, he, rfl⟩
  · cases h

theorem arm_cases (h : s.arm k = some t) :
    (s.rx k = .authArming ∧
      t = s.setRx k (if s.mm.sockets.accepts k then .authWaiting else .none)) ∨
    (∃ accountId, s.rx k = .arming accountId ∧
      t = s.setRx k (if s.mm.sockets.accepts k then .waiting accountId else .none)) := by
  unfold arm at h
  split at h
  · rename_i hrx
    cases h
    exact .inl ⟨hrx, rfl⟩
  · rename_i accountId hrx
    cases h
    exact .inr ⟨accountId, hrx, rfl⟩
  · cases h

theorem fragment_cases (h : s.fragment k = some t) :
    (s.rx k = .authWaiting ∧ t = s.setRx k .authArming) ∨
    (∃ accountId, s.rx k = .waiting accountId ∧ t = s.setRx k (.arming accountId)) := by
  unfold fragment at h
  split at h
  · rename_i hrx
    cases h
    exact .inl ⟨hrx, rfl⟩
  · rename_i accountId hrx
    cases h
    exact .inr ⟨accountId, hrx, rfl⟩
  · cases h

theorem undecrypted_cases (h : s.undecrypted k = some t) :
    t = { s.setRx k .none with terminated := true } ∧
      (s.rx k = .authWaiting ∨ (∃ accountId, s.rx k = .waiting accountId) ∨
        s.mm.sockets.accepts k = true ∧
          (s.rx k = .authArming ∨ ∃ accountId, s.rx k = .arming accountId)) := by
  unfold undecrypted at h
  split at h
  · rename_i hrx
    cases h
    exact ⟨rfl, .inl hrx⟩
  · rename_i accountId hrx
    cases h
    exact ⟨rfl, .inr (.inl ⟨accountId, hrx⟩)⟩
  · rename_i hrx
    split at h
    · rename_i hacc
      cases h
      exact ⟨rfl, .inr (.inr ⟨hacc, .inl hrx⟩)⟩
    · cases h
  · rename_i accountId hrx
    split at h
    · rename_i hacc
      cases h
      exact ⟨rfl, .inr (.inr ⟨hacc, .inr ⟨accountId, hrx⟩⟩)⟩
    · cases h
  · cases h

theorem packet_cases {packet : List Byte} (h : s.packet ar k answers packet = some t) :
    ∃ accountId, s.rx k = .waiting accountId ∧
      t = s.served ar k accountId answers (ByteQueue.ofVector packet) := by
  unfold Server.packet at h
  split at h
  · rename_i accountId hrx
    cases h
    exact ⟨accountId, hrx, rfl⟩
  · cases h

theorem error_cases (h : s.error k = some t) :
    ∃ accountId, s.rx k = .waiting accountId ∧ t = s.setRx k (.failed accountId) := by
  unfold error at h
  split at h
  · rename_i accountId hrx
    cases h
    exact ⟨accountId, hrx, rfl⟩
  · cases h

theorem leaveQueue_cases (h : s.leaveQueue k = some t) :
    ∃ accountId, s.rx k = .failed accountId ∧
      t = (s.setMaker (s.mm.matchmaker.exit accountId)).setRx k (.leaving accountId) := by
  unfold leaveQueue at h
  split at h
  · rename_i accountId hrx
    cases h
    exact ⟨accountId, hrx, rfl⟩
  · cases h

theorem findOwn_cases (h : s.findOwn k = some t) :
    ∃ accountId, s.rx k = .leaving accountId ∧
      ((∃ cookie j, s.mm.sessions.findLKey accountId = some (cookie, j) ∧
          t = s.setRx k (if j = k then .erasing accountId else .closing)) ∨
        (s.mm.sessions.findLKey accountId = none ∧ t = s.setRx k .closing)) := by
  unfold findOwn at h
  split at h
  · rename_i accountId hrx
    refine ⟨accountId, hrx, ?_⟩
    split at h
    · rename_i cookie j hfind
      cases h
      exact .inl ⟨cookie, j, hfind, rfl⟩
    · rename_i hfind
      cases h
      exact .inr ⟨hfind, rfl⟩
  · cases h

theorem eraseOwn_cases (h : s.eraseOwn k = some t) :
    ∃ accountId, s.rx k = .erasing accountId ∧
      t = (s.setSessions (s.mm.sessions.eraseLKey accountId).2).setRx k .closing := by
  unfold eraseOwn at h
  split at h
  · rename_i accountId hrx
    cases h
    exact ⟨accountId, hrx, rfl⟩
  · cases h

theorem finish_cases (h : s.finish k = some t) :
    s.rx k = .closing ∧ t = (s.shut k).setRx k .none := by
  unfold finish at h
  split at h
  · rename_i hrx
    cases h
    exact ⟨hrx, rfl⟩
  · cases h

theorem free_cases (h : s.free k = some t) :
    ∃ c, s.mm.sockets k = some c ∧
      (c.initiateClose = true ∧ s.rx k = .none ∧ k ∉ s.pc.held) ∧
      t = s.setSockets (Function.update s.mm.sockets k none) := by
  unfold free at h
  split at h
  · rename_i c hc
    split at h
    · rename_i hfree
      cases h
      exact ⟨c, hc, hfree, rfl⟩
    · cases h
  · cases h

theorem wait_cases (h : s.wait = some t) : s.pc = .idle ∧ t = { s with pc := .waiting } := by
  unfold wait at h
  split at h
  · rename_i hpc
    cases h
    exact ⟨hpc, rfl⟩
  · cases h

theorem wake_cases (h : s.wake = some t) :
    s.pc = .waiting ∧ s.mm.matchmaker.size ≥ 2 ∧ t = { s with pc := .woken } := by
  unfold wake at h
  split at h
  · rename_i hpc
    split at h
    · rename_i hsize
      cases h
      exact ⟨hpc, hsize, rfl⟩
    · cases h
  · cases h

theorem process_cases (h : s.process ar = some t) :
    s.pc = .woken ∧ t = { s.setMaker (s.mm.matchmaker.process ar) with
      pc := .looping
      wants := fun k => (s.wants k).filter fun accountId =>
        !(MyMatchMaker.players (MyMatchMaker.pairUp ar s.mm.matchmaker.waitQueue
          s.mm.matchmaker.counts).1).any (·.id == accountId) } := by
  unfold process at h
  split at h
  · rename_i hpc
    cases h
    exact ⟨hpc, rfl⟩
  · cases h

theorem getMatch_cases (h : s.getMatch = some t) :
    s.pc = .looping ∧
      (s.mm.matchmaker.isThereMatch = true ∧ t = { s with
          pc := .finding [s.mm.matchmaker.getMatch.1.1, s.mm.matchmaker.getMatch.1.2] [] } ∨
        ¬ s.mm.matchmaker.isThereMatch = true ∧ t = { s with pc := .idle }) := by
  unfold getMatch at h
  split at h
  · rename_i hpc
    refine ⟨hpc, ?_⟩
    split at h
    · rename_i hmatch
      cases h
      exact .inl ⟨hmatch, rfl⟩
    · rename_i hno
      cases h
      exact .inr ⟨hno, rfl⟩
  · cases h

theorem find_cases (h : s.find = some t) :
    ∃ e todo done, s.pc = .finding (e :: todo) done ∧
      ((∃ cookie k, s.mm.sessions.findLKey e.id = some (cookie, k) ∧
          t = { s with pc := .locking e k todo done }) ∨
        (s.mm.sessions.findLKey e.id = none ∧
          t = { s with pc := .finding todo (done ++ [(e, none)]) })) := by
  unfold find at h
  split at h
  · rename_i e todo done hpc
    refine ⟨e, todo, done, hpc, ?_⟩
    split at h
    · rename_i cookie k hfind
      cases h
      exact .inl ⟨cookie, k, hfind, rfl⟩
    · rename_i hfind
      cases h
      exact .inr ⟨hfind, rfl⟩
  · cases h

theorem lock_cases (h : s.lock = some t) :
    ∃ e k todo done, s.pc = .locking e k todo done ∧
      ((s.mm.sockets k).isSome = true ∧
          t = { s.setSockets (s.mm.sockets.modify k (·.send (code ansHeartbeat))) with
            pc := .checking e k todo done } ∨
        ¬ (s.mm.sockets k).isSome = true ∧ t = { s with pc := .crashed, terminated := true }) := by
  unfold lock at h
  split at h
  · rename_i e k todo done hpc
    refine ⟨e, k, todo, done, hpc, ?_⟩
    split at h
    · rename_i halive
      cases h
      exact .inl ⟨halive, rfl⟩
    · rename_i hgone
      cases h
      exact .inr ⟨hgone, rfl⟩
  · cases h

theorem check_cases {ok : Bool} (h : s.check ok = some t) :
    ∃ e k todo done, s.pc = .checking e k todo done ∧
      (ok = true ∧ t = { s with pc := .finding todo (done ++ [(e, some k)]) } ∨
        ¬ ok = true ∧ t = { s.shut k with pc := .finding todo (done ++ [(e, none)]) }) := by
  unfold check at h
  split at h
  · rename_i e k todo done hpc
    refine ⟨e, k, todo, done, hpc, ?_⟩
    split at h
    · rename_i hok
      cases h
      exact .inl ⟨hok, rfl⟩
    · rename_i hno
      cases h
      exact .inr ⟨hno, rfl⟩
  · cases h

theorem transfer_cases {battleServer : Seed} (h : s.transfer battleServer = some t) :
    ∃ done, s.pc = .finding [] done ∧
      (done.all (·.2.isSome) = true ∧ t = { s with
          pc := if battleServer ≤ 0 then .idle else .dismissing battleServer done } ∨
        ¬ done.all (·.2.isSome) = true ∧ t = { s with pc := .returning done }) := by
  unfold transfer at h
  split at h
  · rename_i done hpc
    refine ⟨done, hpc, ?_⟩
    split at h
    · rename_i hall
      cases h
      exact .inl ⟨hall, rfl⟩
    · rename_i hno
      cases h
      exact .inr ⟨hno, rfl⟩
  · cases h

theorem tell_cases (h : s.tell = some t) :
    ∃ battleServer e k done, s.pc = .dismissing battleServer ((e, some k) :: done) ∧
      t = { (s.setSockets (s.mm.sockets.modify k
          (·.send ((code ansMatchmade).push (intImage battleServer))))).setSessions
        (s.mm.sessions.eraseLKey e.id).2 with pc := .parting battleServer k done } := by
  unfold tell at h
  split at h
  · rename_i battleServer e k done hpc
    cases h
    exact ⟨battleServer, e, k, done, hpc, rfl⟩
  · cases h

theorem part_cases (h : s.part = some t) :
    ∃ battleServer k done, s.pc = .parting battleServer k done ∧
      t = { s.shut k with pc := .dismissing battleServer done } := by
  unfold part at h
  split at h
  · rename_i battleServer k done hpc
    cases h
    exact ⟨battleServer, k, done, hpc, rfl⟩
  · cases h

theorem giveBack_cases {visited : List Nat} (h : s.giveBack ar visited = some t) :
    (∃ e k done, s.pc = .returning ((e, some k) :: done) ∧
      t = { s.setMaker (s.mm.matchmaker.enterElem ar e visited) with
        pc := .returning done
        entered := Function.update s.entered e (some k) }) ∨
    (∃ e done, s.pc = .returning ((e, none) :: done) ∧
      t = { s.setSessions (s.mm.sessions.eraseLKey e.id).2 with pc := .returning done }) := by
  unfold giveBack at h
  split at h
  · rename_i e k done hpc
    cases h
    exact .inl ⟨e, k, done, hpc, rfl⟩
  · rename_i e done hpc
    cases h
    exact .inr ⟨e, done, hpc, rfl⟩
  · cases h

theorem popMatch_cases (h : s.popMatch = some t) :
    ((∃ battleServer, s.pc = .dismissing battleServer []) ∨ s.pc = .returning []) ∧
      t = { s.setMaker s.mm.matchmaker.popMatch with pc := .looping } := by
  unfold popMatch at h
  split at h
  · rename_i battleServer hpc
    cases h
    exact ⟨.inl ⟨battleServer, hpc⟩, rfl⟩
  · rename_i hpc
    cases h
    exact ⟨.inr hpc, rfl⟩
  · cases h

end Cases

end Server
end DrgbServer.Match
