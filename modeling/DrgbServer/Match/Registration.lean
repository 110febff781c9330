import DrgbServer.Match.MyMatch

/-! # Who is in `sessions` after `AuthenticateProcess`

The session is looked up by its cookie but changed by the account: `InsertLKeyValue`
takes the account's entry whatever cookie it has, and `Insert` refuses an account that
is there under another cookie. The handler tests neither result. -/
namespace DrgbServer.Match
open DrgbServer.Utils DrgbServer.Network DrgbServer.Lib.Procedure

namespace MyMatch

/-- `sessions` after the handler has entered the client. -/
def entered (sessions : Table AccountId Hash SocketId) (accountId : AccountId) (cookie : Hash)
    (client : SocketId) : Table AccountId Hash SocketId :=
  match sessions.findRKey cookie with
  | some _ => (sessions.insertLKeyValue accountId client).2
  | none => (sessions.insert accountId cookie client).2

/-- The cookie is the account's own, or both are new. -/
def Registrable (sessions : Table AccountId Hash SocketId) (accountId : AccountId)
    (cookie : Hash) : Prop :=
  (∃ origin, sessions.findRKey cookie = some (accountId, origin)) ∨
    (sessions.findRKey cookie = none ∧ sessions.findLKey accountId = none)

/-- The database gives the data of the account. -/
structure Answers.Informed (a : Answers) : Prop where
  connection : a.connection = true
  info : ∃ r, a.info = .ok r
  achieves : ∃ r, a.achieves = .ok r

/-- If the handler goes on to `ClientProcess` for the account, the account is registered
with the cookie and the client, and every other account as before. -/
def Registers (s : MyMatch) (client : SocketId) (a : Answers) (packet : ByteQueue)
    (accountId : AccountId) (cookie : Hash) : Prop :=
  ∀ t, exec (authenticateProcess client a packet) s = (.ok (some accountId), t) →
    t.sessions.findLKey accountId = some (cookie, client) ∧
      ∀ other, other ≠ accountId → t.sessions.findLKey other = s.sessions.findLKey other

section Entering
variable {sessions : Table AccountId Hash SocketId} {accountId other : AccountId} {cookie : Hash}
  {client : SocketId}

/-- The other accounts keep their entries in every case. -/
theorem entered_other (h : other ≠ accountId) :
    (entered sessions accountId cookie client).findLKey other = sessions.findLKey other := by
  unfold entered
  split
  · rw [Table.findLKey_insertLKeyValue, if_neg h]
  · cases hi : (sessions.insert accountId cookie client).1 with
    | true => rw [Table.findLKey_insert hi, if_neg h]
    | false => rw [Table.insert_of_refused hi]

/-- Under a known cookie the account keeps the cookie it has. -/
theorem entered_known {owner : AccountId × SocketId} (h : sessions.findRKey cookie = some owner) :
    (entered sessions accountId cookie client).findLKey accountId =
      (sessions.findLKey accountId).map fun e => (e.1, client) := by
  rw [entered, h]
  exact (Table.findLKey_insertLKeyValue accountId).trans (if_pos rfl)

/-- Under a new cookie an account that is there stays as it is. -/
theorem entered_refused (h : sessions.findRKey cookie = none) {e : Hash × SocketId}
    (he : sessions.findLKey accountId = some e) :
    entered sessions accountId cookie client = sessions := by
  rw [entered, h]
  refine Table.insert_of_refused (Bool.eq_false_iff.mpr fun hi => ?_)
  rw [(Table.insert_fst.mp hi).1] at he
  cases he

theorem entered_new (h : sessions.findRKey cookie = none)
    (ha : sessions.findLKey accountId = none) :
    (entered sessions accountId cookie client).findLKey accountId = some (cookie, client) := by
  rw [entered, h]
  exact (Table.findLKey_insert (Table.insert_fst.mpr ⟨ha, h⟩) accountId).trans (if_pos rfl)

/-- **When the account is registered with the cookie and the client.** -/
theorem entered_iff : (entered sessions accountId cookie client).findLKey accountId =
    some (cookie, client) ↔ Registrable sessions accountId cookie := by
  constructor
  · intro h
    cases hc : sessions.findRKey cookie with
    | some owner =>
      rw [entered_known hc] at h
      obtain ⟨⟨_, origin⟩, he, heq⟩ := Option.map_eq_some_iff.mp h
      cases heq
      have hown := Table.findRKey_eq_some.mpr he
      exact .inl ⟨origin, hown⟩
    | none => cases ha : sessions.findLKey accountId with
      | none => exact .inr ⟨hc, ha⟩
      | some e =>
        -- the entry that stays has another cookie: this one is in no entry
        rw [entered_refused hc ha] at h
        exact absurd h (Table.findRKey_eq_none_iff.mp hc accountId client)
  · rintro (⟨origin, hc⟩ | ⟨hc, ha⟩)
    · rw [entered_known hc, Table.findRKey_eq_some.mp hc]
      rfl
    · exact entered_new hc ha

end Entering

/-! ## The handler -/

section Handler
variable {client : SocketId} {a : Answers} {packet : ByteQueue} {accountId : AccountId}
  {cookie : Hash} {s : MyMatch}

theorem supersede_sessions (accountId : AccountId) (origin : SocketId) (s : MyMatch) :
    ∃ t, exec (supersede accountId origin) s = (.ok (), t) ∧ t.sessions = s.sessions := by
  rw [supersede, exec_bind, exec_get]
  dsimp only
  split
  · exact ⟨_, rfl, rfl⟩
  · exact ⟨s, rfl, rfl⟩

theorem enterSession_sessions (client : SocketId) (accountId : AccountId) (cookie : Hash)
    (s : MyMatch) : ∃ t, exec (enterSession client accountId cookie) s = (.ok (), t) ∧
      t.sessions = entered s.sessions accountId cookie client := by
  rw [enterSession, entered, exec_bind, exec_get]
  dsimp only
  cases s.sessions.findRKey cookie with
  | none => exact ⟨_, rfl, rfl⟩
  | some owner =>
    obtain ⟨u, hu, hsessions⟩ := supersede_sessions accountId owner.2 s
    refine ⟨{ u with sessions := (u.sessions.insertLKeyValue accountId client).2 }, ?_, ?_⟩
    · dsimp only
      rw [exec_bind, hu]
      rfl
    · dsimp only
      rw [hsessions]

/-- Without the data of the account the block that sends it throws. -/
theorem inform_throws (h : ¬ a.Informed) (s : MyMatch) : Throws (inform client a) s := by
  have hbody : ∃ e u, exec
      (if !a.connection then throw (.thrown (.stackTrace "DB Connection Failed"))
      else do
        let info ← raise a.info
        let achieves ← raise a.achieves
        send client (infoPacket info achieves)) s = (.error (.thrown e), u) := by
    cases hc : a.connection with
    | false => exact ⟨_, _, rfl⟩
    | true => cases hi : a.info with
      | error e => exact ⟨_, _, rfl⟩
      | ok r => cases ha : a.achieves with
        | error e => exact ⟨_, _, rfl⟩
        | ok l => exact absurd ⟨hc, ⟨r, hi⟩, ⟨l, ha⟩⟩ h
  obtain ⟨e, u, hu⟩ := hbody
  rw [Throws, inform, catching, exec_tryCatch, hu]
  exact ⟨_, _, rfl⟩

theorem identify_found {bytes : List Byte} {rest : ByteQueue}
    (hpop : packet.pop 32 false = .ok (bytes, rest))
    (hk : a.cookieInfo (toHash bytes) = some (accountId, selfKeyword)) :
    identify a packet = .ok (some (accountId, toHash bytes)) := by
  rw [identify, hpop]
  dsimp only
  rw [hk]
  exact if_neg (not_not.mpr rfl)

theorem exec_authenticateProcess (client : SocketId)
    (hid : identify a packet = .ok (some (accountId, cookie))) (hi : a.Informed) (s : MyMatch) : ∃ t,
      exec (authenticateProcess client a packet) s = (.ok (some accountId), t) ∧
        t.sessions = entered s.sessions accountId cookie client := by
  obtain ⟨u, hu, hsessions⟩ := enterSession_sessions client accountId cookie s
  obtain ⟨r, hr⟩ := hi.info
  obtain ⟨l, hl⟩ := hi.achieves
  have hrun : exec (authenticateProcess client a packet) s = (.ok (some accountId), { u with
      sockets := (u.sockets.modify client (·.send (infoPacket r l))).modify client
        (·.fillTTL sessionTTL) }) := by
    rw [authenticateProcess, hid, raise_ok_bind]
    dsimp only
    rw [exec_bind, hu]
    dsimp only
    rw [exec_bind, exec_inform hi.connection hr hl]
    rfl
  exact ⟨_, hrun, hsessions⟩

theorem authenticateProcess_throws (hid : identify a packet = .ok (some (accountId, cookie)))
    (hi : ¬ a.Informed) (s : MyMatch) : Throws (authenticateProcess client a packet) s := by
  obtain ⟨u, hu, -⟩ := enterSession_sessions client accountId cookie s
  rw [authenticateProcess, hid, raise_ok_bind]
  exact throws_bind_right hu (throws_bind_left (inform_throws hi u) _)

end Handler

/-- **A client that goes on to `ClientProcess` is registered** with its cookie and its
socket iff the cookie was the account's own or both were new; the other accounts keep
their entries. -/
theorem registers_iff (s : MyMatch) (client : SocketId) (a : Answers) (packet : ByteQueue)
    {bytes : List Byte} {rest : ByteQueue} {accountId : AccountId}
    (hpop : packet.pop 32 false = .ok (bytes, rest))
    (hk : a.cookieInfo (toHash bytes) = some (accountId, selfKeyword)) :
    Registers s client a packet accountId (toHash bytes) ↔
      (a.Informed → Registrable s.sessions accountId (toHash bytes)) := by
  have hid := identify_found hpop hk
  constructor
  · intro h hi
    obtain ⟨t, ht, hsessions⟩ := exec_authenticateProcess client hid hi s
    have hown := (h t ht).1
    rw [hsessions] at hown
    exact entered_iff.mp hown
  · intro h t ht
    have hi : a.Informed := by
      by_contra hn
      exact (authenticateProcess_throws hid hn s).not_returns ht
    obtain ⟨u, hu, hsessions⟩ := exec_authenticateProcess client hid hi s
    obtain rfl : u = t := (Prod.mk.inj (hu.symm.trans ht)).2
    rw [hsessions]
    exact ⟨entered_iff.mpr (h hi), fun other ho => entered_other ho⟩

theorem pop_zeros : (ByteQueue.ofVector (List.replicate 32 0)).pop 32 false =
    .ok (List.replicate 32 0, ByteQueue.readTo (List.replicate 32 0) []) := by
  have hq : ByteQueue.ofVector (List.replicate 32 0) =
      ByteQueue.readTo [] (List.replicate 32 0 ++ []) := by decide +kernel
  rw [hq]
  exact ByteQueue.pop_readTo List.length_replicate (by decide)

/-- A first login: the account and its cookie are new. -/
theorem registers_first : Registers (serving 0) 0 plain (ByteQueue.ofVector (List.replicate 32 0))
    1 (toHash (List.replicate 32 0)) :=
  (registers_iff (serving 0) 0 plain _ pop_zeros rfl).mpr fun _ =>
    .inr ⟨Table.findRKey_empty, Table.findLKey_empty⟩

/-- Account 1 is there with socket 0, under an older cookie. -/
def moved : MyMatch :=
  { serving 1 with sessions := ((serving 1).sessions.insert 1 (toHash [1]) 0).2 }

/-- The account comes back with a new cookie and another socket: the insertion is refused,
and the handler goes on. -/
theorem not_registers_moved : ¬ Registers moved 1 plain
    (ByteQueue.ofVector (List.replicate 32 0)) 1 (toHash (List.replicate 32 0)) := by
  intro h
  obtain ⟨t, ht, hsessions⟩ := exec_authenticateProcess 1
    (identify_found (a := plain) pop_zeros rfl) ⟨rfl, ⟨_, rfl⟩, ⟨_, rfl⟩⟩ moved
  have hown := (h t ht).1
  rw [hsessions] at hown
  revert hown
  decide +kernel

end MyMatch
end DrgbServer.Match
