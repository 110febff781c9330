import DrgbServer.Lib.Redis
import DrgbServer.Utils.Encoder

/-! # `MyRedis`: the session of an account in Redis

A session is two keys: `account:<id>` holds its cookie and `cookie:<cookie>` the list
of account id and server name. Each function is a program over the queries it sends. -/
namespace DrgbServer.Redis
open DrgbServer.Utils DrgbServer.Lib.Redis

/-! ## Numbers as text -/

/-- `std::to_string` -/
def toStr (n : Nat) : Text := Nat.toDigits 10 n

/-- `isspace` -/
def isSpace (c : Char) : Bool := c = ' ' || (9 ≤ c.toNat && c.toNat ≤ 13)

/-- The digits `strtoull` reads, and whether a minus stands before them. -/
def signedDigits : Text → Bool × Text
  | '-' :: rest => (true, rest.takeWhile Char.isDigit)
  | '+' :: rest => (false, rest.takeWhile Char.isDigit)
  | str => (false, str.takeWhile Char.isDigit)

/-- `std::stoull` -/
def stoull (str : Text) : Except Exn AccountId :=
  let (negative, digits) := signedDigits (str.dropWhile isSpace)
  let n := Nat.ofDigitChars 10 digits 0
  if digits = [] then .error (.stdOther "stoull")
  else if n ≥ 2 ^ 64 then .error (.outOfRange "stoull")
  else .ok (if negative then (2 ^ 64 - n) % 2 ^ 64 else n)

/-! ## The functions -/

/-- The name of a server, `match` or `battle` with a number. -/
@[ext]
structure ServerName where
  text : Text
  nonempty : text ≠ []
  alphanum : text.all Char.isAlphanum = true
deriving DecidableEq

/-- An `ErrorCode` of a failed call, or the exception it ends with. -/
inductive Failure where
  | code (code : Byte)
  /-- `GetErrorCode()`: the error of the connection -/
  | context
  | thrown (e : Exn)
deriving DecidableEq

inductive Answer where
  | set (result : Except Failure Unit)
  | flag (result : Bool)
  | session (result : Except Failure (Hash × Text))
  | owner (result : Except Failure (AccountId × Text))

/-- `keyword_match` -/
def keywordMatch : ServerName := ⟨"match".toList, by decide, rfl⟩

/-- The first battle server. -/
def battleOne : ServerName := ⟨"battle1".toList, by decide, rfl⟩

/-- `SESSION_TIMEOUT`, in milliseconds -/
def sessionTimeout : Nat := 60000

namespace MyRedis

def timeoutStr : Text := toStr sessionTimeout

def cookieStr (cookie : Hash) : Text := Encoder.encodeBase64 cookie.toList

def cookieKey (cookie : Hash) : Text := "cookie:".toList ++ cookieStr cookie

def accountKey (id : AccountId) : Text := "account:".toList ++ toStr id

def setInfoQuery (id : AccountId) (cookie : Hash) (serverName : ServerName) : List Text :=
  let idstr := toStr id
  let cookieStr := cookieStr cookie
  ["MULTI".toList,
    "DEL cookie:".toList ++ cookieStr,
    "RPUSH cookie:".toList ++ cookieStr ++ " ".toList ++ idstr ++ " ".toList ++ serverName.text,
    "PEXPIRE cookie:".toList ++ cookieStr ++ " ".toList ++ timeoutStr,
    "SET account:".toList ++ idstr ++ " ".toList ++ cookieStr ++ " PX ".toList ++ timeoutStr,
    "EXEC".toList]

def setInfo (id : AccountId) (cookie : Hash) (serverName : ServerName) : Prog Answer :=
  .isOpen fun isOpen =>
    if !isOpen then .ret (.set (.error (.code errConnectionClosed)))
    else .query (setInfoQuery id cookie serverName) fun replies =>
      .ret (.set (if replies.length ≤ 0 then .error .context else .ok ()))

def lrangeText (cookieStr : Text) : Text := "LRANGE cookie:".toList ++ cookieStr ++ " 0 1".toList

/-- The verification: the entry of the cookie is that of the account at that server. -/
def verified (idstr serverName : Text) (replies : List Reply) : Bool :=
  match replies with
  | [] => false
  | reply :: _ => match reply.elements with
    | first :: second :: _ => first.str = idstr && second.str = serverName
    | _ => false

/-- What `EXEC` replied at the end of the query: both commands met their key. -/
def committed (size : Nat) (replies : List Reply) : Bool :=
  if replies.length < size then false
  else
    let reply := replies.getD (size - 1) .nil
    if !reply.isArray then false
    else match reply.elements with
      | first :: second :: _ => decide (first.toInt ≥ 1) && decide (second.toInt ≥ 1)
      | _ => false

/-- The transaction of `RefreshInfo` and `ClearInfo`, around its two commands. -/
def watchedQuery (id : AccountId) (cookie : Hash) (commands : List Text) : List Text :=
  ["WATCH cookie:".toList ++ cookieStr cookie, "WATCH account:".toList ++ toStr id,
    "MULTI".toList] ++ commands ++ ["EXEC".toList]

def outcome (size : Nat) (replies : List Reply) : Prog Answer :=
  .ret (.flag (committed size replies))

/-- The transaction, where the verification succeeds. -/
def transact (id : AccountId) (cookie : Hash) (serverName : ServerName) (commands : List Text)
    (replies : List Reply) : Prog Answer :=
  if !verified (toStr id) serverName.text replies then .ret (.flag false)
  else
    let query := watchedQuery id cookie commands
    .query query (outcome query.length)

/-- `RefreshInfo` and `ClearInfo` up to the two commands of their transaction. -/
def conditional (id : AccountId) (cookie : Hash) (serverName : ServerName)
    (commands : List Text) : Prog Answer :=
  .isOpen fun isOpen =>
    if !isOpen then .ret (.flag false)
    else .query [lrangeText (cookieStr cookie)] (transact id cookie serverName commands)

def refreshCommands (id : AccountId) (cookie : Hash) : List Text :=
  ["PEXPIRE cookie:".toList ++ cookieStr cookie ++ " ".toList ++ timeoutStr,
    "PEXPIRE account:".toList ++ toStr id ++ " ".toList ++ timeoutStr]

def refreshInfo (id : AccountId) (cookie : Hash) (serverName : ServerName) : Prog Answer :=
  conditional id cookie serverName (refreshCommands id cookie)

def clearCommands (id : AccountId) (cookie : Hash) : List Text :=
  ["DEL cookie:".toList ++ cookieStr cookie, "DEL account:".toList ++ toStr id]

def clearInfo (id : AccountId) (cookie : Hash) (serverName : ServerName) : Prog Answer :=
  conditional id cookie serverName (clearCommands id cookie)

/-- The second query of the two lookups: both keys live on, and the entry is read. -/
def lookupQuery (idstr cookieStr : Text) : List Text :=
  ["MULTI".toList,
    "PEXPIRE account:".toList ++ idstr ++ " ".toList ++ timeoutStr,
    "PEXPIRE cookie:".toList ++ cookieStr ++ " ".toList ++ timeoutStr,
    "EXEC".toList,
    lrangeText cookieStr]

/-- The end of `GetInfoFromID`. -/
def serverOf (cookie : Hash) (size : Nat) (replies : List Reply) :
    Except Failure (Hash × Text) :=
  if replies.length < size then .error .context
  else match (replies.getD (size - 1) .nil).elements with
    | _ :: second :: _ => .ok (cookie, second.str)
    | _ => .error (.code errNoMatchAccount)

/-- `GetInfoFromID` from the reply to its `GET` on. -/
def lookupCookie (id : AccountId) (cookieStr : Text) : Prog Answer :=
  match Encoder.decodeBase64 cookieStr with
  | .error e => .ret (.session (.error (.thrown e)))
  | .ok vec =>
    let query := lookupQuery (toStr id) cookieStr
    .query query fun replies => .ret (.session (serverOf (toHash vec) query.length replies))

def getInfoFromID (id : AccountId) : Prog Answer :=
  .isOpen fun isOpen =>
    if !isOpen then .ret (.session (.error (.code errConnectionClosed)))
    else .query ["GET account:".toList ++ toStr id] fun replies =>
      match replies with
      | [] => .ret (.session (.error .context))
      | reply :: _ =>
        if !reply.isString then .ret (.session (.error (.code errNoMatchAccount)))
        else lookupCookie id reply.str

/-- The entry of a cookie, read again as it may have changed or expired. -/
def ownerOf (size : Nat) (replies : List Reply) : Except Failure (AccountId × Text) :=
  if replies.length < size then .error .context
  else match (replies.getD (size - 1) .nil).elements with
    | first :: second :: _ => match stoull first.str with
      | .error e => .error (.thrown e)
      | .ok id => .ok (id, second.str)
    | _ => .error (.code errNoMatchAccount)

/-- `GetInfoFromCookie` from the account id of the entry on. -/
def lookupOwner (cookie : Hash) (idstr : Text) : Prog Answer :=
  let query := lookupQuery idstr (cookieStr cookie)
  .query query fun replies => .ret (.owner (ownerOf query.length replies))

def getInfoFromCookie (cookie : Hash) : Prog Answer :=
  .isOpen fun isOpen =>
    if !isOpen then .ret (.owner (.error (.code errConnectionClosed)))
    else .query [lrangeText (cookieStr cookie)] fun replies =>
      match replies with
      | [] => .ret (.owner (.error .context))
      | reply :: _ => match reply.elements with
        | first :: _ :: _ => lookupOwner cookie first.str
        | _ => .ret (.owner (.error (.code errNoMatchAccount)))

/-! ## The texts it sends -/

theorem toStr_ne_nil (n : Nat) : toStr n ≠ [] := Nat.toDigits_ne_nil

theorem isDigit_of_mem_toStr {n : Nat} {c : Char} (h : c ∈ toStr n) : c.isDigit = true :=
  Nat.isDigit_of_mem_toDigits (b := 10) (by decide) (by decide) h

theorem isWord_toStr (n : Nat) : IsWord (toStr n) :=
  ⟨toStr_ne_nil n, fun h => absurd (isDigit_of_mem_toStr h) (by decide)⟩

theorem toStr_injective {m n : Nat} (h : toStr m = toStr n) : m = n := by
  have hd := congrArg (fun digits => Nat.ofDigitChars 10 digits 0) h
  simpa only [toStr, Nat.ofDigitChars_ten_toDigits] using hd

theorem isWord_cookieStr (cookie : Hash) : IsWord (cookieStr cookie) := by
  refine ⟨Encoder.encodeBase64_ne_nil fun h => ?_, Encoder.space_notMem_encodeBase64 _⟩
  have hlen := congrArg List.length h
  simp at hlen

theorem cookieStr_injective {a b : Hash} (h : cookieStr a = cookieStr b) : a = b :=
  Vector.toList_inj.mp (Encoder.encodeBase64_injective h)

theorem isWord_serverName (serverName : ServerName) : IsWord serverName.text :=
  ⟨serverName.nonempty, fun h =>
    absurd (List.all_eq_true.mp serverName.alphanum _ h) (by decide)⟩

theorem isWord_cookieKey (cookie : Hash) : IsWord (cookieKey cookie) :=
  IsWord.append (by decide) (isWord_cookieStr cookie).2

theorem isWord_accountKey (id : AccountId) : IsWord (accountKey id) :=
  IsWord.append (by decide) (isWord_toStr id).2

theorem cookieKey_inj {a b : Hash} : cookieKey a = cookieKey b ↔ a = b :=
  ⟨fun h => cookieStr_injective (List.append_cancel_left h), congrArg cookieKey⟩

theorem accountKey_inj {a b : AccountId} : accountKey a = accountKey b ↔ a = b :=
  ⟨fun h => toStr_injective (List.append_cancel_left h), congrArg accountKey⟩

theorem cookieKey_ne_accountKey (cookie : Hash) (id : AccountId) :
    cookieKey cookie ≠ accountKey id := by
  intro h
  cases congrArg List.head? h

theorem isWord_timeoutStr : IsWord timeoutStr := by decide

theorem number_timeoutStr : number timeoutStr = some sessionTimeout := by decide

theorem command_multi : command "MULTI".toList = .multi := by decide

theorem command_exec : command "EXEC".toList = .exec := by decide

theorem command_delCookie (cookie : Hash) :
    command ("DEL cookie:".toList ++ cookieStr cookie) = .del (cookieKey cookie) :=
  command_del (isWord_cookieKey cookie)

theorem command_delAccount (id : AccountId) :
    command ("DEL account:".toList ++ toStr id) = .del (accountKey id) :=
  command_del (isWord_accountKey id)

theorem command_watchCookie (cookie : Hash) :
    command ("WATCH cookie:".toList ++ cookieStr cookie) = .watch (cookieKey cookie) :=
  command_watch (isWord_cookieKey cookie)

theorem command_watchAccount (id : AccountId) :
    command ("WATCH account:".toList ++ toStr id) = .watch (accountKey id) :=
  command_watch (isWord_accountKey id)

theorem command_getAccount (id : AccountId) :
    command ("GET account:".toList ++ toStr id) = .get (accountKey id) :=
  command_get (isWord_accountKey id)

theorem command_pexpireCookie (cookie : Hash) :
    command ("PEXPIRE cookie:".toList ++ cookieStr cookie ++ " ".toList ++ timeoutStr) =
      .pexpire (cookieKey cookie) sessionTimeout :=
  command_pexpire (isWord_cookieKey cookie) isWord_timeoutStr number_timeoutStr

theorem command_pexpireAccount (id : AccountId) :
    command ("PEXPIRE account:".toList ++ toStr id ++ " ".toList ++ timeoutStr) =
      .pexpire (accountKey id) sessionTimeout :=
  command_pexpire (isWord_accountKey id) isWord_timeoutStr number_timeoutStr

theorem command_lrangeText (cookie : Hash) :
    command (lrangeText (cookieStr cookie)) = .lrange (cookieKey cookie) 0 1 :=
  command_lrange (isWord_cookieKey cookie)

theorem setInfoQuery_commands (id : AccountId) (cookie : Hash) (serverName : ServerName) :
    (setInfoQuery id cookie serverName).map command =
      [.multi, .del (cookieKey cookie), .rpush (cookieKey cookie) [toStr id, serverName.text],
        .pexpire (cookieKey cookie) sessionTimeout,
        .setPx (accountKey id) (cookieStr cookie) sessionTimeout, .exec] := by
  have hpush : command ("RPUSH cookie:".toList ++ cookieStr cookie ++ " ".toList ++ toStr id ++
      " ".toList ++ serverName.text) =
      .rpush (cookieKey cookie) [toStr id, serverName.text] :=
    command_rpush (isWord_cookieKey cookie) (isWord_toStr id) (isWord_serverName serverName)
  have hset : command ("SET account:".toList ++ toStr id ++ " ".toList ++ cookieStr cookie ++
      " PX ".toList ++ timeoutStr) = .setPx (accountKey id) (cookieStr cookie) sessionTimeout :=
    command_setPx (isWord_accountKey id) (isWord_cookieStr cookie) isWord_timeoutStr
      number_timeoutStr
  simp only [setInfoQuery, List.map_cons, List.map_nil, command_multi, command_delCookie, hpush,
    command_pexpireCookie, hset, command_exec]

theorem watchedQuery_commands (id : AccountId) (cookie : Hash) (commands : List Text) :
    (watchedQuery id cookie commands).map command =
      [.watch (cookieKey cookie), .watch (accountKey id), .multi] ++ commands.map command ++
        [.exec] := by
  simp only [watchedQuery, List.map_append, List.map_cons, List.map_nil, command_watchCookie,
    command_watchAccount, command_multi, command_exec]

theorem refreshCommands_commands (id : AccountId) (cookie : Hash) :
    (refreshCommands id cookie).map command =
      [.pexpire (cookieKey cookie) sessionTimeout, .pexpire (accountKey id) sessionTimeout] := by
  simp only [refreshCommands, List.map_cons, List.map_nil, command_pexpireCookie,
    command_pexpireAccount]

theorem clearCommands_commands (id : AccountId) (cookie : Hash) :
    (clearCommands id cookie).map command = [.del (cookieKey cookie), .del (accountKey id)] := by
  simp only [clearCommands, List.map_cons, List.map_nil, command_delCookie, command_delAccount]

theorem lookupQuery_commands (id : AccountId) (cookie : Hash) :
    (lookupQuery (toStr id) (cookieStr cookie)).map command =
      [.multi, .pexpire (accountKey id) sessionTimeout,
        .pexpire (cookieKey cookie) sessionTimeout, .exec, .lrange (cookieKey cookie) 0 1] := by
  simp only [lookupQuery, List.map_cons, List.map_nil, command_multi, command_pexpireAccount,
    command_pexpireCookie, command_exec, command_lrangeText]

/-! ## Its transactions -/

def setBlock (id : AccountId) (cookie : Hash) (serverName : ServerName) : List Command :=
  [.del (cookieKey cookie), .rpush (cookieKey cookie) [toStr id, serverName.text],
    .pexpire (cookieKey cookie) sessionTimeout,
    .setPx (accountKey id) (cookieStr cookie) sessionTimeout]

def refreshBlock (id : AccountId) (cookie : Hash) : List Command :=
  [.pexpire (cookieKey cookie) sessionTimeout, .pexpire (accountKey id) sessionTimeout]

def clearBlock (id : AccountId) (cookie : Hash) : List Command :=
  [.del (cookieKey cookie), .del (accountKey id)]

/-- The entry of a session. -/
def entry (id : AccountId) (serverName : ServerName) : Value := .list [toStr id, serverName.text]

/-- A choice by key, at the key of an account. -/
theorem ite_accountKey (a b : AccountId) (cookie : Hash) (x y z : Option Value) :
    (if accountKey a = accountKey b then x else if accountKey a = cookieKey cookie then y else z) =
      if a = b then x else z := by
  simp only [accountKey_inj, (cookieKey_ne_accountKey cookie a).symm, if_false]

/-- The same at the key of a cookie. -/
theorem ite_cookieKey (a b : Hash) (id : AccountId) (x y z : Option Value) :
    (if cookieKey a = accountKey id then x else if cookieKey a = cookieKey b then y else z) =
      if a = b then y else z := by
  simp only [cookieKey_inj, cookieKey_ne_accountKey, if_false]

/-- `SetInfo` writes the two keys, whatever they held. -/
theorem setBlock_value (db : Db) (id : AccountId) (cookie : Hash) (serverName : ServerName)
    (k : Word) : (db.applyAll (setBlock id cookie serverName)).2.value k =
      if k = accountKey id then some (.string (cookieStr cookie))
      else if k = cookieKey cookie then some (entry id serverName)
      else db.value k := by
  let pushed := ((db.apply (.del (cookieKey cookie))).2.apply
    (.rpush (cookieKey cookie) [toStr id, serverName.text])).2
  show ((pushed.apply (.pexpire (cookieKey cookie) sessionTimeout)).2.apply
    (.setPx (accountKey id) (cookieStr cookie) sessionTimeout)).2.value k = _
  rw [Db.setPx_value (by decide), Db.apply_harmless rfl]
  have hdel : (db.apply (.del (cookieKey cookie))).2.value (cookieKey cookie) = none := by
    rw [Db.del_value, if_pos rfl]
  rw [Db.rpush_value hdel, Db.del_value]
  by_cases hk : k = cookieKey cookie <;> simp [hk, entry]

theorem refreshBlock_value (db : Db) (id : AccountId) (cookie : Hash) :
    (db.applyAll (refreshBlock id cookie)).2.value = db.value := by
  apply Db.applyAll_harmless
  simp [refreshBlock, Command.harmless, sessionTimeout]

theorem clearBlock_value (db : Db) (id : AccountId) (cookie : Hash) (k : Word) :
    (db.applyAll (clearBlock id cookie)).2.value k =
      if k = accountKey id then none else if k = cookieKey cookie then none else db.value k := by
  show ((db.apply (.del (cookieKey cookie))).2.apply (.del (accountKey id))).2.value k = _
  rw [Db.del_value, Db.del_value]

/-! ## The verification -/

/-- What `LRANGE` replies of an entry. -/
def listed : Option Value → Reply
  | none => .array []
  | some (.list words) => .array ((words.take 2).map .string)
  | some (.string _) => .error

theorem dispatch_lrange (db : Db) (cookie : Hash) :
    Conn.idle.dispatch db (.lrange (cookieKey cookie) 0 1) =
      (listed (db.value (cookieKey cookie)), .idle, db) := by
  simp only [Conn.dispatch, Conn.idle, Db.apply]
  rcases db.value (cookieKey cookie) with _ | _ | words <;> rfl

/-- Only the pair asked for passes. -/
theorem of_verified {idstr serverName a b : Text}
    (h : verified idstr serverName [listed (some (.list [a, b]))] = true) :
    a = idstr ∧ b = serverName := by
  obtain ⟨ha, hb⟩ := (Bool.and_eq_true _ _).mp h
  exact ⟨of_decide_eq_true ha, of_decide_eq_true hb⟩

end MyRedis

/-- A call of one of the functions. -/
inductive Call where
  | setInfo (id : AccountId) (cookie : Hash) (serverName : ServerName)
  | refreshInfo (id : AccountId) (cookie : Hash) (serverName : ServerName)
  | getInfoFromID (id : AccountId)
  | getInfoFromCookie (cookie : Hash)
  | clearInfo (id : AccountId) (cookie : Hash) (serverName : ServerName)

def Call.body : Call → Prog Answer
  | .setInfo id cookie serverName => MyRedis.setInfo id cookie serverName
  | .refreshInfo id cookie serverName => MyRedis.refreshInfo id cookie serverName
  | .getInfoFromID id => MyRedis.getInfoFromID id
  | .getInfoFromCookie cookie => MyRedis.getInfoFromCookie cookie
  | .clearInfo id cookie serverName => MyRedis.clearInfo id cookie serverName

end DrgbServer.Redis
