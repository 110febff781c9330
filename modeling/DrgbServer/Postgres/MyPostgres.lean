import Mathlib.Logic.Equiv.Basic
import DrgbServer.Lib.Transition
import DrgbServer.Utils.Encoder

/-! # `MyPostgres`: accounts and achievements in the database

The tables of `initdb.sql` as far as the functions here use them; a table of one column
besides its primary key is a partial map. A call is a transaction of its own: a thrown
exception aborts it. Texts hold no NUL. `varchar(n)` and `char(n)` are PostgreSQL's: blanks
behind the last place are dropped without an error, and `char` is padded. The digest of
OpenSSL is a parameter. -/
namespace DrgbServer.Postgres
open DrgbServer.Utils DrgbServer.Lib.Transition

/-- A row of `userlist`. -/
structure User where
  id : AccountId
  registerTime : Text
  nickname : AchievementId
  email : Text
  pwdHash : Text
deriving DecidableEq

structure Database where
  /-- `achievement`: the count that is required -/
  achievement : AchievementId → Option Int
  userlist : List User
  /-- `user_achievement`: the count reached -/
  userAchievement : AccountId × AchievementId → Option Int
  /-- the value `userlist_id_seq` has given out last -/
  idSeq : Nat

/-- `exec_params1`: one row is expected. -/
def exec1 {α : Type} : List α → Except Exn α
  | [row] => .ok row
  | _ => .error .unexpectedRows

/-- What a column `varchar(n)` stores. -/
def varchar (n : Nat) (value : Text) : Except Exn Text :=
  if (value.drop n).all (· = ' ') then .ok (value.take n)
  else .error (.pqxxOther "value too long for type character varying")

/-- What a column `char(n)` stores and returns. -/
def char (n : Nat) (value : Text) : Except Exn Text :=
  (varchar n value).map fun kept => kept ++ List.replicate (n - kept.length) ' '

namespace MyPostgres

/-- The bytes of a text. -/
def bytesOf (text : Text) : List Byte := text.map fun c => UInt8.ofNat c.toNat

def maxHashIteration : Nat := 17

section Credentials
variable (sha256 : List Byte → Hash)

def getPwdHash (id : AccountId) (pwd : Hash) (regTime : Text) : Hash :=
  (fun result => sha256 (result.toList ++ bytesOf regTime))^[2 ^ (id % maxHashIteration)] pwd

/-- The hash a row holds, and the check of its size. -/
def storedHash (row : User) : Except Exn Hash := do
  let decoded ← Encoder.decodeBase64 row.pwdHash
  if decoded.length < 32 then
    .error (.stackTrace ("Hash in DB size doesn't match : " ++ toString decoded.length))
  else .ok (toHash decoded)

/-- `UPDATE userlist SET pwd_hash = $2 WHERE id = $1` -/
def updatePwdHash (db : Database) (id : AccountId) (hash : Hash) : Except Exn Database := do
  let stored ← char 43 (Encoder.encodeBase64 hash.toList)
  .ok { db with userlist := db.userlist.map fun row =>
    if row.id = id then { row with pwdHash := stored } else row }

/-- `now` is the text of `register_time`; `skip` values of the sequence have gone to
transactions that were aborted. -/
def registerAccount (db : Database) (email : Text) (pwd : Hash) (now : Text) (skip : Nat) :
    Except Exn (AccountId × Database) := do
  let id := db.idSeq + skip + 1
  let email ← varchar 50 email
  let placeholder ← char 43 "UnRegistered-temporaryquote".toList
  if db.userlist.any fun row => row.email = email then .error .uniqueViolation
  else
    let db := { db with
      userlist := db.userlist ++ [⟨id, now, 1, email, placeholder⟩]
      idSeq := id }
    let db ← updatePwdHash db id (getPwdHash sha256 id pwd now)
    .ok (id, db)

def findAccount (db : Database) (email : Text) (pwd : Hash) : Except Exn AccountId := do
  let row ← exec1 (db.userlist.filter fun row => row.email = email)
  let answer ← storedHash row
  .ok (if getPwdHash sha256 row.id pwd row.registerTime = answer then row.id else 0)

def changePwd (db : Database) (id : AccountId) (oldPwd newPwd : Hash) :
    Except Exn (Bool × Database) := do
  let row ← exec1 (db.userlist.filter fun row => row.id = id)
  let answer ← storedHash row
  if getPwdHash sha256 id oldPwd row.registerTime ≠ answer then .ok (false, db)
  else
    let db ← updatePwdHash db id (getPwdHash sha256 id newPwd row.registerTime)
    .ok (true, db)

end Credentials

/-- The count reached, 0 without a row or an account, and the one required. -/
def getAchieve (db : Database) (accountId : AccountId) (achieveId : AchievementId) :
    Except Exn (Int × Int) :=
  match db.achievement achieveId with
  | none => .error .unexpectedRows
  | some require =>
    let user := (db.userlist.find? fun row => row.id = accountId).map (·.id)
    .ok ((user.bind fun id => db.userAchievement (id, achieveId)).getD 0, require)

/-- The row of the achievement exists, as `GetAchieve` has found it. -/
def setNickName (db : Database) (accountId : AccountId) (achieveId : AchievementId) :
    Except Exn (Bool × Database) := do
  let (achieve, goal) ← getAchieve db accountId achieveId
  if achieve < goal then .ok (false, db)
  else .ok (true, { db with userlist := db.userlist.map fun row =>
    if row.id = accountId then { row with nickname := achieveId } else row })

/-- `INSERT INTO user_achievement ... ON CONFLICT DO UPDATE`, with the references of a new row
checked. -/
def upsert (db : Database) (id : AccountId) (achieve : AchievementId) (value : Int)
    (update : Int → Int) : Except Exn Database :=
  match db.userAchievement (id, achieve) with
  | some count => .ok { db with
      userAchievement := Function.update db.userAchievement (id, achieve) (some (update count)) }
  | none =>
    if (db.userlist.any fun row => row.id = id) ∧ (db.achievement achieve).isSome then
      .ok { db with
        userAchievement := Function.update db.userAchievement (id, achieve) (some value) }
    else .error (.pqxxOther "violates foreign key constraint")

def achieve (db : Database) (id : AccountId) (achieve : AchievementId) :
    Except Exn (Bool × Database) := do
  let (count, require) ← getAchieve db id achieve
  if count < require then
    let db ← upsert db id achieve 1 (· + 1)
    .ok (decide (require - count = 1), db)
  else .ok (false, db)

def achieveProgress (db : Database) (id : AccountId) (achieve : AchievementId) (c : Int) :
    Except Exn (Bool × Database) := do
  let (count, require) ← getAchieve db id achieve
  if count < require ∧ count < c then
    let c := min require c
    let db ← upsert db id achieve c fun _ => c
    .ok (decide (require ≤ c), db)
  else .ok (false, db)

/-! ## A digest

It is the real one on one password and the time of one registration. -/

def samplePwd : Hash := Vector.replicate 32 7
def sampleTime : Text := "2024-05-01 12:00:00".toList
def sampleDigest : Hash := toHash [111, 23, 24, 110, 58, 227, 227, 165, 83, 245, 249, 179, 137, 20,
  138, 249, 229, 176, 193, 104, 230, 37, 67, 0, 199, 174, 177, 90, 39, 147, 213, 0]

def sampleSha256 (message : List Byte) : Hash :=
  if message.drop 32 = bytesOf sampleTime then
    Equiv.swap samplePwd sampleDigest (toHash (message.take 32))
  else toHash (message.take 32)

end MyPostgres

/-! ## Calls that throw nothing -/

theorem bind_eq_ok {α β : Type} {x : Except Exn α} {f : α → Except Exn β} {b : β} :
    (x >>= f) = .ok b ↔ ∃ a, x = .ok a ∧ f a = .ok b := by
  cases x <;> simp [bind, Except.bind]

theorem map_eq_ok {α β : Type} {x : Except Exn α} {f : α → β} {b : β} :
    x.map f = .ok b ↔ ∃ a, x = .ok a ∧ f a = b := by
  cases x <;> simp [Except.map]

/-- The only row with a value in a column of distinct values. -/
theorem filter_eq_singleton {κ : Type} [DecidableEq κ] {key : User → κ} {l : List User} {row : User}
    (hn : (l.map key).Nodup) (hrow : row ∈ l) :
    l.filter (fun row' => key row' = key row) = [row] := by
  induction l with
  | nil => cases hrow
  | cons x rest ih =>
    rw [List.map_cons, List.nodup_cons] at hn
    rcases List.mem_cons.mp hrow with rfl | hmem
    · rw [List.filter_cons_of_pos (by simp)]
      refine congrArg _ (List.filter_eq_nil_iff.mpr ?_)
      intro y hy hk
      exact hn.1 ((of_decide_eq_true hk) ▸ List.mem_map_of_mem hy)
    · have hne : ¬ key x = key row := fun hk => hn.1 (hk ▸ List.mem_map_of_mem hmem)
      rw [List.filter_cons_of_neg (by simpa using hne)]
      exact ih hn.2 hmem

namespace MyPostgres
variable {db : Database} {account : AccountId} {a : AchievementId} {r : Bool × Database}

theorem setNickName_eq_ok (h : setNickName db account a = .ok r) :
    ∃ count goal, getAchieve db account a = .ok (count, goal) ∧
      ((count < goal ∧ r = (false, db)) ∨ (goal ≤ count ∧
        r = (true, { db with userlist := db.userlist.map fun row =>
          if row.id = account then { row with nickname := a } else row }))) := by
  obtain ⟨⟨count, goal⟩, hget, hrest⟩ := bind_eq_ok.mp h
  refine ⟨count, goal, hget, ?_⟩
  simp only at hrest
  split at hrest
  · next hlt =>
    cases hrest
    exact .inl ⟨hlt, rfl⟩
  · next hge =>
    cases hrest
    exact .inr ⟨not_lt.mp hge, rfl⟩

theorem achieve_eq_ok (h : achieve db account a = .ok r) :
    ∃ count require, getAchieve db account a = .ok (count, require) ∧
      (r = (false, db) ∨ (count < require ∧ r.1 = decide (require - count = 1) ∧
        upsert db account a 1 (· + 1) = .ok r.2)) := by
  obtain ⟨⟨count, require⟩, hget, hrest⟩ := bind_eq_ok.mp h
  refine ⟨count, require, hget, ?_⟩
  simp only at hrest
  split at hrest
  · next hlt =>
    obtain ⟨db', hup, hdone⟩ := bind_eq_ok.mp hrest
    cases hdone
    exact .inr ⟨hlt, rfl, hup⟩
  · cases hrest
    exact .inl rfl

theorem achieveProgress_eq_ok {c : Int} (h : achieveProgress db account a c = .ok r) :
    ∃ count require, getAchieve db account a = .ok (count, require) ∧
      (r = (false, db) ∨ (count < require ∧ count < c ∧ r.1 = decide (require ≤ min require c) ∧
        upsert db account a (min require c) (fun _ => min require c) = .ok r.2)) := by
  obtain ⟨⟨count, require⟩, hget, hrest⟩ := bind_eq_ok.mp h
  refine ⟨count, require, hget, ?_⟩
  simp only at hrest
  split at hrest
  · next hlt =>
    obtain ⟨db', hup, hdone⟩ := bind_eq_ok.mp hrest
    cases hdone
    exact .inr ⟨hlt.1, hlt.2, rfl, hup⟩
  · cases hrest
    exact .inl rfl

end MyPostgres

/-! ## Calls -/

/-- A call on an object of its own, committed unless it throws. -/
inductive Call where
  | registerAccount (email : Text) (pwd : Hash) (now : Text) (skip : Nat)
  | findAccount (email : Text) (pwd : Hash)
  | changePwd (id : AccountId) (oldPwd newPwd : Hash)
  | setNickName (accountId : AccountId) (achieveId : AchievementId)
  | achieve (id : AccountId) (achieve : AchievementId)
  | achieveProgress (id : AccountId) (achieve : AchievementId) (c : Int)

inductive Reply where
  | account (id : AccountId)
  | done (result : Bool)
deriving DecidableEq

namespace Database
open MyPostgres
variable (sha256 : List Byte → Hash)

def perform (db : Database) : Call → Except Exn (Reply × Database)
  | .registerAccount email pwd now skip =>
    (MyPostgres.registerAccount sha256 db email pwd now skip).map (Prod.map .account id)
  | .findAccount email pwd =>
    (MyPostgres.findAccount sha256 db email pwd).map fun found => (.account found, db)
  | .changePwd account oldPwd newPwd =>
    (MyPostgres.changePwd sha256 db account oldPwd newPwd).map (Prod.map .done id)
  | .setNickName account achieve => (MyPostgres.setNickName db account achieve).map (Prod.map .done id)
  | .achieve account achieve => (MyPostgres.achieve db account achieve).map (Prod.map .done id)
  | .achieveProgress account achieve c =>
    (MyPostgres.achieveProgress db account achieve c).map (Prod.map .done id)

/-- What the call returns or throws. -/
def reply (db : Database) (c : Call) : Except Exn Reply := (db.perform sha256 c).map (·.1)

/-- The database after the call, committed or aborted. -/
def after (db : Database) (c : Call) : Database :=
  match db.perform sha256 c with
  | .ok (_, db') => db'
  | .error _ => db

def step (db : Database) (c : Call) : Option Database := some (db.after sha256 c)

variable {sha256} {db db' : Database} {c : Call}

theorem reply_of_ok {r : Reply} (h : db.perform sha256 c = .ok (r, db')) :
    db.reply sha256 c = .ok r := by
  rw [reply, h]
  rfl

theorem after_of_ok {r : Reply} (h : db.perform sha256 c = .ok (r, db')) :
    db.after sha256 c = db' := by
  rw [after, h]

theorem reply_of_error {e : Exn} (h : db.perform sha256 c = .error e) :
    db.reply sha256 c = .error e := by
  rw [reply, h]
  rfl

theorem after_of_error {e : Exn} (h : db.perform sha256 c = .error e) :
    db.after sha256 c = db := by
  rw [after, h]

end Database

end DrgbServer.Postgres
