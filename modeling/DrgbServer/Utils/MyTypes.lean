import Mathlib.Tactic

/-! # Types, packet headers and exceptions shared by the servers

`MyTypes.hpp` and `MyCodes.hpp`. Account and achievement ids are 64-bit and are
only compared, stored and printed, so they are natural numbers here. -/
namespace DrgbServer.Utils

abbrev Byte := UInt8
abbrev AccountId := Nat
abbrev AchievementId := Nat

/-- `Seed_t`: the machine id of a battle server. -/
abbrev Seed := Int

/-- `Hash_t`, a SHA-256 digest: cookies and password hashes. -/
abbrev Hash := Vector Byte 32

instance : Std.TransOrd Hash := inferInstance

instance : Std.LawfulEqOrd Hash := inferInstance

/-- A digest from its memory image. -/
def toHash (bytes : List Byte) : Hash := Vector.ofFn fun i => bytes.getD i 0

theorem toHash_toList (h : Hash) : toHash h.toList = h := by
  apply Vector.ext
  intro i hi
  simp [toHash, List.getD_eq_getElem?_getD]

/-- Conversion of a `size_t` to `int`. -/
def toInt (n : Nat) : Int := (n : Int).bmod (2 ^ 32)

theorem toInt_le (n : Nat) : toInt n ≤ n := by
  unfold toInt; rw [Int.bmod_def]; split <;> omega

theorem toInt_of_lt {n : Nat} (h : n < 2 ^ 31) : toInt n = n := by
  unfold toInt; rw [Int.bmod_def]; split <;> omega

theorem toInt_lt (n : Nat) : toInt n < 2 ^ 31 := by
  unfold toInt; rw [Int.bmod_def]; split <;> omega

/-- Taking off no more than the converted length counts alike on both sides. -/
theorem toInt_sub {n c : Nat} (h : (c : Int) ≤ toInt n) : toInt (n - c) = toInt n - c := by
  have hn := toInt_le n
  unfold toInt at *
  rw [Int.bmod_def] at *
  rw [Int.bmod_def]
  split at h <;> split <;> omega

-- the lemmas above are all that proofs use of it
attribute [irreducible] toInt

/-- The value of an `int` expression; `none` where it overflows. -/
def int (n : Int) : Option Int := if -2 ^ 31 ≤ n ∧ n < 2 ^ 31 then some n else none

theorem int_of_fits {n : Int} (h : -2 ^ 31 ≤ n ∧ n < 2 ^ 31) : int n = some n := by
  rw [int, if_pos h]

theorem int_of_overflow {n : Int} (h : 2 ^ 31 ≤ n) : int n = none := by
  rw [int, if_neg (by omega)]

/-- The row `GetInfo` returns: nickname and the numbers of wins, draws and losses. -/
structure Record where
  nickname : AchievementId
  win : Int
  draw : Int
  loose : Int
deriving DecidableEq

/-! ## Packet headers -/

def success : Byte := 0
def errProtocolViolation : Byte := 10
def errNoMatchAccount : Byte := 11
def errExistAccount : Byte := 12
def errExistAccountMatch : Byte := 13
def errExistAccountBattle : Byte := 14
def errDbFailed : Byte := 16
def errDuplicatedAccess : Byte := 17
def errConnectionClosed : Byte := 18

def reqRegister : Byte := 20
def reqLogin : Byte := 21
def reqChpwd : Byte := 22
def reqStartmatch : Byte := 23
def reqPausematch : Byte := 24
def reqGameAction : Byte := 25
def reqChname : Byte := 26

def ansHeartbeat : Byte := 29
def ansMatchmade : Byte := 30
def gameRoundResult : Byte := 31
def gameFinishedWin : Byte := 32
def gameFinishedDraw : Byte := 33
def gameFinishedLoose : Byte := 34
def gameCrashed : Byte := 35
def gamePlayerDisconnedted : Byte := 36
def gamePlayerAllConnected : Byte := 37
def gamePlayerInfo : Byte := 38
def gamePlayerInfoName : Byte := 39
def gamePlayerAchieve : Byte := 40

/-! ## Exceptions -/

/-- The exceptions the catch clauses tell apart. -/
inductive Exn where
  /-- `std::out_of_range`, thrown by `ByteQueue` and by `std::map::at` -/
  | outOfRange (what : String)
  /-- `StackTraceExcept` and its subclass `ErrorCodeExcept` -/
  | stackTrace (what : String)
  | uniqueViolation
  | plpgsqlNoDataFound
  | unexpectedRows
  | brokenConnection
  /-- any other class below `pqxx::pqxx_exception` -/
  | pqxxOther (what : String)
  /-- any other class below `std::exception` -/
  | stdOther (what : String)
deriving DecidableEq, Repr

/-- Caught by `catch(const pqxx::pqxx_exception &)`. -/
def Exn.isPqxx : Exn → Bool
  | .uniqueViolation | .plpgsqlNoDataFound | .unexpectedRows | .brokenConnection
  | .pqxxOther _ => true
  | .outOfRange _ | .stackTrace _ | .stdOther _ => false

/-- The text of an exception; that of most pqxx classes comes from the database and is
left out. -/
def Exn.what : Exn → String
  | .outOfRange what | .stackTrace what | .pqxxOther what | .stdOther what => what
  | .uniqueViolation | .plpgsqlNoDataFound | .unexpectedRows | .brokenConnection => ""

end DrgbServer.Utils
