import DrgbServer.Auth.MyAuth
import DrgbServer.Lib.Pattern
import DrgbServer.Match.MatchMake
import DrgbServer.Redis.MyRedis

/-! # The name of a battle server

The match server and the battle server make it of their machine id, and the auth server
reads the id back with a regex and `std::stoi`. A `$` stands for the end of the text. -/
namespace DrgbServer.Auth
open DrgbServer.Utils DrgbServer.Network DrgbServer.Lib.Pattern
open DrgbServer.Redis (toStr isSpace signedDigits)

/-- `std::stoi` -/
def stoi (str : Text) : Except Exn Int :=
  let (negative, digits) := signedDigits (str.dropWhile isSpace)
  let n : Int := Nat.ofDigitChars 10 digits 0
  let value := if negative then -n else n
  if digits = [] then .error (.stdOther "stoi")
  else if value < -2 ^ 31 ∨ 2 ^ 31 ≤ value then .error (.outOfRange "stoi")
  else .ok value

/-- `\d+$` -/
def reg : List (Piece Char) := [.many Char.isDigit, .atEnd]

/-- `server_id` after the search for `reg`; what is thrown is caught. -/
def parsedId (serverName : Text) : Seed :=
  match search reg serverName with
  | none => -1
  | some (before, digits) =>
    if before ≠ "battle".toList then -1
    else match stoi digits with
      | .ok n => n
      | .error _ => -1

/-! ## Digits -/

theorem isSpace_of_isDigit {c : Char} (h : c.isDigit = true) : isSpace c = false := by
  have hspace : ¬ isSpace c = true := by
    intro hs
    have hzero : 48 ≤ c.toNat := (Char.isDigit_iff_toNat.mp h).1
    simp only [isSpace, Bool.or_eq_true, Bool.and_eq_true, decide_eq_true_eq] at hs
    rcases hs with rfl | hs
    · exact absurd hzero (by decide)
    · omega
  exact Bool.eq_false_iff.mpr hspace

theorem signedDigits_of_digits {digits : Text} (h : ∀ c ∈ digits, c.isDigit = true) :
    signedDigits digits = (false, digits) := by
  have hall : digits.takeWhile Char.isDigit = digits := List.takeWhile_eq_self_iff.mpr h
  unfold signedDigits
  split
  · exact absurd (h '-' List.mem_cons_self) (by decide)
  · exact absurd (h '+' List.mem_cons_self) (by decide)
  · rw [hall]

/-- The number that digits stand for, where it is an `int`. -/
theorem stoi_of_digits {digits : Text} (h : ∀ c ∈ digits, c.isDigit = true) (hne : digits ≠ []) :
    stoi digits = if Nat.ofDigitChars 10 digits 0 < 2 ^ 31 then
      .ok (Nat.ofDigitChars 10 digits 0 : Int) else .error (.outOfRange "stoi") := by
  have hstart : digits.dropWhile isSpace = digits := by
    cases digits with
    | nil => rfl
    | cons c rest =>
      rw [List.dropWhile_cons_of_neg]
      rw [isSpace_of_isDigit (h c List.mem_cons_self)]
      exact Bool.false_ne_true
  rw [stoi, hstart, signedDigits_of_digits h]
  simp only [Bool.false_eq_true, if_false]
  rw [if_neg hne]
  by_cases hsmall : Nat.ofDigitChars 10 digits 0 < 2 ^ 31
  · rw [if_pos hsmall, if_neg (by omega)]
  · rw [if_neg hsmall, if_pos (by omega)]

/-! ## The parse -/

theorem search_reg_battle {digits : Text} (h : ∀ c ∈ digits, c.isDigit = true)
    (hne : digits ≠ []) :
    search reg ("battle".toList ++ digits) = some ("battle".toList, digits) := by
  have htake : ("battle".toList ++ digits).rtakeWhile Char.isDigit = digits := by
    unfold List.rtakeWhile
    rw [List.reverse_append, List.takeWhile_append_of_pos (by simpa using h)]
    simp
  have hdrop : ("battle".toList ++ digits).rdropWhile Char.isDigit = "battle".toList := by
    have hwhole := List.rdropWhile_append_rtakeWhile (p := Char.isDigit)
      (l := "battle".toList ++ digits)
    rw [htake] at hwhole
    exact List.append_cancel_right hwhole
  rw [reg, search_many_atEnd, htake, hdrop, if_neg hne]

theorem parsedId_battle {digits : Text} (h : ∀ c ∈ digits, c.isDigit = true) (hne : digits ≠ []) :
    parsedId ("battle".toList ++ digits) = if Nat.ofDigitChars 10 digits 0 < 2 ^ 31 then
      (Nat.ofDigitChars 10 digits 0 : Int) else -1 := by
  rw [parsedId, search_reg_battle h hne]
  dsimp only
  rw [if_neg (not_not_intro rfl), stoi_of_digits h hne]
  split_ifs
  · rfl
  · rfl

/-- Only `battle` with digits behind it gives an id. -/
theorem eq_battle_of_parsedId {serverName : Text} (h : 0 < parsedId serverName) :
    ∃ digits, digits ≠ [] ∧ (∀ c ∈ digits, c.isDigit = true) ∧
      serverName = "battle".toList ++ digits := by
  rw [parsedId, reg, search_many_atEnd] at h
  by_cases hne : serverName.rtakeWhile Char.isDigit = []
  · rw [if_pos hne] at h
    exact absurd h (by decide)
  · rw [if_neg hne] at h
    dsimp only at h
    split at h
    · exact absurd h (by decide)
    · rename_i hbefore
      refine ⟨_, hne, fun c hc => List.mem_rtakeWhile_imp hc, ?_⟩
      rw [← not_not.mp hbefore, List.rdropWhile_append_rtakeWhile]

/-- What `ClientProcess` computes is the parse. -/
theorem serverIdOf_eq (serverName : String) :
    MyAuth.serverIdOf serverName = parsedId serverName.toList := by
  have hwhole := List.rdropWhile_append_rtakeWhile (p := Char.isDigit) (l := serverName.toList)
  have htake : serverName.toList.take (serverName.toList.length -
      (serverName.toList.rtakeWhile Char.isDigit).length) =
      serverName.toList.rdropWhile Char.isDigit := by
    have hlen := congrArg List.length hwhole
    rw [List.length_append] at hlen
    have htaken : (serverName.toList.rdropWhile Char.isDigit ++
        serverName.toList.rtakeWhile Char.isDigit).take
          (serverName.toList.rdropWhile Char.isDigit).length =
        serverName.toList.rdropWhile Char.isDigit := List.take_left
    rw [hwhole] at htaken
    rwa [show serverName.toList.length - (serverName.toList.rtakeWhile Char.isDigit).length =
      (serverName.toList.rdropWhile Char.isDigit).length by omega]
  rw [parsedId, reg, search_many_atEnd]
  change (if (serverName.toList.rtakeWhile Char.isDigit).isEmpty = true then (-1 : Int)
    else if serverName.toList.take (serverName.toList.length -
      (serverName.toList.rtakeWhile Char.isDigit).length) ≠ "battle".toList then -1
    else if Nat.ofDigitChars 10 (serverName.toList.rtakeWhile Char.isDigit) 0 < 2 ^ 31 then
      (Nat.ofDigitChars 10 (serverName.toList.rtakeWhile Char.isDigit) 0 : Int) else -1) = _
  rw [htake]
  by_cases hne : serverName.toList.rtakeWhile Char.isDigit = []
  · rw [if_pos (List.isEmpty_iff.mpr hne), if_pos hne]
  · rw [if_neg fun h => hne (List.isEmpty_iff.mp h), if_neg hne]
    dsimp only
    split
    · rfl
    · rw [stoi_of_digits (fun c hc => List.mem_rtakeWhile_imp hc) hne]
      split_ifs
      · rfl
      · rfl

/-! ## The round trip -/

theorem battleName_toList (n : Nat) :
    (Match.Located.battleName n).toList = "battle".toList ++ toStr n := by
  rw [Match.Located.battleName, String.toList_append]
  refine congrArg ("battle".toList ++ ·) ?_
  have hint : toString (n : Int) = toString n := rfl
  rw [hint, Nat.toString_eq_ofList_toDigits, String.toList_ofList]
  rfl

theorem parsedId_battleName {n : Nat} (h : n < 2 ^ 31) :
    parsedId (Match.Located.battleName n).toList = n := by
  rw [battleName_toList, parsedId_battle (fun c => Redis.MyRedis.isDigit_of_mem_toStr)
    (Redis.MyRedis.toStr_ne_nil n), toStr, Nat.ofDigitChars_ten_toDigits, if_pos h]

/-- The names with a positive id. -/
theorem parsedId_pos_iff (serverName : Text) (n : Int) :
    parsedId serverName = n ∧ 0 < n ↔ ∃ digits : Text, digits ≠ [] ∧
      (∀ c ∈ digits, c.isDigit = true) ∧ serverName = "battle".toList ++ digits ∧
      n = Nat.ofDigitChars 10 digits 0 ∧ 1 ≤ n ∧ n ≤ 2 ^ 31 - 1 := by
  constructor
  · intro h
    obtain ⟨rfl, hpos⟩ := h
    obtain ⟨digits, hne, hdigits, rfl⟩ := eq_battle_of_parsedId hpos
    have hparsed := parsedId_battle hdigits hne
    split at hparsed
    · rename_i hsmall
      refine ⟨digits, hne, hdigits, rfl, hparsed, hpos, ?_⟩
      rw [hparsed]
      omega
    · rw [hparsed] at hpos
      exact absurd hpos (by decide)
  · intro h
    obtain ⟨digits, hne, hdigits, rfl, hn, hpos, hsmall⟩ := h
    rw [parsedId_battle hdigits hne, if_pos (by omega)]
    exact ⟨hn.symm, hpos⟩

/-- The reply to an account in a battle. -/
def battleReply (cookie : Hash) (serverId : Seed) : ByteQueue :=
  ((code errExistAccountBattle).add (ByteQueue.create cookie.toList)).add
    (ByteQueue.create (intImage serverId))

/-- **Names of battle servers round-trip.** A name made of an id gives that id back, and the reply
has it; any name gives a positive id exactly where it is `battle` and digits in range, and
every other one but `match` is answered with `ERR_DB_FAILED`. -/
theorem server_names_round_trip (cookie : Hash) :
    (∀ n : Nat, 1 ≤ n → n ≤ 2 ^ 31 - 1 → parsedId (Match.Located.battleName n).toList = n ∧
      MyAuth.existingReply cookie (Match.Located.battleName n) = battleReply cookie n) ∧
    ∀ serverName : String,
      (∀ n : Int, parsedId serverName.toList = n ∧ 0 < n ↔ ∃ digits : Text, digits ≠ [] ∧
        (∀ c ∈ digits, c.isDigit = true) ∧ serverName.toList = "battle".toList ++ digits ∧
        n = Nat.ofDigitChars 10 digits 0 ∧ 1 ≤ n ∧ n ≤ 2 ^ 31 - 1) ∧
      (serverName ≠ keywordMatch → ¬ 0 < parsedId serverName.toList →
        MyAuth.existingReply cookie serverName = code errDbFailed) := by
  refine ⟨fun n hpos hsmall => ?_, fun serverName => ⟨parsedId_pos_iff serverName.toList, ?_⟩⟩
  · have hparsed := parsedId_battleName (n := n) (by omega)
    have hmatch : Match.Located.battleName n ≠ keywordMatch := by
      intro h
      rw [h] at hparsed
      have hnone : parsedId keywordMatch.toList = -1 := by decide
      have hid : (n : Int) = -1 := hparsed.symm.trans hnone
      omega
    have hid : (n : Int) > 0 := by omega
    refine ⟨hparsed, ?_⟩
    rw [MyAuth.existingReply, if_neg hmatch, serverIdOf_eq, hparsed]
    exact if_pos hid
  · intro hmatch hnone
    rw [MyAuth.existingReply, if_neg hmatch, serverIdOf_eq]
    exact if_neg hnone

/-- The location `match` has no id and a reply of its own. -/
theorem match_not_db_failed : ¬ 0 < parsedId keywordMatch.toList ∧
    MyAuth.existingReply (toHash []) keywordMatch ≠ code errDbFailed := by
  refine ⟨by decide, ?_⟩
  rw [MyAuth.existingReply, if_pos rfl]
  decide +kernel

end DrgbServer.Auth
