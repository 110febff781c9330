import DrgbServer.Postgres.MyPostgres

/-! # The log of battles

`ArchiveBattle` writes a battle into `battlelog` and `GetInfo` counts the rows of an
account. The result of a battle stands in the order of the two accounts and in the bits of
`flags`. In PostgreSQL `&` binds tighter than a comparison, and an operand of type
`smallint` is widened to `integer`. -/
namespace DrgbServer.Postgres
open DrgbServer.Utils

/-- A row of `battlelog`. No call deletes an account, so no column has become null. -/
structure Battle where
  win : AccountId
  loose : AccountId
  flags : BitVec 16
deriving DecidableEq

/-- There is a row of the account. -/
def Database.Registered (db : Database) (id : AccountId) : Prop := ∃ row ∈ db.userlist, row.id = id

instance (db : Database) (id : AccountId) : Decidable (db.Registered id) :=
  inferInstanceAs (Decidable (∃ row ∈ db.userlist, row.id = id))

/-- The tables with the log, which refers to accounts. -/
structure LoggedDatabase extends Database where
  battlelog : List Battle
  keys : (userlist.map (·.id)).Nodup
  references : ∀ b ∈ battlelog, toDatabase.Registered b.win ∧ toDatabase.Registered b.loose

/-- `flags&mask`. -/
def Battle.masked (b : Battle) (mask : BitVec 32) : Int := (b.flags.signExtend 32 &&& mask).toInt

/-- `as<int>()` of a count. -/
def asInt (count : Nat) : Except Exn Int :=
  if count < 2 ^ 31 then .ok count
  else .error (.pqxxOther
    ("Could not convert '" ++ toString count ++ "' to int: Value out of range."))

namespace LoggedDatabase

/-- No battle was fought yet. -/
def unfought (db : Database) (keys : (db.userlist.map (·.id)).Nodup) : LoggedDatabase :=
  { db with battlelog := [], keys, references := by simp }

def flagsOf (draw crashed : Bool) : BitVec 16 :=
  (0 ||| if draw then 0b10 else 0) ||| if crashed then 0b01 else 0

/-- The references of the new row are checked. -/
def archiveBattle (db : LoggedDatabase) (winner looser : AccountId) (draw crashed : Bool) :
    Except Exn LoggedDatabase :=
  if h : db.Registered winner ∧ db.Registered looser then
    .ok { db with
      battlelog := db.battlelog ++ [⟨winner, looser, flagsOf draw crashed⟩]
      references := by
        intro b hb
        rcases List.mem_append.mp hb with hb | hb
        · exact db.references b hb
        · rw [List.mem_singleton.mp hb]
          exact h }
  else .error (.pqxxOther "violates foreign key constraint")

def getInfo (db : LoggedDatabase) (accountId : AccountId) : Except Exn Record := do
  let nick ← exec1 ((db.userlist.filter fun row => row.id = accountId).map (·.nickname))
  let rows := db.battlelog.filter fun b => b.win = accountId ∨ b.loose = accountId
  let win ← asInt (rows.countP fun b => b.win = accountId ∧ b.masked 2 = 0)
  let draw ← asInt (rows.countP fun b => b.masked 2 > 0 ∧ b.masked 1 = 0)
  let loose ← asInt (rows.countP fun b => b.loose = accountId ∧ b.masked 2 = 0)
  return ⟨nick, win, draw, loose⟩

variable {db : LoggedDatabase} {id winner looser : AccountId} {draw crashed : Bool}

/-! ## The flags -/

@[simp] theorem masked_draw : (⟨winner, looser, flagsOf draw crashed⟩ : Battle).masked 2 =
    if draw then 2 else 0 := by
  cases draw <;> cases crashed <;> simp [Battle.masked, flagsOf]

@[simp] theorem masked_crashed : (⟨winner, looser, flagsOf draw crashed⟩ : Battle).masked 1 =
    if crashed then 1 else 0 := by
  cases draw <;> cases crashed <;> simp [Battle.masked, flagsOf]

/-! ## What the two calls do -/

theorem archiveBattle_of_registered (hw : db.Registered winner) (hl : db.Registered looser)
    (draw crashed : Bool) :
    ∃ db', db.archiveBattle winner looser draw crashed = .ok db' ∧
      db'.toDatabase = db.toDatabase ∧
      db'.battlelog = db.battlelog ++ [⟨winner, looser, flagsOf draw crashed⟩] := by
  unfold archiveBattle
  rw [dif_pos ⟨hw, hl⟩]
  exact ⟨_, rfl, rfl, rfl⟩

/-- The three counts of `GetInfo`, without the restriction to the rows of the account. -/
def wins (db : LoggedDatabase) (id : AccountId) : Nat :=
  db.battlelog.countP fun b => b.win = id ∧ b.masked 2 = 0

def draws (db : LoggedDatabase) (id : AccountId) : Nat :=
  db.battlelog.countP fun b => (b.win = id ∨ b.loose = id) ∧ b.masked 2 > 0 ∧ b.masked 1 = 0

def losses (db : LoggedDatabase) (id : AccountId) : Nat :=
  db.battlelog.countP fun b => b.loose = id ∧ b.masked 2 = 0

/-- The counts of an account are numbers of type `int`. -/
def Countable (db : LoggedDatabase) (id : AccountId) : Prop :=
  db.wins id < 2 ^ 31 ∧ db.draws id < 2 ^ 31 ∧ db.losses id < 2 ^ 31

/-- A count over the rows of an account is one over the log. -/
theorem countP_rows (log : List Battle) {p q : Battle → Prop} [DecidablePred p] [DecidablePred q]
    (h : ∀ b, q b ↔ (b.win = id ∨ b.loose = id) ∧ p b) :
    (log.filter fun b => b.win = id ∨ b.loose = id).countP (fun b => p b) =
      log.countP fun b => q b := by
  rw [List.countP_filter]
  refine List.countP_congr fun b _ => ?_
  simp only [Bool.and_eq_true, decide_eq_true_eq, h]
  exact and_comm

/-- `GetInfo` with the counts over the log. -/
theorem getInfo_eq (db : LoggedDatabase) (id : AccountId) : db.getInfo id = (do
    let nick ← exec1 ((db.userlist.filter fun row => row.id = id).map (·.nickname))
    let win ← asInt (db.wins id)
    let draw ← asInt (db.draws id)
    let loose ← asInt (db.losses id)
    return ⟨nick, win, draw, loose⟩) := by
  unfold getInfo
  dsimp only
  rw [countP_rows db.battlelog (q := fun b => b.win = id ∧ b.masked 2 = 0) (fun b => by tauto),
    countP_rows db.battlelog (q := fun b => (b.win = id ∨ b.loose = id) ∧
      b.masked 2 > 0 ∧ b.masked 1 = 0) (fun b => Iff.rfl),
    countP_rows db.battlelog (q := fun b => b.loose = id ∧ b.masked 2 = 0) (fun b => by tauto)]
  rfl

theorem exec1_nickname {row : User} (hrow : row ∈ db.userlist) :
    exec1 ((db.userlist.filter fun row' => row'.id = row.id).map (·.nickname)) =
      .ok row.nickname := by
  rw [filter_eq_singleton db.keys hrow]
  rfl

theorem asInt_of_lt {n : Nat} (h : n < 2 ^ 31) : asInt n = .ok (n : Int) := if_pos h

theorem asInt_of_le {n : Nat} (h : ¬ n < 2 ^ 31) : ∃ what, asInt n = .error (.pqxxOther what) :=
  ⟨_, if_neg h⟩

/-- `GetInfo` returns the counts where they are numbers of type `int`. -/
theorem getInfo_of_countable {row : User} (hrow : row ∈ db.userlist) (h : db.Countable row.id) :
    db.getInfo row.id =
      .ok ⟨row.nickname, db.wins row.id, db.draws row.id, db.losses row.id⟩ := by
  rw [getInfo_eq, exec1_nickname hrow, asInt_of_lt h.1, asInt_of_lt h.2.1, asInt_of_lt h.2.2]
  rfl

/-- A count that is not one is thrown. -/
theorem getInfo_of_not_countable {row : User} (hrow : row ∈ db.userlist)
    (h : ¬ db.Countable row.id) : ∃ what, db.getInfo row.id = .error (.pqxxOther what) := by
  rw [getInfo_eq, exec1_nickname hrow]
  by_cases hw : db.wins row.id < 2 ^ 31
  · rw [asInt_of_lt hw]
    by_cases hd : db.draws row.id < 2 ^ 31
    · rw [asInt_of_lt hd]
      obtain ⟨what, hl⟩ := asInt_of_le fun hl => h ⟨hw, hd, hl⟩
      exact ⟨what, by rw [hl]; rfl⟩
    · obtain ⟨what, hd⟩ := asInt_of_le hd
      exact ⟨what, by rw [hd]; rfl⟩
  · obtain ⟨what, hw⟩ := asInt_of_le hw
    exact ⟨what, by rw [hw]; rfl⟩

/-! ## Totals -/

theorem sum_indicator {κ : Type} [DecidableEq κ] (ids : List κ) (x : κ) :
    (ids.map fun id => if x = id then 1 else 0).sum = ids.count x := by
  induction ids with
  | nil => rfl
  | cons id rest ih =>
    rw [List.map_cons, List.sum_cons, ih, List.count_cons, Nat.add_comm]
    simp only [beq_iff_eq, eq_comm (a := x)]

/-- Each of the distinct keys counts its own entries, so together they count all. -/
theorem sum_countP {κ β : Type} [DecidableEq κ] {ids : List κ} (hn : ids.Nodup) (key : β → κ)
    (p : β → Prop) [DecidablePred p] {log : List β} (hkey : ∀ b ∈ log, key b ∈ ids) :
    (ids.map fun id => log.countP fun b => key b = id ∧ p b).sum = log.countP fun b => p b := by
  induction log with
  | nil => simp
  | cons b rest ih =>
    have hcount : (ids.map fun id => if key b = id ∧ p b then 1 else 0).sum =
        if p b then 1 else 0 := by
      by_cases hp : p b
      · simp only [hp, and_true, if_true]
        rw [sum_indicator, List.count_eq_one_of_mem hn (hkey b List.mem_cons_self)]
      · simp [hp]
    simp only [List.countP_cons, decide_eq_true_eq]
    rw [List.sum_map_add, ih fun b hb => hkey b (List.mem_cons_of_mem _ hb), hcount]

/-- The ids of the accounts. -/
def ids (db : LoggedDatabase) : List AccountId := db.userlist.map (·.id)

theorem mem_ids : id ∈ db.ids ↔ db.Registered id := List.mem_map

/-- Every battle that is no draw was won by one account, -/
theorem sum_wins (db : LoggedDatabase) :
    (db.ids.map db.wins).sum = db.battlelog.countP fun b => b.masked 2 = 0 :=
  sum_countP db.keys Battle.win (fun b : Battle => b.masked 2 = 0)
    fun b hb => mem_ids.mpr (db.references b hb).1

/-- and lost by one. -/
theorem sum_losses (db : LoggedDatabase) :
    (db.ids.map db.losses).sum = db.battlelog.countP fun b => b.masked 2 = 0 :=
  sum_countP db.keys Battle.loose (fun b : Battle => b.masked 2 = 0)
    fun b hb => mem_ids.mpr (db.references b hb).2

/-- A battle of two accounts that was drawn counts for both. -/
theorem sum_draws (hne : ∀ b ∈ db.battlelog, b.win ≠ b.loose) :
    (db.ids.map db.draws).sum =
      2 * db.battlelog.countP fun b => b.masked 2 > 0 ∧ b.masked 1 = 0 := by
  have hsplit : ∀ id, db.draws id =
      (db.battlelog.countP fun b => b.win = id ∧ b.masked 2 > 0 ∧ b.masked 1 = 0) +
        db.battlelog.countP fun b => b.loose = id ∧ b.masked 2 > 0 ∧ b.masked 1 = 0 := by
    intro id
    unfold draws
    generalize db.battlelog = log at hne
    induction log with
    | nil => rfl
    | cons b rest ih =>
      have hb := hne b List.mem_cons_self
      simp only [List.countP_cons, ih fun b hb => hne b (List.mem_cons_of_mem _ hb)]
      grind
  have hwin := sum_countP db.keys Battle.win (fun b : Battle => b.masked 2 > 0 ∧ b.masked 1 = 0)
    fun b hb => mem_ids.mpr (db.references b hb).1
  have hloose := sum_countP db.keys Battle.loose (fun b : Battle => b.masked 2 > 0 ∧ b.masked 1 = 0)
    fun b hb => mem_ids.mpr (db.references b hb).2
  rw [List.map_congr_left fun id _ => hsplit id, List.sum_map_add, two_mul]
  exact congrArg₂ _ hwin hloose

end LoggedDatabase
end DrgbServer.Postgres
