import DrgbServer.Battle.Seats
import DrgbServer.Postgres.BattleLog

/-! # The records of the players

A game ends with a winner or a draw, and crashed when not all players were in. What
`GameProcess` archives of the finished games is what `GetInfo` counts for each account. -/
namespace DrgbServer.Battle
open DrgbServer.Utils DrgbServer.Network DrgbServer.Lib.Transition DrgbServer.Postgres

/-- A game between two accounts, with what `GetWinner` returned at its end. -/
structure FinishedGame where
  ids : Sides AccountId
  winner : Int
  isCrashed : Bool
  distinct : ids.left ≠ ids.right
  decided : winner = -1 ∨ winner = 0 ∨ winner = 1

namespace FinishedGame

def archive (g : FinishedGame) : Archive := .of g.ids g.winner g.isCrashed

def Won (g : FinishedGame) (id : AccountId) : Prop := 0 ≤ g.winner ∧ g.ids.get g.winner = id

def Lost (g : FinishedGame) (id : AccountId) : Prop := 0 ≤ g.winner ∧ g.ids.get (1 - g.winner) = id

/-- A draw that was played to its end. -/
def Drawn (g : FinishedGame) : Prop := g.winner < 0 ∧ g.isCrashed = false

def Drew (g : FinishedGame) (id : AccountId) : Prop :=
  (g.ids.left = id ∨ g.ids.right = id) ∧ g.Drawn

def Cancelled (g : FinishedGame) : Prop := g.winner < 0 ∧ g.isCrashed = true

instance (g : FinishedGame) (id : AccountId) : Decidable (g.Won id) :=
  inferInstanceAs (Decidable (_ ∧ _))

instance (g : FinishedGame) (id : AccountId) : Decidable (g.Lost id) :=
  inferInstanceAs (Decidable (_ ∧ _))

instance (g : FinishedGame) : Decidable g.Drawn := inferInstanceAs (Decidable (_ ∧ _))

instance (g : FinishedGame) (id : AccountId) : Decidable (g.Drew id) :=
  inferInstanceAs (Decidable (_ ∧ _))

instance (g : FinishedGame) : Decidable g.Cancelled := inferInstanceAs (Decidable (_ ∧ _))

/-- The row of the log. -/
def row (g : FinishedGame) : Postgres.Battle where
  win := g.archive.winner
  loose := g.archive.looser
  flags := LoggedDatabase.flagsOf g.archive.draw g.archive.crashed

/-! ## What the row of a game says -/

theorem row_won (g : FinishedGame) (id : AccountId) :
    g.row.win = id ∧ g.row.masked 2 = 0 ↔ g.Won id := by
  unfold row Won archive Archive.of
  rw [LoggedDatabase.masked_draw]
  split
  · next h => simp [Int.not_le.mpr h]
  · next h => simp [Int.not_lt.mp h]

theorem row_lost (g : FinishedGame) (id : AccountId) :
    g.row.loose = id ∧ g.row.masked 2 = 0 ↔ g.Lost id := by
  unfold row Lost archive Archive.of
  rw [LoggedDatabase.masked_draw]
  split
  · next h => simp [Int.not_le.mpr h]
  · next h => simp [Int.not_lt.mp h]

theorem row_drawn (g : FinishedGame) : g.row.masked 2 > 0 ∧ g.row.masked 1 = 0 ↔ g.Drawn := by
  unfold row Drawn archive Archive.of
  rw [LoggedDatabase.masked_draw, LoggedDatabase.masked_crashed]
  split
  · next h => simp [h]
  · next h => simp [h]

theorem row_drew (g : FinishedGame) (id : AccountId) :
    (g.row.win = id ∨ g.row.loose = id) ∧ g.row.masked 2 > 0 ∧ g.row.masked 1 = 0 ↔ g.Drew id := by
  rw [row_drawn, Drew]
  refine and_congr_left fun h => ?_
  unfold row archive Archive.of
  rw [if_pos h.1]

theorem row_distinct (g : FinishedGame) : g.row.win ≠ g.row.loose := by
  have hne := g.distinct
  unfold row archive Archive.of
  rcases g.decided with h | h | h
  · rw [h]
    exact hne
  · rw [h]
    exact hne
  · rw [h]
    exact hne.symm

/-! ## What a game archives -/

section Run
open Arena
variable {s t : Arena}

theorem findRKey_isSome_step {l : Arena.Label} (h : s.step l = some t) (side : Int) :
    (t.info.session.findRKey side).map (·.1) = (s.info.session.findRKey side).map (·.1) := by
  cases hs : s.info.session.findRKey side with
  | none =>
    have hnone : t.info.session.findRKey side = none := by
      rw [Table.findRKey_eq_none_iff] at hs ⊢
      intro id weak ht
      rw [session_step h id] at ht
      obtain ⟨⟨side', weak'⟩, he, hf⟩ := Option.map_eq_some_iff.mp ht
      cases hf
      exact hs id weak' he
    rw [hnone]
  | some e =>
    obtain ⟨id, weak⟩ := e
    have ht : t.info.session.findLKey id = some (side, s.reseat id weak l) := by
      rw [session_step h id, Table.findRKey_eq_some.mp hs]
      rfl
    rw [Table.findRKey_eq_some.mpr ht]
    rfl

theorem playerOf_step {l : Arena.Label} (h : s.step l = some t) (side : Int) :
    playerOf t.info.session side = playerOf s.info.session side := by
  rw [playerOf, playerOf, findRKey_isSome_step h]

/-- What the players of a game are and what was archived. -/
structure Archived (ids : Sides AccountId) (s : Arena) : Prop where
  left : playerOf s.info.session 0 = ids.left
  right : playerOf s.info.session 1 = ids.right
  archives : ∀ x ∈ s.archives, ∃ g : FinishedGame, g.ids = ids ∧ x = g.archive

theorem step_archives {l : Arena.Label} (h : s.step l = some t) :
    t.archives = s.archives ∨ ∃ i a, l = .handle i a ∧ s.handle i a = some t := by
  unfold step at h
  split at h
  · cases h
  cases l with
  | handle i a => exact .inr ⟨i, a, rfl, h⟩
  | enter id socket =>
    cases h
    unfold enter
    split <;> exact .inl rfl
  | exit id socket =>
    cases h
    unfold exit
    split
    · split <;> exact .inl rfl
    · exact .inl rfl
  | action side action =>
    cases h
    unfold act
    split <;> exact .inl rfl
  | accept k =>
    obtain ⟨_, h⟩ := Option.ite_none_left_eq_some.mp h
    cases h
    exact .inl rfl
  | halt =>
    obtain ⟨_, h⟩ := Option.ite_none_left_eq_some.mp h
    cases h
    exact .inl rfl
  | shut k =>
    cases h
    exact .inl rfl
  | drop k =>
    cases h
    exact .inl rfl
  | free k =>
    cases h
    exact .inl rfl
  | others sessions =>
    cases h
    exact .inl rfl
  | expire =>
    cases h
    exact .inl rfl
  | stop =>
    cases h
    exact .inl rfl

theorem step_archived {ids : Sides AccountId} (hne : ids.left ≠ ids.right) {l : Arena.Label}
    (hs : Archived ids s) (h : s.step l = some t) : Archived ids t := by
  refine ⟨(playerOf_step h 0).trans hs.left, (playerOf_step h 1).trans hs.right, ?_⟩
  rcases step_archives h with ha | ⟨i, a, -, ha⟩
  · rw [ha]
    exact hs.archives
  · refine (seated_handle (fun winner isCrashed hw => ?_) hs.archives ha).2
    rw [hs.left, hs.right]
    exact ⟨⟨ids, winner, isCrashed, hne, hw⟩, rfl, rfl⟩

/-- **Every battle a game archives** is that of a finished game between its players. -/
theorem archives_of_run (selfKeyword : String) {ids : Sides AccountId} (hne : ids.left ≠ ids.right)
    (timer : TimerId) (infos : Sides ByteQueue) (sockets : Sockets)
    (isOpen : SocketId → Bool) (sessions : Table AccountId Hash GameId) (gamepool : Gamepool)
    {labels : List Arena.Label}
    (h : run step (start selfKeyword ids timer infos sockets isOpen sessions gamepool) labels =
      some t) :
    ∀ x ∈ t.archives, ∃ g : FinishedGame, g.ids = ids ∧ x = g.archive := by
  refine (run_invariant_all (I := Archived ids) (fun _ _ _ hs h => step_archived hne hs h)
    ⟨?_, ?_, fun x hx => absurd hx List.not_mem_nil⟩ h).archives
  · have hl := session_make ids timer infos ids.left
    rw [if_pos rfl] at hl
    show playerOf (GameInfo.make ids timer infos).session 0 = _
    rw [playerOf, Table.findRKey_eq_some.mpr hl]
    rfl
  · have hr := session_make ids timer infos ids.right
    rw [if_neg hne.symm, if_pos rfl] at hr
    show playerOf (GameInfo.make ids timer infos).session 1 = _
    rw [playerOf, Table.findRKey_eq_some.mpr hr]
    rfl

end Run

/-! ## The log -/

/-- The games are archived one after the other, each in a transaction of its own. -/
def archiveAll (db : LoggedDatabase) (games : List FinishedGame) : Except Exn LoggedDatabase :=
  games.foldlM (fun db g =>
    db.archiveBattle g.archive.winner g.archive.looser g.archive.draw g.archive.crashed) db

theorem registered_row {db : Database} {g : FinishedGame}
    (h : db.Registered g.ids.left ∧ db.Registered g.ids.right) :
    db.Registered g.archive.winner ∧ db.Registered g.archive.looser := by
  unfold archive Archive.of
  rcases g.decided with hw | hw | hw
  · rw [hw]
    exact h
  · rw [hw]
    exact h
  · rw [hw]
    exact h.symm

/-- The log of games between accounts. -/
theorem archiveAll_eq (db : LoggedDatabase) (games : List FinishedGame)
    (h : ∀ g ∈ games, db.Registered g.ids.left ∧ db.Registered g.ids.right) :
    ∃ db', archiveAll db games = .ok db' ∧ db'.toDatabase = db.toDatabase ∧
      db'.battlelog = db.battlelog ++ games.map row := by
  induction games generalizing db with
  | nil => exact ⟨db, rfl, rfl, by simp⟩
  | cons g rest ih =>
    obtain ⟨hw, hl⟩ := registered_row (h g List.mem_cons_self)
    obtain ⟨db₁, h₁, hd₁, hlog₁⟩ :=
      LoggedDatabase.archiveBattle_of_registered hw hl g.archive.draw g.archive.crashed
    obtain ⟨db₂, h₂, hd₂, hlog₂⟩ := ih db₁ fun g' hg' => by
      rw [hd₁]
      exact h g' (List.mem_cons_of_mem g hg')
    refine ⟨db₂, ?_, hd₂.trans hd₁, ?_⟩
    · rw [archiveAll, List.foldlM_cons, h₁]
      exact h₂
    · rw [hlog₂, hlog₁, List.append_assoc]
      rfl

theorem countP_row (games : List FinishedGame) {p : Postgres.Battle → Prop}
    {q : FinishedGame → Prop} [DecidablePred p] [DecidablePred q] (h : ∀ g, p g.row ↔ q g) :
    (games.map row).countP (fun b => p b) = games.countP fun g => q g := by
  rw [List.countP_map]
  refine List.countP_congr fun g _ => ?_
  rw [Function.comp_apply, decide_eq_true_eq, decide_eq_true_eq]
  exact h g

section Counts
variable {db : LoggedDatabase} {games : List FinishedGame} (hlog : db.battlelog = games.map row)
include hlog

theorem wins_eq (id : AccountId) : db.wins id = games.countP fun g => g.Won id := by
  rw [LoggedDatabase.wins, hlog]
  exact countP_row games fun g => g.row_won id

theorem losses_eq (id : AccountId) : db.losses id = games.countP fun g => g.Lost id := by
  rw [LoggedDatabase.losses, hlog]
  exact countP_row games fun g => g.row_lost id

theorem draws_eq (id : AccountId) : db.draws id = games.countP fun g => g.Drew id := by
  rw [LoggedDatabase.draws, hlog]
  exact countP_row games fun g => g.row_drew id

theorem sum_draws_eq : (db.ids.map db.draws).sum = 2 * games.countP fun g => g.Drawn := by
  have hne : ∀ b ∈ db.battlelog, b.win ≠ b.loose := by
    intro b hb
    rw [hlog] at hb
    obtain ⟨g, _, rfl⟩ := List.mem_map.mp hb
    exact g.row_distinct
  rw [LoggedDatabase.sum_draws hne, hlog]
  exact congrArg (2 * ·) (countP_row games fun g => g.row_drawn)

end Counts

/-! ## What `GetInfo` tells -/

/-- No account has won, drawn or lost more games than an `int` counts. -/
def Countable (games : List FinishedGame) (id : AccountId) : Prop :=
  (games.countP fun g => g.Won id) < 2 ^ 31 ∧ (games.countP fun g => g.Drew id) < 2 ^ 31 ∧
    (games.countP fun g => g.Lost id) < 2 ^ 31

instance (games : List FinishedGame) (id : AccountId) : Decidable (Countable games id) :=
  inferInstanceAs (Decidable (_ ∧ _ ∧ _))

/-- The record of an account. -/
def record (games : List FinishedGame) (account : User) : Record where
  nickname := account.nickname
  win := games.countP fun g => g.Won account.id
  draw := games.countP fun g => g.Drew account.id
  loose := games.countP fun g => g.Lost account.id

/-- Cancelled games are counted for nobody. -/
theorem countP_not_cancelled (games : List FinishedGame) {p : FinishedGame → Prop}
    [DecidablePred p] (h : ∀ g, p g → ¬ g.Cancelled) :
    ((games.filter fun g => ¬ g.Cancelled).countP fun g => p g) = games.countP fun g => p g := by
  rw [List.countP_filter]
  refine List.countP_congr fun g _ => ?_
  rw [Bool.and_eq_true, decide_eq_true_eq, decide_eq_true_eq]
  exact and_iff_left_of_imp (h g)

theorem Won.not_cancelled {g : FinishedGame} {id : AccountId} (h : g.Won id) : ¬ g.Cancelled :=
  fun hc => absurd hc.1 (Int.not_lt.mpr h.1)

theorem Lost.not_cancelled {g : FinishedGame} {id : AccountId} (h : g.Lost id) : ¬ g.Cancelled :=
  fun hc => absurd hc.1 (Int.not_lt.mpr h.1)

theorem Drew.not_cancelled {g : FinishedGame} {id : AccountId} (h : g.Drew id) : ¬ g.Cancelled :=
  fun hc => Bool.false_ne_true (h.2.2.symm.trans hc.2)

section Info
variable {db : LoggedDatabase} {games : List FinishedGame} (hlog : db.battlelog = games.map row)
  {account : User} (hmem : account ∈ db.userlist)
include hlog hmem

theorem getInfo_of_countable (h : Countable games account.id) :
    db.getInfo account.id = .ok (record games account) := by
  have hc : db.Countable account.id := by
    rw [LoggedDatabase.Countable, wins_eq hlog, draws_eq hlog, losses_eq hlog]
    exact h
  rw [LoggedDatabase.getInfo_of_countable hmem hc, wins_eq hlog, draws_eq hlog, losses_eq hlog]
  rfl

theorem getInfo_of_not_countable (h : ¬ Countable games account.id) :
    ∃ what, db.getInfo account.id = .error (.pqxxOther what) := by
  refine LoggedDatabase.getInfo_of_not_countable hmem ?_
  rw [LoggedDatabase.Countable, wins_eq hlog, draws_eq hlog, losses_eq hlog]
  exact h

theorem eq_record_of_getInfo {info : Record} (h : db.getInfo account.id = .ok info) :
    info = record games account := by
  by_cases hc : Countable games account.id
  · rw [getInfo_of_countable hlog hmem hc] at h
    cases h
    rfl
  · obtain ⟨what, hw⟩ := getInfo_of_not_countable hlog hmem hc
    rw [hw] at h
    cases h

end Info

/-- What the accounts are told, one after the other. -/
def Told (db : LoggedDatabase) (accounts : List User) (infos : List Record) : Prop :=
  List.Forall₂ (fun account info => db.getInfo account.id = .ok info) accounts infos

theorem Told.eq_records {db : LoggedDatabase} {games : List FinishedGame}
    (hlog : db.battlelog = games.map row) {accounts : List User} {infos : List Record}
    (h : Told db accounts infos) (hmem : ∀ account ∈ accounts, account ∈ db.userlist) :
    infos = accounts.map (record games) := by
  induction h with
  | nil => rfl
  | cons hinfo _ ih =>
    rw [List.map_cons, eq_record_of_getInfo hlog (hmem _ List.mem_cons_self) hinfo,
      ih fun account h => hmem account (List.mem_cons_of_mem _ h)]

/-- A total of the records is the sum of the counts. -/
theorem sum_records (games : List FinishedGame) (accounts : List User) (field : Record → Int)
    (count : AccountId → Nat) (h : ∀ account, field (record games account) = count account.id) :
    ((accounts.map (record games)).map field).sum = ((accounts.map (·.id)).map count).sum := by
  rw [List.map_map, List.map_map, Nat.cast_list_sum, List.map_map]
  exact congrArg List.sum (List.map_congr_left fun account _ => h account)

/-- **The records add up.** After any games between accounts `GetInfo` tells an account how
many it has won, drawn and lost, unless one of these is no `int`; cancelled games change
nothing, and over all accounts there are as many wins as losses and two draws for each game
drawn. -/
theorem records_add_up (db : Database) (keys : (db.userlist.map (·.id)).Nodup)
    (games : List FinishedGame)
    (hgames : ∀ g ∈ games, db.Registered g.ids.left ∧ db.Registered g.ids.right) :
    ∃ db', archiveAll (.unfought db keys) games = .ok db' ∧
      (∀ account ∈ db.userlist,
        (Countable games account.id → db'.getInfo account.id = .ok (record games account)) ∧
        (¬ Countable games account.id →
          ∃ what, db'.getInfo account.id = .error (.pqxxOther what))) ∧
      (∃ db'', archiveAll (.unfought db keys) (games.filter fun g => ¬ g.Cancelled) = .ok db'' ∧
        ∀ id, db''.getInfo id = db'.getInfo id) ∧
      ∀ infos, Told db' db.userlist infos →
        (infos.map (·.win)).sum = (infos.map (·.loose)).sum ∧
        (infos.map (·.draw)).sum = 2 * (games.countP fun g => g.Drawn) := by
  obtain ⟨db₁, h₁, hd₁, hlog₁⟩ := archiveAll_eq (.unfought db keys) games hgames
  obtain ⟨db₂, h₂, hd₂, hlog₂⟩ := archiveAll_eq (.unfought db keys)
    (games.filter fun g => ¬ g.Cancelled) fun g hg => hgames g (List.mem_of_mem_filter hg)
  have husers : db₁.userlist = db.userlist := congrArg (·.userlist) hd₁
  refine ⟨db₁, h₁, fun account hmem => ?_, ⟨db₂, h₂, fun id => ?_⟩, fun infos hinfos => ?_⟩
  · rw [← husers] at hmem
    exact ⟨getInfo_of_countable hlog₁ hmem, getInfo_of_not_countable hlog₁ hmem⟩
  · rw [LoggedDatabase.getInfo_eq, LoggedDatabase.getInfo_eq, hd₁, hd₂, wins_eq hlog₁,
      wins_eq hlog₂, draws_eq hlog₁, draws_eq hlog₂, losses_eq hlog₁, losses_eq hlog₂,
      countP_not_cancelled games fun _ h => h.not_cancelled,
      countP_not_cancelled games fun _ h => h.not_cancelled,
      countP_not_cancelled games fun _ h => h.not_cancelled]
  · rw [← husers] at hinfos
    rw [hinfos.eq_records hlog₁ fun _ h => h,
      sum_records games db₁.userlist Record.win db₁.wins
        fun account => congrArg Nat.cast (wins_eq hlog₁ account.id).symm,
      sum_records games db₁.userlist Record.loose db₁.losses
        fun account => congrArg Nat.cast (losses_eq hlog₁ account.id).symm,
      sum_records games db₁.userlist Record.draw db₁.draws
        fun account => congrArg Nat.cast (draws_eq hlog₁ account.id).symm]
    refine ⟨congrArg Nat.cast (db₁.sum_wins.trans db₁.sum_losses.symm), ?_⟩
    rw [← Nat.cast_ofNat, ← Nat.cast_mul]
    exact congrArg Nat.cast (sum_draws_eq hlog₁)

/-! ## Two accounts -/

/-- The accounts 1 and 2. -/
def pair : Database where
  achievement _ := none
  userlist := [⟨1, [], 1, ['a'], []⟩, ⟨2, [], 1, ['b'], []⟩]
  userAchievement _ := none
  idSeq := 2

theorem pair_keys : (pair.userlist.map (·.id)).Nodup := by decide

/-- A game of the two accounts. -/
def between (winner : Int) (isCrashed : Bool) (h : winner = -1 ∨ winner = 0 ∨ winner = 1) :
    FinishedGame := ⟨⟨1, 2⟩, winner, isCrashed, by decide, h⟩

theorem pair_registered (g : FinishedGame) (h : g.ids = ⟨1, 2⟩) :
    pair.Registered g.ids.left ∧ pair.Registered g.ids.right := by
  rw [h]
  decide

/-- A win, a draw, a cancelled game and one won by the second account, its opponent gone. -/
def evening : List FinishedGame :=
  [between 0 false (by decide), between (-1) false (by decide), between (-1) true (by decide),
    between 1 true (by decide)]

theorem records_add_up_evening : ∃ db, archiveAll (.unfought pair pair_keys) evening = .ok db ∧
    db.getInfo 1 = .ok ⟨1, 1, 1, 1⟩ ∧ db.getInfo 2 = .ok ⟨1, 1, 1, 1⟩ := by
  obtain ⟨db, h, hinfo, -, -⟩ := records_add_up pair pair_keys evening fun g hg =>
    pair_registered g (by revert g; simp [evening, between])
  refine ⟨db, h, ?_, ?_⟩
  · exact (hinfo ⟨1, [], 1, ['a'], []⟩ (by decide)).1 (by decide)
  · exact (hinfo ⟨2, [], 1, ['b'], []⟩ (by decide)).1 (by decide)

/-- One game more than an `int` counts, all won by the first account. -/
def tooMany : List FinishedGame := List.replicate (2 ^ 31) (between 0 false (by decide))

theorem not_told_tooMany : ∃ db what, archiveAll (.unfought pair pair_keys) tooMany = .ok db ∧
    db.getInfo 1 = .error (.pqxxOther what) := by
  obtain ⟨db, h, hd, hlog⟩ := archiveAll_eq (.unfought pair pair_keys) tooMany
    fun g hg => pair_registered g (by rw [List.eq_of_mem_replicate hg]; rfl)
  have hmem : (⟨1, [], 1, ['a'], []⟩ : User) ∈ db.userlist := by
    rw [show db.userlist = pair.userlist from congrArg (·.userlist) hd]
    decide
  have hc : ¬ Countable tooMany 1 := by
    intro hc
    have hwon := hc.1
    rw [tooMany, List.countP_replicate, if_pos (by decide)] at hwon
    exact absurd hwon (Nat.lt_irrefl _)
  obtain ⟨what, hw⟩ := getInfo_of_not_countable hlog hmem hc
  exact ⟨db, what, h, hw⟩

end FinishedGame
end DrgbServer.Battle
