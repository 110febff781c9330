import DrgbServer.Battle.MyBattle

/-! # `MyBattle::MatchTransfer`: what a battle server answers to a match

The answers of Redis and the database to one call come in as `Answers`. The call
sends two numbers back, the flag and the usage. Four paths lead to flag 1 and one
of them has registered a game; `truthful_iff` says on which inputs the flag and
the state agree. -/
namespace DrgbServer.Battle
open DrgbServer.Utils

/-- The outcomes of the calls `MatchTransfer` makes to other services. -/
structure Answers where
  /-- `redis.GetInfoFromID` of the left and the right player -/
  redis : Sides (Option (Hash × String))
  /-- `dbpool.GetConnection` gave a connection -/
  connection : Bool
  /-- `db->GetInfo` of each player -/
  info : Sides (Except Exn Record)

/-- The fields of a player as `PlayerInfos` keeps them. -/
def packRecord (r : Record) : ByteQueue :=
  (((ByteQueue.empty.push (image 8 r.nickname)).push (intImage r.win)).push
    (intImage r.draw)).push (intImage r.loose)

/-- The `try` block. Both `catch` clauses do the same, and between them they catch
every exception the block can raise. -/
def Answers.playerInfos (a : Answers) : Except Exn (Sides ByteQueue) := do
  if !a.connection then throw .brokenConnection
  let left ← a.info.left
  let right ← a.info.right
  return ⟨packRecord left, packRecord right⟩

/-- No connection, or the query for one of the players raised an exception. -/
def Answers.DbFails (a : Answers) : Prop :=
  a.connection = false ∨ (∃ e, a.info.left = .error e) ∨ ∃ e, a.info.right = .error e

theorem Answers.playerInfos_error_iff (a : Answers) :
    (∃ e, a.playerInfos = .error e) ↔ a.DbFails := by
  cases hc : a.connection with
  | false =>
    refine ⟨fun _ => .inl hc, fun _ => ⟨.brokenConnection, ?_⟩⟩
    simp only [playerInfos, hc]
    rfl
  | true =>
    simp only [playerInfos, DbFails, hc]
    cases h0 : a.info.left with
    | error e => simp [Bind.bind, Except.bind]
    | ok l =>
      cases h1 : a.info.right <;> simp [Bind.bind, Except.bind, Pure.pure, Except.pure]

namespace MyBattle

/-- `BattleService.SetUsage` of the flag and of the number of sessions; the message
field is 32 bits wide. -/
def setUsage (b : MyBattle) (flag : Nat) : List Nat × MyBattle :=
  ([flag % 2 ^ 32, b.sessions.size % 2 ^ 32], b)

def matchTransfer (b : MyBattle) (lpid rpid : AccountId) (a : Answers) : List Nat × MyBattle :=
  if lpid ≤ 0 ∨ rpid ≤ 0 then b.setUsage 0
  else match b.gamepool.getTimer with
    | (none, gamepool) => (b.setPool gamepool).setUsage 1
    | (some timer, gamepool) =>
      let b := b.setPool gamepool
      match a.redis.left, a.redis.right with
      | some (lcookie, _), some (rcookie, _) =>
        match a.playerInfos with
        | .error _ => (b.setPool (b.gamepool.releaseTimer timer)).setUsage 0
        | .ok infos =>
          let g := b.games.length
          let b := b.enroll ⟨lpid, rpid⟩ ⟨lcookie, rcookie⟩
            (GameInfo.make ⟨lpid, rpid⟩ timer infos)
          let b := b.setPool (b.gamepool.expiresAfter timer b.disTime)
          (b.gameProcess timer g).setUsage 1
      | _, _ => b.setUsage 1

/-- Both accounts are in the sessions under one game that was not there before, and
its timer is armed. -/
def Hosts (before after : MyBattle) (lpid rpid : AccountId) : Prop :=
  ∃ g info lcookie rcookie, before.games.length ≤ g ∧ after.games[g]? = some info ∧
    after.sessions.findLKey lpid = some (lcookie, g) ∧
    after.sessions.findLKey rpid = some (rcookie, g) ∧
    after.gamepool.Armed info.timer g

/-- The answer tells the truth, and an answer of 0 leaves nothing behind. -/
def Truthful (b : MyBattle) (lpid rpid : AccountId) (a : Answers) : Prop :=
  let (sent, after) := b.matchTransfer lpid rpid a
  (sent.head? = some 1 ↔ b.Hosts after lpid rpid) ∧
  (¬ b.Hosts after lpid rpid → sent.head? = some 0 ∧ after.sessions = b.sessions ∧
    after.gamepool.timerSet = b.gamepool.timerSet)

/-- The two insertions give both players an entry: none of the four keys is in use
or used twice. One account on both sides needs one entry only. -/
def Admits (b : MyBattle) (lpid rpid : AccountId) (lcookie rcookie : Hash) : Prop :=
  b.sessions.findLKey lpid = none ∧
  if lpid = rpid then b.sessions.findRKey lcookie = none ∨ b.sessions.findRKey rcookie = none
  else b.sessions.findRKey lcookie = none ∧ b.sessions.findLKey rpid = none ∧
    b.sessions.findRKey rcookie = none ∧ rcookie ≠ lcookie

/-- The call is refused for a zero id, or it finds a timer and both cookies and then
either the database fails or the sessions admit both players. -/
def Orderly (b : MyBattle) (lpid rpid : AccountId) (a : Answers) : Prop :=
  lpid = 0 ∨ rpid = 0 ∨ b.gamepool.isRunning = true ∧
    ∃ l r, a.redis.left = some l ∧ a.redis.right = some r ∧
      (a.DbFails ∨ b.Admits lpid rpid l.1 r.1)

/-! ## The paths of the call -/

section Paths
variable {b : MyBattle} {lpid rpid : AccountId} {a : Answers}

theorem matchTransfer_of_zero (h : lpid = 0 ∨ rpid = 0) :
    b.matchTransfer lpid rpid a = b.setUsage 0 := by
  rw [matchTransfer, if_pos (by simpa using h)]

theorem matchTransfer_of_stopped (hl : lpid ≠ 0) (hr : rpid ≠ 0)
    (hp : b.gamepool.isRunning = false) : b.matchTransfer lpid rpid a = b.setUsage 1 := by
  rw [matchTransfer, if_neg (by simp [hl, hr]), TimerPool.getTimer_of_stopped hp]
  rfl

theorem matchTransfer_of_missing (hl : lpid ≠ 0) (hr : rpid ≠ 0)
    (hp : b.gamepool.isRunning = true) (hm : a.redis.left = none ∨ a.redis.right = none) :
    b.matchTransfer lpid rpid a = (b.setPool b.gamepool.hold).setUsage 1 := by
  rw [matchTransfer, if_neg (by simp [hl, hr]), TimerPool.getTimer_of_running hp]
  rcases hm with hm | hm
  · simp only [hm]
  · cases h0 : a.redis.left <;> simp only [hm]

theorem matchTransfer_of_dbFailed (hl : lpid ≠ 0) (hr : rpid ≠ 0)
    (hp : b.gamepool.isRunning = true) {l r : Hash × String} (h0 : a.redis.left = some l)
    (h1 : a.redis.right = some r) {e : Exn} (hd : a.playerInfos = .error e) :
    b.matchTransfer lpid rpid a =
      (b.setPool (b.gamepool.hold.releaseTimer b.gamepool.timers.length)).setUsage 0 := by
  rw [matchTransfer, if_neg (by simp [hl, hr]), TimerPool.getTimer_of_running hp]
  simp only [h0, h1, hd]
  rfl

/-- The state after the call has made a game. -/
def made (b : MyBattle) (lpid rpid : AccountId) (lcookie rcookie : Hash)
    (infos : Sides ByteQueue) : MyBattle :=
  let timer := b.gamepool.timers.length
  let b := (b.setPool b.gamepool.hold).enroll ⟨lpid, rpid⟩ ⟨lcookie, rcookie⟩
    (GameInfo.make ⟨lpid, rpid⟩ timer infos)
  b.setPool ((b.gamepool.expiresAfter timer b.disTime).asyncWait timer (b.games.length - 1))

theorem matchTransfer_of_made (hl : lpid ≠ 0) (hr : rpid ≠ 0)
    (hp : b.gamepool.isRunning = true) {l r : Hash × String} (h0 : a.redis.left = some l)
    (h1 : a.redis.right = some r) {infos : Sides ByteQueue} (hd : a.playerInfos = .ok infos) :
    b.matchTransfer lpid rpid a = (b.made lpid rpid l.1 r.1 infos).setUsage 1 := by
  rw [matchTransfer, if_neg (by simp [hl, hr]), TimerPool.getTimer_of_running hp]
  simp only [h0, h1, hd]
  rw [gameProcess, if_neg (by simp [setPool, enroll, TimerPool.expiresAfter,
    TimerPool.modifyTimer, TimerPool.hold, hp])]
  simp [made, enroll, setPool]

/-! ## Which paths register the match -/

/-- A session before the call leads to an old game. -/
theorem not_hosts_of_sessions {after : MyBattle} (lpid rpid : AccountId)
    (h : after.sessions = b.sessions) : ¬ b.Hosts after lpid rpid := by
  intro hgiven
  obtain ⟨g, info, lc, rc, hg, _, hl, _⟩ := hgiven
  rw [h] at hl
  exact absurd (b.allocated lpid lc g hl) (not_lt.mpr hg)

theorem sessions_made (lcookie rcookie : Hash) (infos : Sides ByteQueue) :
    (b.made lpid rpid lcookie rcookie infos).sessions =
      ((b.sessions.insert lpid lcookie b.games.length).2.insert rpid rcookie b.games.length).2 :=
  rfl

theorem armed_made (lcookie rcookie : Hash) (infos : Sides ByteQueue) :
    (b.made lpid rpid lcookie rcookie infos).gamepool.Armed b.gamepool.timers.length
      b.games.length := by
  have hm : b.gamepool.timers.length ∈ b.gamepool.hold.timerSet := Finset.mem_insert_self _ _
  have hg : (b.games ++ [GameInfo.make ⟨lpid, rpid⟩ b.gamepool.timers.length infos]).length - 1 =
      b.games.length := by simp
  have ha := TimerPool.armed_asyncWait hm b.disTime b.games.length
  rw [← hg] at ha ⊢
  exact ha

theorem games_made (lcookie rcookie : Hash) (infos : Sides ByteQueue) :
    (b.made lpid rpid lcookie rcookie infos).games =
      b.games ++ [GameInfo.make ⟨lpid, rpid⟩ b.gamepool.timers.length infos] := rfl

/-- A made game is hosted when both accounts lead to it. -/
theorem hosts_made_iff (lcookie rcookie : Hash) (infos : Sides ByteQueue) :
    b.Hosts (b.made lpid rpid lcookie rcookie infos) lpid rpid ↔
      (∃ c, (b.made lpid rpid lcookie rcookie infos).sessions.findLKey lpid =
        some (c, b.games.length)) ∧
      ∃ c, (b.made lpid rpid lcookie rcookie infos).sessions.findLKey rpid =
        some (c, b.games.length) := by
  constructor
  · intro h
    obtain ⟨g, info, lc, rc, hg, hi, hl, hr, _⟩ := h
    have hlt := (b.made lpid rpid lcookie rcookie infos).allocated lpid lc g hl
    rw [games_made, List.length_append, List.length_singleton] at hlt
    have hge : g = b.games.length := Nat.le_antisymm (Nat.lt_succ_iff.mp hlt) hg
    rw [hge] at hl hr
    exact ⟨⟨lc, hl⟩, ⟨rc, hr⟩⟩
  · intro h
    obtain ⟨⟨lc, hl⟩, ⟨rc, hr⟩⟩ := h
    refine ⟨b.games.length, GameInfo.make ⟨lpid, rpid⟩ b.gamepool.timers.length infos, lc, rc,
      le_refl _, ?_, hl, hr, armed_made lcookie rcookie infos⟩
    rw [games_made, List.getElem?_concat_length]

/-- An account leads to the new game only if the sessions had neither of its keys. -/
theorem findLKey_fresh {t : Table AccountId Hash GameId} {id : AccountId} {cookie c : Hash}
    {g : GameId} (hold : ∀ c, t.findLKey id ≠ some (c, g))
    (h : (t.insert id cookie g).2.findLKey id = some (c, g)) :
    t.findLKey id = none ∧ t.findRKey cookie = none := by
  cases hi : (t.insert id cookie g).1 with
  | false =>
    rw [Table.insert_of_refused hi] at h
    exact absurd h (hold c)
  | true => exact Table.insert_fst.mp hi

theorem old_game {id : AccountId} (c : Hash) :
    b.sessions.findLKey id ≠ some (c, b.games.length) :=
  fun h => (b.allocated id c _ h).false

/-- What the two insertions give for the left player: the second one cannot add it. -/
theorem findLKey_left_made (h : lpid ≠ rpid) (lcookie rcookie : Hash) (infos : Sides ByteQueue) :
    (b.made lpid rpid lcookie rcookie infos).sessions.findLKey lpid =
      (b.sessions.insert lpid lcookie b.games.length).2.findLKey lpid := by
  rw [sessions_made]
  generalize (b.sessions.insert lpid lcookie b.games.length).2 = t
  cases hi : (t.insert rpid rcookie b.games.length).1 with
  | false => rw [Table.insert_of_refused hi]
  | true => rw [Table.findLKey_insert hi, if_neg h]

theorem hosts_made_same (lcookie rcookie : Hash) (infos : Sides ByteQueue) :
    (∃ c, (b.made lpid lpid lcookie rcookie infos).sessions.findLKey lpid =
        some (c, b.games.length)) ↔
      b.sessions.findLKey lpid = none ∧
        (b.sessions.findRKey lcookie = none ∨ b.sessions.findRKey rcookie = none) := by
  rw [sessions_made]
  cases hi : (b.sessions.insert lpid lcookie b.games.length).1 with
  | true =>
    have hf := Table.insert_fst.mp hi
    have hl := Table.findLKey_insert hi lpid
    rw [if_pos rfl] at hl
    have hr : ((b.sessions.insert lpid lcookie b.games.length).2.insert lpid rcookie
        b.games.length).1 = false := by
      rw [← Bool.not_eq_true, Table.insert_fst, hl]
      simp
    rw [Table.insert_of_refused hr, hl]
    simp [hf.1, hf.2]
  | false =>
    rw [Table.insert_of_refused hi]
    constructor
    · intro hgiven
      obtain ⟨c, h⟩ := hgiven
      obtain ⟨hl, hr⟩ := findLKey_fresh old_game h
      exact ⟨hl, .inr hr⟩
    · intro hgiven
      obtain ⟨hl, hc⟩ := hgiven
      have hr : b.sessions.findRKey rcookie = none := by
        rcases hc with hc | hc
        · rw [Table.insert_fst.mpr ⟨hl, hc⟩] at hi
          cases hi
        · exact hc
      refine ⟨rcookie, ?_⟩
      rw [Table.findLKey_insert (Table.insert_fst.mpr ⟨hl, hr⟩), if_pos rfl]

/-- **The sessions lead both players to the new game exactly if they admit them.** -/
theorem hosts_made_iff_admits (lcookie rcookie : Hash) (infos : Sides ByteQueue) :
    b.Hosts (b.made lpid rpid lcookie rcookie infos) lpid rpid ↔
      b.Admits lpid rpid lcookie rcookie := by
  rw [hosts_made_iff, Admits]
  by_cases hlr : lpid = rpid
  · subst hlr
    rw [and_self, if_pos rfl]
    exact hosts_made_same lcookie rcookie infos
  · rw [if_neg hlr, findLKey_left_made hlr, sessions_made]
    constructor
    · intro h
      obtain ⟨⟨c, hl⟩, ⟨d, hr⟩⟩ := h
      obtain ⟨hl, hc⟩ := findLKey_fresh old_game hl
      have hi : (b.sessions.insert lpid lcookie b.games.length).1 = true :=
        Table.insert_fst.mpr ⟨hl, hc⟩
      have hsame := Table.findLKey_insert hi rpid
      rw [if_neg (Ne.symm hlr)] at hsame
      obtain ⟨hr, hd⟩ := findLKey_fresh (by rw [hsame]; exact old_game) hr
      rw [hsame] at hr
      obtain ⟨hne, hd⟩ := (Table.findRKey_insert_eq_none hi rcookie).mp hd
      exact ⟨hl, hc, hr, hd, hne⟩
    · intro h
      obtain ⟨hl, hc, hr, hd, hne⟩ := h
      have hi : (b.sessions.insert lpid lcookie b.games.length).1 = true :=
        Table.insert_fst.mpr ⟨hl, hc⟩
      have hsame := Table.findLKey_insert hi rpid
      rw [if_neg (Ne.symm hlr), hr] at hsame
      have hfree := (Table.findRKey_insert_eq_none hi rcookie).mpr ⟨hne, hd⟩
      have hi' : ((b.sessions.insert lpid lcookie b.games.length).2.insert rpid rcookie
          b.games.length).1 = true := Table.insert_fst.mpr ⟨hsame, hfree⟩
      refine ⟨⟨lcookie, ?_⟩, ⟨rcookie, ?_⟩⟩
      · rw [Table.findLKey_insert hi, if_pos rfl]
      · rw [Table.findLKey_insert hi', if_pos rfl]

end Paths

/-! ## The flag and the state -/

/-- A call that answers 1 is truthful exactly if it hosts the match. -/
theorem truthful_of_one {b after : MyBattle} {lpid rpid : AccountId} {a : Answers}
    (h : b.matchTransfer lpid rpid a = after.setUsage 1) :
    b.Truthful lpid rpid a ↔ b.Hosts after lpid rpid := by
  simp only [Truthful, h, setUsage, List.head?_cons]
  constructor
  · intro hgiven
    obtain ⟨h1, _⟩ := hgiven
    exact h1.mp rfl
  · intro hh
    exact ⟨⟨fun _ => hh, fun _ => rfl⟩, fun hn => absurd hh hn⟩

/-- A call that answers 0 is truthful when it changed neither sessions nor timers. -/
theorem truthful_of_zero {b after : MyBattle} {lpid rpid : AccountId} {a : Answers}
    (h : b.matchTransfer lpid rpid a = after.setUsage 0) (hs : after.sessions = b.sessions)
    (ht : after.gamepool.timerSet = b.gamepool.timerSet) : b.Truthful lpid rpid a := by
  have hn := not_hosts_of_sessions lpid rpid hs
  simp only [Truthful, h, setUsage, List.head?_cons]
  refine ⟨⟨fun h1 => ?_, fun hh => absurd hh hn⟩, fun _ => ⟨rfl, hs, ht⟩⟩
  cases h1

/-- **When `MatchTransfer` is all-or-nothing and reports truthfully.** -/
theorem truthful_iff (b : MyBattle) (lpid rpid : AccountId) (a : Answers) :
    b.Truthful lpid rpid a ↔ b.Orderly lpid rpid a := by
  by_cases hz : lpid = 0 ∨ rpid = 0
  · have ht := truthful_of_zero (matchTransfer_of_zero (b := b) (a := a) hz) rfl rfl
    have ho : b.Orderly lpid rpid a := by
      rcases hz with hz | hz
      · exact .inl hz
      · exact .inr (.inl hz)
    exact ⟨fun _ => ho, fun _ => ht⟩
  obtain ⟨hl, hr⟩ := not_or.mp hz
  simp only [Orderly, hl, hr, false_or]
  cases hp : b.gamepool.isRunning with
  | false =>
    -- a null timer falls through to the answer 1
    rw [truthful_of_one (matchTransfer_of_stopped hl hr hp)]
    simp [not_hosts_of_sessions lpid rpid (rfl : b.sessions = b.sessions)]
  | true =>
    simp only [true_and]
    by_cases hm : a.redis.left = none ∨ a.redis.right = none
    · -- so does a missing session, with the timer taken
      rw [truthful_of_one (matchTransfer_of_missing hl hr hp hm)]
      have hn : ¬ b.Hosts (b.setPool b.gamepool.hold) lpid rpid :=
        not_hosts_of_sessions lpid rpid rfl
      rcases hm with hm | hm <;> simp [hn, hm]
    · obtain ⟨h0, h1⟩ := not_or.mp hm
      obtain ⟨l, h0⟩ := Option.ne_none_iff_exists'.mp h0
      obtain ⟨r, h1⟩ := Option.ne_none_iff_exists'.mp h1
      simp only [h0, h1, Option.some.injEq, exists_eq_left', exists_and_left,
        ← a.playerInfos_error_iff]
      cases hd : a.playerInfos with
      | error e =>
        have ht := truthful_of_zero (matchTransfer_of_dbFailed hl hr hp h0 h1 hd) rfl
          (TimerPool.timerSet_release_hold hp)
        simp [ht]
      | ok infos =>
        rw [truthful_of_one (matchTransfer_of_made hl hr hp h0 h1 hd), hosts_made_iff_admits]
        simp

/-- The right player's Redis entry has expired: the answer is 1, no session is made
and the timer stays in the pool. -/
theorem not_truthful_expired :
    ¬ start.Truthful 1 2 ⟨⟨some (Vector.replicate 32 7, "match"), none⟩, true,
      ⟨.ok ⟨1, 0, 0, 0⟩, .ok ⟨1, 0, 0, 0⟩⟩⟩ := by
  rw [truthful_of_one (matchTransfer_of_missing (by decide) (by decide) rfl (.inr rfl))]
  exact not_hosts_of_sessions 1 2 rfl

end MyBattle
end DrgbServer.Battle
