import DrgbServer.Auth.MyAuth
import DrgbServer.Battle.GameProcess
import DrgbServer.Battle.History
import DrgbServer.Battle.MatchTransfer
import DrgbServer.Match.MatchMake
import DrgbServer.TestStress.TestClient

/-! # Packets of the servers and the fields the client reads

Every packet is a list of fields, and a queue read up to a field gives it and stands before
the next one. The fields of the C++ types have their ranges; those of a game that has been
played are in them. -/
namespace DrgbServer.TestStress
open DrgbServer.Utils DrgbServer.Network DrgbServer.Battle DrgbServer.Lib.Transition
open DrgbServer.Lib.Procedure ByteQueue

/-! ## Ranges -/

/-- A value of an `int`. -/
def IsInt (n : Int) : Prop := -2 ^ 31 ≤ n ∧ n < 2 ^ 31

structure IsRecord (r : Record) : Prop where
  nickname : r.nickname < 2 ^ 64
  win : IsInt r.win
  draw : IsInt r.draw
  loose : IsInt r.loose

/-- The values of the fields of a game; the last action is one once there was a round. -/
structure IsGame (g : MyGame) : Prop where
  round : IsInt g.nowRound
  health : ∀ i, IsInt (g.players i).health
  energy : ∀ i, IsInt (g.players i).energy
  prevAction : 0 ≤ g.nowRound → ∀ i, (g.players i).prevAction.toNat < 256

/-- A game between calls, whose last actions are actions once there was a round. -/
structure Played (g : MyGame) : Prop where
  inv : MyGame.Inv g
  acted : 0 ≤ g.nowRound → ∀ i, (g.players i).prevAction ∈ MyGame.actions

theorem step_played (g : MyGame) (c : MyGame.Call) (hp : Played g) :
    ∃ g', MyGame.step g c = some g' ∧ Played g' := by
  obtain ⟨g', hstep, hi⟩ := MyGame.step_inv g c hp.inv
  refine ⟨g', hstep, hi, ?_⟩
  cases c with
  | action side a =>
    rw [MyGame.step, MyGame.action_eq] at hstep
    obtain rfl := Option.some.inj hstep
    split
    · intro hr
      refine MyGame.forall_side side ?_ ?_
      · rw [MyGame.setPlayer_self]
        exact hp.acted hr side
      · rw [MyGame.setPlayer_other]
        exact hp.acted hr (1 - side)
    · exact hp.acted
  | process =>
    obtain rfl := Option.some.inj hstep
    cases hover : g.isOver with
    | true =>
      rw [MyGame.process_of_isOver hover]
      exact hp.acted
    | false =>
      rw [MyGame.process_of_not_isOver hover]
      intro _ i
      rw [(MyGame.round_eq hp.inv.target).1 i]
      exact hp.inv.mem_actions i
  | getAchievement =>
    obtain rfl := Option.some.inj hstep
    rw [MyGame.getAchievement_players, MyGame.getAchievement_nowRound]
    exact hp.acted

theorem toNat_action_lt : ∀ a ∈ MyGame.actions, a.toNat < 256 := by
  simp [MyGame.actions, MyGame.meditate, MyGame.guard, MyGame.evade, MyGame.punch, MyGame.fire]

theorem Played.isGame {g : MyGame} (hp : Played g) : IsGame g where
  round := by
    have hr := hp.inv.round
    rw [MyGame.maxRound] at hr
    exact ⟨by omega, by omega⟩
  health i := by
    rcases hp.inv.health i with h | h
    · exact ⟨by omega, by omega⟩
    · exact ⟨by omega, by omega⟩
  energy i := by
    have he := hp.inv.energy i
    rw [MyGame.maxEnergy] at he
    exact ⟨by omega, by omega⟩
  prevAction hr i := toNat_action_lt _ (hp.acted hr i)

/-- Every game that calls lead to. -/
theorem run_isGame (calls : List MyGame.Call) :
    ∃ g, run MyGame.step MyGame.fresh calls = some g ∧ IsGame g := by
  have hfresh : Played MyGame.fresh :=
    ⟨MyGame.fresh_inv, fun hr => absurd hr (by decide)⟩
  obtain ⟨g, hrun, hp⟩ := run_total step_played calls hfresh
  exact ⟨g, hrun, hp.isGame⟩

/-! ## Images -/

@[simp] theorem length_intImage (n : Int) : (intImage n).length = 4 := length_image 4 _

def recordImage (r : Record) : List Byte :=
  image 8 r.nickname ++ (intImage r.win ++ (intImage r.draw ++ intImage r.loose))

def stateImage (s : SideState) : List Byte :=
  [s.action] ++ (intImage s.health ++ intImage s.energy)

/-- The id and the count of an achievement. -/
def pairImage (p : AchievementId × Int) : List Byte := image 8 p.1 ++ intImage p.2

@[simp] theorem length_recordImage (r : Record) : (recordImage r).length = 20 := by
  simp [recordImage]

@[simp] theorem length_stateImage (s : SideState) : (stateImage s).length = 9 := by
  simp [stateImage]

/-- The field that comes next. -/
theorem popAs_readTo {α : Type} {len : Nat} {value : List Byte → α} {a : α}
    {before field rest : List Byte} (hv : value field = a) (hlen : field.length = len)
    (hw : before.length + len < 2 ^ 64) :
    popAs len value (readTo before (field ++ rest)) = .ok (a, readTo (before ++ field) rest) := by
  rw [popAs, pop_readTo hlen hw, Except.map, Prod.map, hv]
  rfl

section Fields
variable {before rest : List Byte}

theorem popByte_readTo (b : Byte) (hw : before.length + 1 < 2 ^ 64) :
    popByte (readTo before ([b] ++ rest)) = .ok (b, readTo (before ++ [b]) rest) :=
  popAs_readTo rfl List.length_singleton hw

theorem popInt_readTo {n : Int} (hn : IsInt n) (hw : before.length + 4 < 2 ^ 64) :
    popInt (readTo before (intImage n ++ rest)) = .ok (n, readTo (before ++ intImage n) rest) :=
  popAs_readTo (intOfImage_intImage hn.1 hn.2) (length_intImage n) hw

theorem popHash_readTo (h : Hash) (hw : before.length + 32 < 2 ^ 64) :
    popHash (readTo before (h.toList ++ rest)) = .ok (h, readTo (before ++ h.toList) rest) :=
  popAs_readTo (toHash_toList h) Vector.length_toList hw

theorem popAchievementId_readTo {a : AchievementId} (ha : a < 2 ^ 64)
    (hw : before.length + 8 < 2 ^ 64) :
    popAchievementId (readTo before (image 8 a ++ rest)) =
      .ok (a, readTo (before ++ image 8 a) rest) :=
  popAs_readTo (ofImage_image ha) (length_image 8 a) hw

theorem readRecord_readTo {r : Record} (hr : IsRecord r) (hw : before.length + 20 < 2 ^ 64) :
    readRecord (readTo before (recordImage r ++ rest)) =
      .ok (r, readTo (before ++ recordImage r) rest) := by
  simp only [readRecord, recordImage, List.append_assoc]
  rw [popAchievementId_readTo hr.nickname (by omega)]
  simp only [bind, Except.bind]
  rw [popInt_readTo hr.win (by simp; omega)]
  simp only
  rw [popInt_readTo hr.draw (by simp; omega)]
  simp only
  rw [popInt_readTo hr.loose (by simp; omega)]
  simp only [List.append_assoc]
  rfl

theorem readState_readTo {s : SideState} (hh : IsInt s.health) (he : IsInt s.energy)
    (hw : before.length + 9 < 2 ^ 64) :
    readState (readTo before (stateImage s ++ rest)) =
      .ok (s, readTo (before ++ stateImage s) rest) := by
  simp only [readState, stateImage, List.append_assoc]
  rw [popByte_readTo _ (by omega)]
  simp only [bind, Except.bind]
  rw [popInt_readTo hh (by simp; omega)]
  simp only
  rw [popInt_readTo he (by simp; omega)]
  simp only [List.append_assoc]
  rfl

end Fields

/-! ## What the servers build -/

theorem packRecord_eq (r : Record) : packRecord r = readTo [] (recordImage r) := by
  simp only [packRecord, recordImage, ByteQueue.empty, ← List.append_assoc]
  rfl

theorem playerInfo_eq (r : Record) :
    Match.MyMatch.playerInfo r = readTo [] ([gamePlayerInfo] ++ recordImage r) := by
  simp only [Match.MyMatch.playerInfo, code, create_eq_readTo, push_readTo, recordImage,
    List.append_assoc]

theorem infoPacket_eq (r : Record) (achieves : List (AchievementId × Int)) :
    Match.MyMatch.infoPacket r achieves =
      readTo [] ([gamePlayerInfo] ++ (recordImage r ++ achieves.flatMap pairImage)) := by
  have hfold : ∀ fields : List Byte,
      achieves.foldl (fun q p => (q.push (image 8 p.1)).push (intImage p.2)) (readTo [] fields) =
        readTo [] (fields ++ achieves.flatMap pairImage) := by
    induction achieves with
    | nil =>
      intro fields
      rw [List.flatMap_nil, List.append_nil, List.foldl_nil]
    | cons p rest ih =>
      intro fields
      rw [List.foldl_cons, push_readTo, push_readTo, ih, List.flatMap_cons, pairImage]
      simp only [List.append_assoc]
  rw [Match.MyMatch.infoPacket, playerInfo_eq, hfold, List.append_assoc]

theorem matchMade_eq (battleServer : Seed) :
    Match.Located.matchMade battleServer = readTo [] ([ansMatchmade] ++ intImage battleServer) := rfl

theorem existingReply_match (cookie : Hash) :
    Auth.MyAuth.existingReply cookie Auth.keywordMatch =
      readTo [] ([errExistAccountMatch] ++ cookie.toList) := by
  rw [Auth.MyAuth.existingReply, if_pos rfl]
  rfl

theorem existingReply_battle (cookie : Hash) {serverName : String}
    (hn : serverName ≠ Auth.keywordMatch) (hs : 0 < Auth.MyAuth.serverIdOf serverName) :
    Auth.MyAuth.existingReply cookie serverName = readTo [] ([errExistAccountBattle] ++
      (cookie.toList ++ intImage (Auth.MyAuth.serverIdOf serverName))) := by
  rw [Auth.MyAuth.existingReply, if_neg hn, if_pos hs, ← List.append_assoc]
  rfl

/-- The server of a location is an `int`. -/
theorem isInt_serverIdOf (serverName : String) : IsInt (Auth.MyAuth.serverIdOf serverName) := by
  have hneg : IsInt (-1) := ⟨by decide, by decide⟩
  unfold Auth.MyAuth.serverIdOf
  simp only
  split
  · exact hneg
  · split
    · exact hneg
    · split
      · next hlt => exact ⟨by omega, by exact_mod_cast hlt⟩
      · exact hneg

/-- What a packet shows of a player. -/
def shown (p : PlayerInfo) : SideState :=
  ⟨UInt8.ofNat p.prevAction.toNat, p.health, p.energy⟩

theorem sideResult_eq (g : MyGame) (side : Fin 2) :
    Arena.sideResult g side.val =
      readTo [] (if 0 ≤ g.nowRound then stateImage (shown (g.players side)) else []) := by
  have hinfo : g.getPlayerInfo side.val =
      (UInt8.ofNat (g.players side).prevAction.toNat, (g.players side).health,
        (g.players side).energy) := by
    fin_cases side <;> rfl
  rw [Arena.sideResult]
  split
  · rw [hinfo]
    simp only [stateImage, shown, ← List.append_assoc]
    rfl
  · rfl

/-- The number of the opponent. -/
theorem other_side (side : Fin 2) : (2 - ((side.val : Int) + 1)) = ((1 - side : Fin 2).val : Int) := by
  fin_cases side <;> rfl

/-- The two sides, once there was a round. -/
def sidesImage (g : MyGame) (side : Fin 2) : List Byte :=
  if 0 ≤ g.nowRound then
    stateImage (shown (g.players side)) ++ stateImage (shown (g.players (1 - side)))
  else []

theorem roundResult_eq (msg : Byte) (g : MyGame) (side : Fin 2) :
    Arena.roundResult msg g side.val =
      readTo [] ([msg] ++ (intImage g.nowRound ++ sidesImage g side)) := by
  rw [Arena.roundResult, other_side, sideResult_eq, sideResult_eq, sidesImage]
  simp only [code, create_eq_readTo, push_readTo, add_readTo, List.append_assoc]
  split <;> rfl

theorem playerNames_eq {info : GameInfo} {l r : Record}
    (hi : info.playerInfos = ⟨packRecord l, packRecord r⟩) (side : Fin 2) :
    BattleServer.playerNames info side.val = readTo [] ([gamePlayerInfoName] ++
      (recordImage ((⟨l, r⟩ : Sides Record).get side.val) ++
        recordImage ((⟨l, r⟩ : Sides Record).get (1 - side : Fin 2).val))) := by
  have hget : ∀ i : Fin 2, info.playerInfos.get i.val =
      readTo [] (recordImage ((⟨l, r⟩ : Sides Record).get i.val)) := by
    intro i
    rw [hi]
    fin_cases i
    · exact packRecord_eq l
    · exact packRecord_eq r
  rw [BattleServer.playerNames, other_side, hget, hget]
  rfl

/-! ## What the client reads -/

/-- The packet is read to its end. -/
def Handled.Consumed (h : Handled) : Prop := h.packet.ptr = h.packet.size

theorem consumed_readTo (c : TestClient) (before : List Byte) (sent : List ByteQueue)
    (reasons : List String) (thrown : List Byte) (next : Next) :
    Handled.Consumed ⟨c, readTo before [], sent, reasons, thrown, next⟩ := by
  rw [Handled.Consumed, size, readTo, List.append_nil]

namespace TestClient
variable (c : TestClient)

/-- After the fields of a round seen from a side. -/
def afterRound (g : MyGame) (side : Fin 2) : TestClient :=
  if 0 ≤ g.nowRound then
    { c with
      round := g.nowRound
      state := shown (g.players side)
      enemyState := shown (g.players (1 - side)) }
  else { c with round := g.nowRound }

theorem popByte_header (header : Byte) (rest : List Byte) :
    popByte (readTo [] ([header] ++ rest)) = .ok (header, readTo [header] rest) :=
  popByte_readTo header (by decide)

theorem battleProcess_round {header : Byte}
    (hh : header ∈ [gameRoundResult, gamePlayerAllConnected]) (nextAction : Int) (rest : List Byte) :
    c.battleProcess nextAction (readTo [] ([header] ++ rest)) =
      (c.readRound (readTo [header] rest)).map fun r =>
        ⟨r.1, r.2, [(code reqGameAction).push (intImage nextAction)], [], [], .receive⟩ := by
  rw [battleProcess, popByte_header]
  simp only [List.mem_cons, List.not_mem_nil, or_false] at hh
  rcases hh with rfl | rfl <;> rfl

theorem readRound_readTo {g : MyGame} (hg : IsGame g) (side : Fin 2) (header : Byte) :
    ∃ before, c.readRound (readTo [header] (intImage g.nowRound ++ sidesImage g side)) =
      .ok (c.afterRound g side, readTo before []) := by
  rw [readRound, popInt_readTo hg.round (by simp)]
  simp only [bind, Except.bind, afterRound, sidesImage]
  by_cases hr : 0 ≤ g.nowRound
  · rw [if_pos hr, if_pos hr, if_pos hr,
      readState_readTo (hg.health side) (hg.energy side) (by simp)]
    simp only
    rw [← List.append_nil (stateImage (shown (g.players (1 - side)))),
      readState_readTo (hg.health (1 - side)) (hg.energy (1 - side)) (by simp)]
    exact ⟨_, rfl⟩
  · rw [if_neg hr, if_neg hr, if_neg hr]
    exact ⟨_, rfl⟩

theorem battleProcess_roundResult {msg : Byte} (hm : msg ∈ [gameRoundResult, gamePlayerAllConnected])
    {g : MyGame} (hg : IsGame g) (side : Fin 2) (nextAction : Int) :
    ∃ h, c.battleProcess nextAction (Arena.roundResult msg g side.val) = .ok h ∧
      h.client = c.afterRound g side ∧ h.Consumed := by
  obtain ⟨before, hread⟩ := c.readRound_readTo hg side msg
  rw [roundResult_eq, c.battleProcess_round hm, hread]
  exact ⟨_, rfl, rfl, consumed_readTo ..⟩

theorem battleProcess_names (nextAction : Int) (rest : List Byte) :
    c.battleProcess nextAction (readTo [] ([gamePlayerInfoName] ++ rest)) = (do
      let (player, packet) ← readRecord (readTo [gamePlayerInfoName] rest)
      let (enemy, packet) ← readRecord packet
      return ⟨{ c with player, enemy }, packet, [], [], [], .receive⟩) := by
  rw [battleProcess, popByte_header]
  rfl

theorem battleProcess_playerNames {l r : Record} (hl : IsRecord l) (hr : IsRecord r)
    {info : GameInfo} (hi : info.playerInfos = ⟨packRecord l, packRecord r⟩) (side : Fin 2)
    (nextAction : Int) :
    ∃ h, c.battleProcess nextAction (BattleServer.playerNames info side.val) = .ok h ∧
      h.client = { c with
        player := (⟨l, r⟩ : Sides Record).get side.val
        enemy := (⟨l, r⟩ : Sides Record).get (1 - side : Fin 2).val } ∧ h.Consumed := by
  have hget : ∀ i : Fin 2, IsRecord ((⟨l, r⟩ : Sides Record).get i.val) := by
    intro i
    fin_cases i
    · exact hl
    · exact hr
  rw [playerNames_eq hi, battleProcess_names, readRecord_readTo (hget side) (by simp)]
  simp only [bind, Except.bind]
  rw [← List.append_nil (recordImage (Sides.get _ (1 - side : Fin 2).val)),
    readRecord_readTo (hget (1 - side)) (by simp)]
  exact ⟨_, rfl, rfl, consumed_readTo ..⟩

theorem matchProcess_info (rest : List Byte) :
    c.matchProcess (readTo [] ([gamePlayerInfo] ++ rest)) = (do
      let (player, packet) ← readRecord (readTo [gamePlayerInfo] rest)
      return ⟨{ c with player }, packet, [code reqStartmatch], [], [], .receive⟩) := by
  rw [matchProcess, popByte_header]
  rfl

theorem matchProcess_infoPacket {r : Record} (hr : IsRecord r)
    (achieves : List (AchievementId × Int)) :
    ∃ h, c.matchProcess (Match.MyMatch.infoPacket r achieves) = .ok h ∧
      h.client = { c with player := r } ∧
      h.packet.bytes.drop h.packet.ptr = achieves.flatMap pairImage := by
  rw [infoPacket_eq, matchProcess_info, readRecord_readTo hr (by simp)]
  exact ⟨_, rfl, rfl, List.drop_left⟩

theorem matchProcess_made (rest : List Byte) :
    c.matchProcess (readTo [] ([ansMatchmade] ++ rest)) = (do
      let (battleSeed, packet) ← popInt (readTo [ansMatchmade] rest)
      return ⟨{ c with battleSeed }, packet, [], [], [], .doBattle⟩) := by
  rw [matchProcess, popByte_header]
  rfl

theorem matchProcess_matchMade {battleServer : Seed} (hs : IsInt battleServer) :
    ∃ h, c.matchProcess (Match.Located.matchMade battleServer) = .ok h ∧
      h.client = { c with battleSeed := battleServer } ∧ h.next = .doBattle ∧ h.Consumed := by
  rw [matchMade_eq, matchProcess_made, ← List.append_nil (intImage battleServer),
    popInt_readTo hs (by simp)]
  exact ⟨_, rfl, rfl, rfl, consumed_readTo ..⟩

theorem authProcess_login (sha256 : List Byte → Hash) {header : Byte}
    (hh : header ∈ [success, errExistAccountMatch, errExistAccountBattle]) (rest : List Byte) :
    c.authProcess sha256 (readTo [] ([header] ++ rest)) =
      c.logIn header (readTo [header] rest) := by
  rw [authProcess, popByte_header]
  simp only [List.mem_cons, List.not_mem_nil, or_false] at hh
  rcases hh with rfl | rfl | rfl <;> rfl

/-- A reply that has a cookie only. -/
theorem authProcess_cookie (sha256 : List Byte → Hash) {header : Byte}
    (hh : header ∈ [success, errExistAccountMatch]) (cookie : Hash) :
    ∃ h, c.authProcess sha256 (readTo [] ([header] ++ cookie.toList)) = .ok h ∧
      h.client = { c with cookie := cookie, battleSeed := -1 } ∧ h.next = .doMatch ∧
      h.Consumed := by
  have hne : header ≠ errExistAccountBattle ∧
      header ∈ [success, errExistAccountMatch, errExistAccountBattle] := by
    simp only [List.mem_cons, List.not_mem_nil, or_false] at hh
    rcases hh with rfl | rfl <;> decide
  rw [c.authProcess_login sha256 hne.2, logIn, ← List.append_nil cookie.toList,
    popHash_readTo cookie (by simp)]
  simp only [bind, Except.bind, if_neg hne.1]
  exact ⟨_, rfl, rfl, rfl, consumed_readTo ..⟩

theorem authProcess_existingReply (sha256 : List Byte → Hash) (cookie : Hash) {serverName : String}
    (hn : serverName ≠ Auth.keywordMatch) (hs : 0 < Auth.MyAuth.serverIdOf serverName) :
    ∃ h, c.authProcess sha256 (Auth.MyAuth.existingReply cookie serverName) = .ok h ∧
      h.client = { c with cookie := cookie, battleSeed := Auth.MyAuth.serverIdOf serverName } ∧
      h.next = .doBattle ∧ h.Consumed := by
  rw [existingReply_battle cookie hn hs, c.authProcess_login sha256 (by decide), logIn,
    popHash_readTo cookie (by simp)]
  simp only [bind, Except.bind, if_true]
  rw [← List.append_nil (intImage _), popInt_readTo (isInt_serverIdOf serverName) (by simp)]
  exact ⟨_, rfl, rfl, if_neg (not_lt.mpr hs.le), consumed_readTo ..⟩

end TestClient

/-! ## All packets -/

/-- The fields of each packet are read as they were put in, and the packet to its end. -/
structure Agreement (sha256 : List Byte → Hash) (c : TestClient) : Prop where
  games : ∀ calls, ∃ g, run MyGame.step MyGame.fresh calls = some g ∧ IsGame g
  /-- the last actions lose nothing as bytes -/
  actions : ∀ g, IsGame g → 0 ≤ g.nowRound → ∀ i,
    (shown (g.players i)).action.toNat = (g.players i).prevAction.toNat
  /-- `GAME_ROUND_RESULT` and `GAME_PLAYER_ALL_CONNECTED` -/
  roundResult : ∀ msg ∈ [gameRoundResult, gamePlayerAllConnected], ∀ g, IsGame g →
    ∀ (side : Fin 2) (nextAction : Int),
      ∃ h, c.battleProcess nextAction (Arena.roundResult msg g side.val) = .ok h ∧
        h.client = c.afterRound g side ∧ h.Consumed
  /-- `GAME_PLAYER_INFO_NAME`, with the records `MatchTransfer` has read -/
  playerNames : ∀ (a : Battle.Answers) (l r : Record), a.connection = true →
    a.info = ⟨.ok l, .ok r⟩ → IsRecord l → IsRecord r →
    ∃ infos, a.playerInfos = .ok infos ∧ ∀ info : GameInfo, info.playerInfos = infos →
      ∀ (side : Fin 2) (nextAction : Int),
        ∃ h, c.battleProcess nextAction (BattleServer.playerNames info side.val) = .ok h ∧
          h.client = { c with
            player := (⟨l, r⟩ : Sides Record).get side.val
            enemy := (⟨l, r⟩ : Sides Record).get (1 - side : Fin 2).val } ∧ h.Consumed
  /-- `SUCCESS` -/
  openSession : ∀ (a : Auth.Answers) (cookie : Hash) (s : Socket), a.setInfo = true →
    s.accepts = true → ∃ q : ByteQueue,
      (exec (Auth.MyAuth.openSession a cookie) s).2.sent = s.sent ++ [q.bytes] ∧
      ∃ h, c.authProcess sha256 q = .ok h ∧
        h.client = { c with cookie := cookie, battleSeed := -1 } ∧ h.next = .doMatch ∧ h.Consumed
  /-- `ERR_EXIST_ACCOUNT_MATCH` -/
  existingMatch : ∀ cookie : Hash,
    ∃ h, c.authProcess sha256 (Auth.MyAuth.existingReply cookie Auth.keywordMatch) = .ok h ∧
      h.client = { c with cookie := cookie, battleSeed := -1 } ∧ h.next = .doMatch ∧ h.Consumed
  /-- `ERR_EXIST_ACCOUNT_BATTLE` -/
  existingBattle : ∀ (cookie : Hash) (serverName : String), serverName ≠ Auth.keywordMatch →
    0 < Auth.MyAuth.serverIdOf serverName →
    ∃ h, c.authProcess sha256 (Auth.MyAuth.existingReply cookie serverName) = .ok h ∧
      h.client = { c with cookie := cookie, battleSeed := Auth.MyAuth.serverIdOf serverName } ∧
      h.next = .doBattle ∧ h.Consumed
  /-- `ANS_MATCHMADE` -/
  matchMade : ∀ battleServer : Seed, IsInt battleServer →
    ∃ h, c.matchProcess (Match.Located.matchMade battleServer) = .ok h ∧
      h.client = { c with battleSeed := battleServer } ∧ h.next = .doBattle ∧ h.Consumed
  /-- `GAME_PLAYER_INFO`: what is left are the pairs -/
  infoPacket : ∀ (r : Record) (achieves : List (AchievementId × Int)), IsRecord r →
    ∃ h, c.matchProcess (Match.MyMatch.infoPacket r achieves) = .ok h ∧
      h.client = { c with player := r } ∧
      h.packet.bytes.drop h.packet.ptr = achieves.flatMap pairImage
  /-- a pair has twelve bytes and gives the id and the count back -/
  pairs : ∀ p : AchievementId × Int, p.1 < 2 ^ 64 → IsInt p.2 → (pairImage p).length = 12 ∧
    ofImage ((pairImage p).take 8) = p.1 ∧ intOfImage ((pairImage p).drop 8) = p.2

/-- **Servers and client agree on the layouts.** -/
theorem servers_and_client_agree (sha256 : List Byte → Hash) (c : TestClient) :
    Agreement sha256 c where
  games := run_isGame
  actions g hg hr i := UInt8.toNat_ofNat_of_lt' (hg.prevAction hr i)
  roundResult msg hm g hg side nextAction := c.battleProcess_roundResult hm hg side nextAction
  playerNames a l r hc hi hl hr := by
    refine ⟨⟨packRecord l, packRecord r⟩, ?_, fun info h side nextAction =>
      c.battleProcess_playerNames hl hr h side nextAction⟩
    rw [Answers.playerInfos, hc, hi]
    rfl
  openSession a cookie s ha hs := by
    refine ⟨readTo [] ([success] ++ cookie.toList), ?_, c.authProcess_cookie sha256 (by decide) cookie⟩
    have hexec : exec (Auth.MyAuth.openSession a cookie) s =
        (.ok (), (s.send (readTo [] ([success] ++ cookie.toList))).close) := by
      rw [Auth.MyAuth.openSession, ha]
      rfl
    rw [hexec, Socket.send, if_pos hs]
    rfl
  existingMatch cookie := by
    rw [existingReply_match]
    exact c.authProcess_cookie sha256 (by decide) cookie
  existingBattle cookie _ hn hs := c.authProcess_existingReply sha256 cookie hn hs
  matchMade _ hs := c.matchProcess_matchMade hs
  infoPacket _ achieves hr := c.matchProcess_infoPacket hr achieves
  pairs p ha hn := by
    refine ⟨by simp [pairImage], ?_, ?_⟩
    · rw [pairImage, List.take_left' (length_image 8 _)]
      exact ofImage_image ha
    · rw [pairImage, List.drop_left' (length_image 8 _)]
      exact intOfImage_intImage hn.1 hn.2

end DrgbServer.TestStress
