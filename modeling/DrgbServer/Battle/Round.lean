import DrgbServer.Battle.MyGame
import DrgbServer.Lib.History

/-! # One round, seen from both sides

`process` plays the two turns one after the other on one state. A turn reads of the
other player the action, which no turn writes, and the health, which only this turn
writes. So what a round makes of a player is a function of the two players before it,
the same one for both sides. -/
namespace DrgbServer.Battle
open DrgbServer.Utils DrgbServer.Lib.History MyGame

namespace PlayerInfo

/-- The reserved action is in `required_energy` and there is energy for it. -/
def acts (p : PlayerInfo) : Bool := (requiredEnergy p.action).any fun e => decide (e ≤ p.energy)

/-- `Action` reserves `act` for the player. -/
def accepts (p : PlayerInfo) (act : BitVec 32) : Bool :=
  checkAction act && (requiredEnergy act).any fun e => decide (e ≤ p.energy)

/-- The streak a turn records. -/
def streak (p : PlayerInfo) : Int := if p.prevAction ≠ p.action then 1 else p.consecutive + 1

/-- The energy a turn leaves. -/
def spent (p : PlayerInfo) : Int := if p.acts then energyAfter p.action p.energy else p.energy

/-- What the turn of the opponent takes off the health. -/
def damage (p opponent : PlayerInfo) : Int :=
  if opponent.acts = true ∧ hits opponent.action p.action then 1 else 0

/-- The player after the two turns. -/
def played (p opponent : PlayerInfo) : PlayerInfo :=
  { p with
    health := p.health - p.damage opponent
    energy := p.spent
    prevAction := p.action
    consecutive := p.streak }

/-- The achievements the `switch` reports for a player with a streak, in order. -/
def reported (p opponent : PlayerInfo) (streak : Int) : List (AchievementId × Int) :=
  if p.action = meditate then
    if p.energy + 1 > maxEnergy then [(achieveMeditateAddiction, 1)] else []
  else if p.action = punch then
    (if opponent.action = punch then [(achieveDoppelganger, 1)] else []) ++
      [(achievePunchAddiction, streak)]
  else if p.action = fire then
    (if opponent.action = punch ∧ opponent.health ≤ 1 then [(achieveKneelinmysight, 1)] else []) ++
      (if opponent.action = fire then [(achieveDoppelganger, 1)] else []) ++
      [(achieveFireAddiction, 1)]
  else if p.action = guard then [(achieveGuardAddiction, streak)]
  else [(achieveEvadeAddiction, streak)]

/-- The achievements the turn reports. -/
def earned (p opponent : PlayerInfo) : List (AchievementId × Int) :=
  if p.acts then p.reported opponent p.streak else []

theorem acts_iff {p : PlayerInfo} :
    p.acts = true ↔ ∃ e, requiredEnergy p.action = some e ∧ e ≤ p.energy := by
  unfold acts
  cases requiredEnergy p.action with
  | none => simp
  | some e => simp

end PlayerInfo

namespace MyGame
variable {g : MyGame} {i : Fin 2}

theorem one_sub_one_sub (i : Fin 2) : 1 - (1 - i) = i := by
  revert i
  decide

/-- `Action` never throws: a valid action is in `required_energy`. -/
theorem action_eq (g : MyGame) (side : Fin 2) (a : BitVec 32) :
    g.action side a = .ok (if (g.players side).accepts a then
      g.setPlayer side { g.players side with action := a } else g) := by
  unfold action PlayerInfo.accepts
  by_cases hc : checkAction a = true
  · obtain ⟨e, he⟩ := requiredEnergy_isSome (checkAction_actions hc)
    simp only [hc, he, Bool.not_true, Bool.false_eq_true, if_false, Bool.true_and, Option.any_some,
      decide_eq_true_eq]
    split <;> rfl
  · simp [hc]

/-! ## The events of a turn -/

@[simp] theorem achieveProgress_achievements (g : MyGame) (i : Fin 2) (a : AchievementId)
    (c : Int) : (g.achieveProgress i a c).achievements = g.achievements ++ [(i, a, c)] := rfl

@[simp] theorem setPlayer_achievements (g : MyGame) (i : Fin 2) (p : PlayerInfo) :
    (g.setPlayer i p).achievements = g.achievements := rfl

/-- A fire that finds its target with the mask takes a point of health, and kneels a puncher. -/
theorem act_fire_achievements (g : MyGame) (i : Fin 2) (ha : (g.players i).action = fire) :
    (g.act i (1 - i) 2).achievements = g.achievements ++
      ((g.players i).reported (g.players (1 - i)) (g.players i).consecutive).map (i, ·) := by
  have hmf : fire ≠ meditate := by decide
  have hpf : fire ≠ punch := by decide
  simp only [act, PlayerInfo.reported, ha, hmf, hpf, if_true, if_false]
  have hmask : punch &&& 0x0b ≠ 0 := by decide
  have hpunch : ∀ b : BitVec 32, ¬ b &&& 0x0b ≠ 0 → b ≠ punch := by
    rintro b hb rfl
    exact hb hmask
  split_ifs <;> simp_all [setEnergy, setHealth]

theorem act_achievements (g : MyGame) (i : Fin 2) {e : Int}
    (he : requiredEnergy (g.players i).action = some e) :
    (g.act i (1 - i) e).achievements = g.achievements ++
      ((g.players i).reported (g.players (1 - i)) (g.players i).consecutive).map (i, ·) := by
  have hmp : punch ≠ meditate := by decide
  rcases requiredEnergy_cases he with ⟨ha, rfl⟩ | ⟨ha, rfl⟩ | ⟨ha, rfl⟩ | ⟨ha, rfl⟩ | ⟨ha, rfl⟩
  · simp only [act, PlayerInfo.reported, ha, if_true]
    split <;> simp [setEnergy]
  · simp [act, PlayerInfo.reported, ha, setEnergy, meditate, guard, punch, fire]
  · simp [act, PlayerInfo.reported, ha, setEnergy, meditate, guard, evade, punch, fire]
  · simp only [act, PlayerInfo.reported, ha, hmp, if_true, if_false]
    split_ifs <;> simp_all [setEnergy, setHealth]
  · exact act_fire_achievements g i ha

/-! ## A turn from any state -/

/-- What a turn does, whatever the reserved action. -/
structure Turned (g g' : MyGame) (i : Fin 2) : Prop where
  self : g'.players i = { g.players i with
    energy := (g.players i).spent
    prevAction := (g.players i).action
    consecutive := (g.players i).streak }
  other : g'.players (1 - i) = { g.players (1 - i) with
    health := (g.players (1 - i)).health - (g.players (1 - i)).damage (g.players i) }
  round : g'.nowRound = g.nowRound
  achievements : g'.achievements =
    g.achievements ++ ((g.players i).earned (g.players (1 - i))).map (i, ·)

theorem record_self (g : MyGame) (i : Fin 2) : (g.record i).players i = { g.players i with
    prevAction := (g.players i).action
    consecutive := (g.players i).streak } := by
  simp [record, PlayerInfo.streak]

theorem turned (ht : (g.players i).target = 1 - i) : Turned g (g.turn i) i := by
  have hother : (g.record i).players (1 - i) = g.players (1 - i) := by simp [record]
  by_cases ha : (g.players i).acts = true
  · obtain ⟨e, he, hle⟩ := PlayerInfo.acts_iff.mp ha
    have hturn : g.turn i = (g.record i).act i (1 - i) e := by
      simp only [turn, record_self, he, ht]
      rw [if_neg (by omega)]
    have hact := turn_spec g i ht he hle
    refine ⟨?_, ?_, ?_, ?_⟩
    · rw [hact.self, record_self, PlayerInfo.spent, if_pos ha]
    · rw [hact.other, hother]
      simp only [PlayerInfo.damage, ha, true_and]
    · exact hact.round
    · rw [hturn, act_achievements (g.record i) i (by rw [record_self]; exact he), hother, record_self]
      simp only [PlayerInfo.earned, ha, if_true]
      rfl
  · have hturn : g.turn i = g.record i := by
      simp only [turn, record_self]
      cases hr : requiredEnergy (g.players i).action with
      | none => rfl
      | some e =>
        refine if_pos ?_
        by_contra hle
        exact ha (PlayerInfo.acts_iff.mpr ⟨e, hr, not_lt.mp hle⟩)
    rw [hturn]
    refine ⟨?_, ?_, rfl, ?_⟩
    · rw [record_self, PlayerInfo.spent, if_neg ha]
    · rw [hother]
      simp [PlayerInfo.damage, ha]
    · simp [PlayerInfo.earned, ha, record]

/-! ## The two turns -/

/-- The events of a round: those of player 0, then those of player 1. -/
def roundEvents (g : MyGame) : List (Fin 2 × AchievementId × Int) :=
  ((g.players 0).earned (g.players 1)).map (0, ·) ++ ((g.players 1).earned (g.players 0)).map (1, ·)

/-- **Both turns at once**: each player is left as `played` says of the two before the
round, and the events are those of the two turns. -/
theorem turns_eq (ht : ∀ i, (g.players i).target = 1 - i) :
    (∀ i, ((g.turn 0).turn 1).players i = (g.players i).played (g.players (1 - i))) ∧
      ((g.turn 0).turn 1).nowRound = g.nowRound ∧
      ((g.turn 0).turn 1).achievements = g.achievements ++ g.roundEvents := by
  have t₀ := turned (ht 0)
  have hself₀ := t₀.self
  have hother₀ : (g.turn 0).players 1 = { g.players 1 with
      health := (g.players 1).health - (g.players 1).damage (g.players 0) } := t₀.other
  have t₁ : Turned (g.turn 0) ((g.turn 0).turn 1) 1 := turned (by rw [hother₀]; exact ht 1)
  have hself₁ := t₁.self
  have hother₁ : ((g.turn 0).turn 1).players 0 = { (g.turn 0).players 0 with
      health := ((g.turn 0).players 0).health -
        ((g.turn 0).players 0).damage ((g.turn 0).players 1) } := t₁.other
  have hevents : ((g.turn 0).turn 1).achievements = (g.turn 0).achievements ++
      (((g.turn 0).players 1).earned ((g.turn 0).players 0)).map (1, ·) := t₁.achievements
  have hfirst : (g.turn 0).achievements = g.achievements ++
      ((g.players 0).earned (g.players 1)).map (0, ·) := t₀.achievements
  rw [hself₀] at hother₁
  refine ⟨?_, t₁.round.trans t₀.round, ?_⟩
  · refine forall_side 0 ?_ ?_
    · -- the turn of player 1 finds player 0 as his own turn has left him
      rw [hother₁, hother₀]
      rfl
    · show ((g.turn 0).turn 1).players 1 = (g.players 1).played (g.players 0)
      rw [hself₁, hother₀]
      rfl
  · rw [hevents, hfirst, List.append_assoc, hself₀, hother₀]
    rfl

/-- The game is over: a winner, or no round left. -/
def isOver (g : MyGame) : Bool := decide (0 ≤ g.getWinner ∨ maxRound ≤ g.nowRound)

/-- A round of `process`. -/
def round (g : MyGame) : MyGame :=
  ((({ g with nowRound := g.nowRound + 1 } : MyGame).turn 0).turn 1).initializeInput

theorem process_of_isOver (h : g.isOver = true) : g.process = (true, g) := by
  unfold process
  rcases of_decide_eq_true h with hw | hr
  · by_cases hr : maxRound ≤ g.nowRound
    · rw [if_pos hr]
    · rw [if_neg hr, if_pos hw]
  · rw [if_pos hr]

theorem process_of_not_isOver (h : g.isOver = false) : g.process = (g.round.isOver, g.round) := by
  have hn := of_decide_eq_false h
  rw [not_or] at hn
  rw [process, if_neg hn.2, if_neg hn.1]
  rfl

/-- `process` returns whether the game is over afterwards. -/
theorem process_fst (g : MyGame) : g.process.1 = g.process.2.isOver := by
  cases h : g.isOver with
  | true =>
    rw [process_of_isOver h]
    exact h.symm
  | false => rw [process_of_not_isOver h]

/-- **A round**, by both players: what they reserved is played and cleared. -/
theorem round_eq (ht : ∀ i, (g.players i).target = 1 - i) :
    (∀ i, g.round.players i =
        { (g.players i).played (g.players (1 - i)) with action := meditate }) ∧
      g.round.nowRound = g.nowRound + 1 ∧
      g.round.achievements = g.achievements ++ g.roundEvents := by
  obtain ⟨hp, hr, he⟩ := turns_eq (g := { g with nowRound := g.nowRound + 1 }) ht
  refine ⟨?_, hr, he⟩
  intro i
  have hi := hp i
  show { (_ : PlayerInfo) with action := meditate } = _
  rw [hi]

/-! ## The events of a run -/

/-- The events a call puts into the queue. -/
def appended (g : MyGame) : Call → List (Fin 2 × AchievementId × Int)
  | .process => g.process.2.achievements.drop g.achievements.length
  | _ => []

/-- The events the calls put into the queue. -/
def emitted (g : MyGame) (calls : List Call) : List (Fin 2 × AchievementId × Int) :=
  collect step appended g calls

theorem appended_process (ht : ∀ i, (g.players i).target = 1 - i) :
    g.appended .process = if g.isOver then [] else g.roundEvents := by
  cases hover : g.isOver with
  | true => simp [appended, process_of_isOver hover]
  | false => simp [appended, process_of_not_isOver hover, (round_eq ht).2.2]

theorem process_achievements (ht : ∀ i, (g.players i).target = 1 - i) :
    g.process.2.achievements = g.achievements ++ g.appended .process := by
  rw [appended_process ht]
  cases hover : g.isOver with
  | true => simp [process_of_isOver hover]
  | false => simp [process_of_not_isOver hover, (round_eq ht).2.2]

@[simp] theorem getAchievement_players (g : MyGame) : g.getAchievement.2.players = g.players := by
  unfold getAchievement
  split <;> rfl

@[simp] theorem getAchievement_nowRound (g : MyGame) :
    g.getAchievement.2.nowRound = g.nowRound := by
  unfold getAchievement
  split <;> rfl

end MyGame
end DrgbServer.Battle
