import DrgbServer.Battle.Round

/-! # Neither side has an advantage

A round is the same function of both players, so exchanging the players exchanges what
comes of it. Only the order of the events differs: those of player 0 come first. -/
namespace DrgbServer.Battle
open DrgbServer.Utils DrgbServer.Lib.Transition DrgbServer.Lib.History

namespace MyGame

/-- The players exchange their data; each keeps the other one as target. -/
def swap (g : MyGame) : MyGame where
  nowRound := g.nowRound
  players i := { g.players (1 - i) with target := (g.players i).target }
  achievements := g.achievements.map fun e => (1 - e.1, e.2)

def Call.swap : Call → Call
  | .action side act => .action (1 - side) act
  | .process => .process
  | .getAchievement => .getAchievement

/-- The events of one side, in order. -/
def eventsOf (i : Fin 2) (events : List (Fin 2 × AchievementId × Int)) :
    List (AchievementId × Int) :=
  events.filterMap fun e => if e.1 = i then some e.2 else none

/-- The winner under the exchanged numbers. -/
def otherSide (winner : Int) : Int := if winner < 0 then winner else 1 - winner

/-- `h` is `g` with the players exchanged, apart from the events. -/
structure Mirrored (g h : MyGame) : Prop where
  target : ∀ i, (g.players i).target = 1 - i
  players : ∀ i, h.players i = { g.players (1 - i) with target := 1 - i }
  round : h.nowRound = g.nowRound

variable {g h : MyGame} {i : Fin 2}

theorem mirrored_swap (ht : ∀ i, (g.players i).target = 1 - i) : Mirrored g g.swap where
  target := ht
  players i := by simp only [swap, ht]
  round := rfl

theorem Mirrored.target' (m : Mirrored g h) (i : Fin 2) : (h.players i).target = 1 - i := by
  rw [m.players]

theorem Mirrored.swap_players (m : Mirrored g h) : h.players = g.swap.players := by
  funext i
  rw [m.players]
  simp only [swap, m.target]

theorem Mirrored.getWinner (m : Mirrored g h) : h.getWinner = otherSide g.getWinner := by
  have h0 : (h.players 0).health = (g.players 1).health := by
    rw [m.players]
    rfl
  have h1 : (h.players 1).health = (g.players 0).health := by
    rw [m.players]
    rfl
  rw [getWinner_eq, getWinner_eq, h0, h1]
  by_cases hl : 0 < (g.players 0).health
  · by_cases hr : 0 < (g.players 1).health
    · simp [hl, hr, otherSide]
    · simp [hl, hr, otherSide]
  · by_cases hr : 0 < (g.players 1).health
    · simp [hl, hr, otherSide]
    · simp [hl, hr, otherSide]

theorem Mirrored.isOver (m : Mirrored g h) : h.isOver = g.isOver := by
  have hiff : 0 ≤ otherSide g.getWinner ↔ 0 ≤ g.getWinner := by
    rcases getWinner_range g with hw | hw | hw <;> rw [hw] <;> decide
  rw [MyGame.isOver, MyGame.isOver, m.getWinner, m.round]
  simp only [hiff]

/-! ## A round -/

theorem Mirrored.rounds (m : Mirrored g h) : Mirrored g.round h.round := by
  obtain ⟨hp, hr, -⟩ := round_eq m.target
  obtain ⟨hp', hr', -⟩ := round_eq m.target'
  refine ⟨?_, ?_, ?_⟩
  · intro i
    rw [hp]
    exact m.target i
  · intro i
    rw [hp', hp, m.players i, m.players (1 - i)]
    rfl
  · rw [hr, hr', m.round]

theorem eventsOf_append (i : Fin 2) (as bs : List (Fin 2 × AchievementId × Int)) :
    eventsOf i (as ++ bs) = eventsOf i as ++ eventsOf i bs := List.filterMap_append

theorem eventsOf_self (i : Fin 2) (es : List (AchievementId × Int)) :
    eventsOf i (es.map (i, ·)) = es := by
  rw [eventsOf, List.filterMap_map]
  exact (List.filterMap_congr fun e _ => if_pos rfl).trans List.filterMap_some

theorem eventsOf_other (i : Fin 2) (es : List (AchievementId × Int)) :
    eventsOf i (es.map (1 - i, ·)) = [] := by
  rw [eventsOf, List.filterMap_map]
  exact List.filterMap_eq_nil_iff.mpr fun e _ => if_neg (one_sub_ne i)

theorem eventsOf_roundEvents (g : MyGame) (i : Fin 2) :
    eventsOf i g.roundEvents = (g.players i).earned (g.players (1 - i)) := by
  revert i
  refine forall_side 0 ?_ ?_
  · rw [roundEvents, eventsOf_append, eventsOf_self]
    show _ ++ eventsOf 0 (List.map (1 - 0, ·) _) = _
    rw [eventsOf_other, List.append_nil]
    rfl
  · show eventsOf 1 _ = (g.players 1).earned (g.players 0)
    rw [roundEvents, eventsOf_append, eventsOf_self]
    show eventsOf 1 (List.map (1 - 1, ·) _) ++ _ = _
    rw [eventsOf_other, List.nil_append]

/-- The events of a side are those of the other side in the exchanged game. -/
theorem Mirrored.events (m : Mirrored g h) (i : Fin 2) :
    eventsOf i h.roundEvents = eventsOf (1 - i) g.roundEvents := by
  rw [eventsOf_roundEvents, eventsOf_roundEvents, m.players i, m.players (1 - i), one_sub_one_sub]
  rfl

/-! ## A call -/

theorem Mirrored.process (m : Mirrored g h) :
    h.process.1 = g.process.1 ∧ Mirrored g.process.2 h.process.2 := by
  cases hover : g.isOver with
  | true =>
    rw [process_of_isOver hover, process_of_isOver (m.isOver.trans hover)]
    exact ⟨rfl, m⟩
  | false =>
    rw [process_of_not_isOver hover, process_of_not_isOver (m.isOver.trans hover)]
    exact ⟨m.rounds.isOver, m.rounds⟩

theorem Mirrored.appended (m : Mirrored g h) (c : Call) (i : Fin 2) :
    eventsOf i (h.appended c.swap) = eventsOf (1 - i) (g.appended c) := by
  cases c with
  | action side act => rfl
  | getAchievement => rfl
  | process =>
    show eventsOf i (h.appended .process) = _
    rw [appended_process m.target, appended_process m.target', m.isOver]
    split
    · rfl
    · exact m.events i

/-- A reserved action, on the other side. -/
theorem Mirrored.setAction (m : Mirrored g h) (side : Fin 2) (a : BitVec 32) :
    Mirrored (g.setPlayer side { g.players side with action := a })
      (h.setPlayer (1 - side) { h.players (1 - side) with action := a }) where
  target := by
    refine forall_side side ?_ ?_
    · rw [setPlayer_self]
      exact m.target side
    · rw [setPlayer_other]
      exact m.target (1 - side)
  players := by
    refine forall_side (1 - side) ?_ ?_
    · rw [setPlayer_self, one_sub_one_sub, setPlayer_self, m.players, one_sub_one_sub]
    · rw [setPlayer_other, one_sub_one_sub, setPlayer_other]
      exact m.players side
  round := m.round

/-- The calls exchange what they do with the side they are for. -/
theorem Mirrored.step (m : Mirrored g h) (c : Call) :
    ∃ g' h', MyGame.step g c = some g' ∧ MyGame.step h c.swap = some h' ∧ Mirrored g' h' := by
  cases c with
  | action side a =>
    have haccept : (h.players (1 - side)).accepts a = (g.players side).accepts a := by
      rw [m.players, one_sub_one_sub]
      rfl
    simp only [Call.swap, MyGame.step, action_eq, haccept]
    cases (g.players side).accepts a with
    | true => exact ⟨_, _, rfl, rfl, m.setAction side a⟩
    | false => exact ⟨_, _, rfl, rfl, m⟩
  | process => exact ⟨_, _, rfl, rfl, m.process.2⟩
  | getAchievement =>
    refine ⟨_, _, rfl, rfl, ?_, ?_, ?_⟩
    · intro i
      rw [getAchievement_players]
      exact m.target i
    · intro i
      rw [getAchievement_players, getAchievement_players]
      exact m.players i
    · rw [getAchievement_nowRound, getAchievement_nowRound, m.round]

/-! ## A run -/

theorem Mirrored.run (m : Mirrored g h) (calls : List Call) :
    ∃ g' h', run MyGame.step g calls = some g' ∧
      run MyGame.step h (calls.map Call.swap) = some h' ∧ Mirrored g' h' ∧
      ∀ i, eventsOf i (h.emitted (calls.map Call.swap)) = eventsOf (1 - i) (g.emitted calls) := by
  induction calls generalizing g h with
  | nil => exact ⟨g, h, rfl, rfl, m, fun _ => rfl⟩
  | cons c rest ih =>
    obtain ⟨g₁, h₁, hg₁, hh₁, m₁⟩ := m.step c
    obtain ⟨g₂, h₂, hg₂, hh₂, m₂, hev⟩ := ih m₁
    refine ⟨g₂, h₂, ?_, ?_, m₂, ?_⟩
    · rw [run_cons_of_some hg₁, hg₂]
    · rw [List.map_cons, run_cons_of_some hh₁, hh₂]
    · intro i
      rw [List.map_cons, emitted, emitted, collect_cons hg₁, collect_cons hh₁, eventsOf_append,
        eventsOf_append, m.appended c i]
      exact congrArg _ (hev i)

/-- **Side fairness.** `process` of the exchanged game returns the same and leaves the
exchanged players and the same round; the events it appends for a side are those
appended for the other one. Over a whole run, exchanged calls on the exchanged game
leave the players exchanged and the winner on the other side. -/
theorem exchanged_players_exchange_the_outcome (ht : ∀ i, (g.players i).target = 1 - i) :
    g.swap.process.1 = g.process.1 ∧
      g.swap.process.2.players = g.process.2.swap.players ∧
      g.swap.process.2.nowRound = g.process.2.nowRound ∧
      (g.process.2.achievements = g.achievements ++ g.appended .process ∧
        g.swap.process.2.achievements = g.swap.achievements ++ g.swap.appended .process ∧
        ∀ i, eventsOf i (g.swap.appended .process) = eventsOf (1 - i) (g.appended .process)) ∧
      ∀ calls, ∃ h h', run step g calls = some h ∧
        run step g.swap (calls.map Call.swap) = some h' ∧
        h'.players = h.swap.players ∧ h'.nowRound = h.nowRound ∧
        h'.process.1 = h.process.1 ∧ h'.getWinner = otherSide h.getWinner ∧
        ∀ i, eventsOf i (g.swap.emitted (calls.map Call.swap)) =
          eventsOf (1 - i) (g.emitted calls) := by
  have m := mirrored_swap ht
  obtain ⟨hb, mp⟩ := m.process
  refine ⟨hb, mp.swap_players, mp.round, ⟨process_achievements ht,
    process_achievements m.target', fun i => m.appended .process i⟩, ?_⟩
  intro calls
  obtain ⟨h, h', hrun, hrun', mh, hev⟩ := m.run calls
  exact ⟨h, h', hrun, hrun', mh.swap_players, mh.round, mh.process.1, mh.getWinner, hev⟩

/-- Player 0 fires at a puncher of the last round. -/
def kneeling : MyGame where
  nowRound := 4
  players i := if i = 0 then ⟨fire, 1, 2, 1, meditate, 3⟩ else ⟨punch, 1, 1, 0, punch, 1⟩
  achievements := [(1, achievePunchAddiction, 1)]

theorem kneeling_exchanged :
    kneeling.getWinner = -1 ∧ kneeling.process.2.getWinner = 0 ∧
      kneeling.swap.process.2.getWinner = 1 ∧
      kneeling.swap.process.2.players = kneeling.process.2.swap.players :=
  ⟨by decide, by decide, by decide,
    (exchanged_players_exchange_the_outcome (g := kneeling) (by decide)).2.1⟩

end MyGame
end DrgbServer.Battle
