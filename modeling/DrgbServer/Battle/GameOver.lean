import DrgbServer.Battle.Round

/-! # The end of a game

`process` ends at three places: before a round when no round or only one player is left,
and after the round it plays. Over the reachable states all three say the same: a player
is dead or the last round has been played. From then on no call changes the outcome. -/
namespace DrgbServer.Battle
open DrgbServer.Utils DrgbServer.Lib.Transition

namespace MyGame

/-- The number of `process` calls. -/
def processes (calls : List Call) : Nat := calls.countP fun
  | .process => true
  | _ => false

/-- `h` is `g` but for the reserved actions and the events already fetched. -/
structure Settled (g h : MyGame) : Prop where
  players : ∀ i, h.players i = { g.players i with action := (h.players i).action }
  round : h.nowRound = g.nowRound

variable {g h : MyGame} {c : Call}

/-! ## The condition -/

/-- Over the reachable states a winner is there as soon as a player is dead. -/
theorem Inv.getWinner_neg_iff (hi : Inv g) : g.getWinner < 0 ↔ ∀ i, 0 < (g.players i).health := by
  have h0 := hi.health 0
  have h1 := hi.health 1
  have ha := hi.alive
  rw [getWinner_eq]
  constructor
  · intro hw
    refine forall_side 0 ?_ ?_
    · split_ifs at hw <;> omega
    · show 0 < (g.players 1).health
      split_ifs at hw <;> omega
  · intro hboth
    rw [if_pos (hboth 0), if_pos (hboth 1)]
    decide

theorem Inv.isOver_false_iff (hi : Inv g) :
    g.isOver = false ↔ (∀ i, 0 < (g.players i).health) ∧ g.nowRound < maxRound := by
  rw [← hi.getWinner_neg_iff, isOver, decide_eq_false_iff_not, not_or, not_le, not_le]

theorem Inv.getWinner_iff (hi : Inv g) : g.getWinner = -1 ↔ ∀ i, 0 < (g.players i).health := by
  rw [← hi.getWinner_neg_iff]
  rcases getWinner_range g with hw | hw | hw <;> rw [hw] <;> decide

/-! ## The rounds played -/

/-- As long as the game is running, each `process` has played a round. -/
def Counted (n : Nat) (g : MyGame) : Prop := g.isOver = true ∨ g.nowRound + 1 = n

theorem isOver_congr (hp : ∀ i, (h.players i).health = (g.players i).health)
    (hr : h.nowRound = g.nowRound) : h.isOver = g.isOver := by
  have hw : h.getWinner = g.getWinner := by
    rw [getWinner_eq, getWinner_eq, hp, hp]
  rw [isOver, isOver, hw, hr]

theorem Settled.isOver (hs : Settled g h) : h.isOver = g.isOver := by
  refine isOver_congr ?_ hs.round
  intro i
  rw [hs.players i]

/-- Every call but `process` leaves the game settled as it is. -/
theorem settled_of_step (hc : c ≠ .process) (hstep : step g c = some h) : Settled g h := by
  cases c with
  | process => exact absurd rfl hc
  | action side a =>
    rw [step, action_eq] at hstep
    obtain rfl := Option.some.inj hstep
    split
    · refine ⟨?_, rfl⟩
      refine forall_side side ?_ ?_
      · rw [setPlayer_self]
      · rw [setPlayer_other]
    · exact ⟨fun _ => rfl, rfl⟩
  | getAchievement =>
    obtain rfl := Option.some.inj hstep
    refine ⟨?_, getAchievement_nowRound g⟩
    intro i
    rw [getAchievement_players]

theorem process_counted (ht : ∀ i, (g.players i).target = 1 - i) {n : Nat} (hc : Counted n g) :
    Counted (n + 1) g.process.2 := by
  cases hover : g.isOver with
  | true =>
    rw [process_of_isOver hover]
    exact Or.inl hover
  | false =>
    rw [process_of_not_isOver hover]
    refine Or.inr ?_
    have hn : g.nowRound + 1 = n := hc.resolve_left (by rw [hover]; exact Bool.false_ne_true)
    rw [(round_eq ht).2.1, hn]
    rfl

theorem Settled.counted (hs : Settled g h) {n : Nat} (hc : Counted n g) : Counted n h := by
  rw [Counted, hs.isOver, hs.round]
  exact hc

/-- One more call. -/
theorem step_counted (hi : Inv g) {n : Nat} (hc : Counted n g) (hstep : step g c = some h) :
    Counted (n + processes [c]) h := by
  cases c with
  | process =>
    obtain rfl := Option.some.inj hstep
    exact process_counted hi.target hc
  | action side a => exact (settled_of_step (by simp) hstep).counted hc
  | getAchievement => exact (settled_of_step (by simp) hstep).counted hc

theorem processes_cons (c : Call) (rest : List Call) :
    processes (c :: rest) = processes [c] + processes rest := by
  have happend : c :: rest = [c] ++ rest := rfl
  rw [happend]
  exact List.countP_append

theorem run_counted (calls : List Call) (hi : Inv g) {n : Nat} (hc : Counted n g)
    (hrun : run step g calls = some h) : Counted (n + processes calls) h := by
  induction calls generalizing g n with
  | nil =>
    obtain rfl := Option.some.inj hrun
    exact hc
  | cons c rest ih =>
    obtain ⟨t, hstep, hit⟩ := step_inv g c hi
    rw [run_cons_of_some hstep] at hrun
    rw [processes_cons, ← Nat.add_assoc]
    exact ih hit (step_counted hi hc hstep) hrun

/-! ## Calls after the end -/

theorem Settled.refl (g : MyGame) : Settled g g := ⟨fun _ => rfl, rfl⟩

theorem Settled.trans {k : MyGame} (hs : Settled g h) (hs' : Settled h k) : Settled g k where
  players i := by rw [hs'.players i, hs.players i]
  round := hs'.round.trans hs.round

/-- Once the game is over, no call plays a round. -/
theorem over_step (hover : g.isOver = true) (hstep : step g c = some h) :
    Settled g h ∧ (c ≠ .getAchievement → h.achievements = g.achievements) := by
  cases c with
  | process =>
    obtain rfl := Option.some.inj hstep
    rw [process_of_isOver hover]
    exact ⟨Settled.refl g, fun _ => rfl⟩
  | action side a =>
    refine ⟨settled_of_step (by simp) hstep, ?_⟩
    intro _
    rw [step, action_eq] at hstep
    obtain rfl := Option.some.inj hstep
    split <;> rfl
  | getAchievement => exact ⟨settled_of_step (by simp) hstep, fun hne => absurd rfl hne⟩

theorem over_run (after : List Call) (hover : g.isOver = true) (hrun : run step g after = some h) :
    Settled g h ∧ (.getAchievement ∉ after → h.achievements = g.achievements) := by
  induction after generalizing g with
  | nil =>
    obtain rfl := Option.some.inj hrun
    exact ⟨Settled.refl g, fun _ => rfl⟩
  | cons c rest ih =>
    rw [run_cons] at hrun
    obtain ⟨t, hstep, hrest⟩ := Option.bind_eq_some_iff.mp hrun
    obtain ⟨hs, hq⟩ := over_step hover hstep
    obtain ⟨hs', hq'⟩ := ih (hs.isOver.trans hover) hrest
    refine ⟨hs.trans hs', ?_⟩
    intro hnot
    rw [List.mem_cons, not_or] at hnot
    exact (hq' hnot.2).trans (hq (Ne.symm hnot.1))

theorem Settled.getWinner (hs : Settled g h) : h.getWinner = g.getWinner := by
  have hh : ∀ i, (h.players i).health = (g.players i).health := by
    intro i
    rw [hs.players i]
  rw [getWinner_eq, getWinner_eq, hh, hh]

/-- **Game over is reached and stays.** After any calls on a fresh game: `process` returns
true if ten `process` calls came before; it returns false exactly when it leaves both players
alive and a round to play; and once it has returned true, whatever calls follow, every
`process` returns true and changes nothing, and nothing but reserved actions and fetched
events has changed. Then there is no winner iff both are alive. -/
theorem game_over_is_reached_and_absorbing (before : List Call) :
    ∃ g, run step fresh before = some g ∧
      (10 ≤ processes before → g.process.1 = true) ∧
      (g.process.1 = false ↔
        (∀ i, 0 < (g.process.2.players i).health) ∧ g.process.2.nowRound < maxRound) ∧
      (g.process.2.getWinner = -1 ↔ ∀ i, 0 < (g.process.2.players i).health) ∧
      (g.process.1 = true → ∀ after, ∃ h, run step g.process.2 after = some h ∧
        h.process = (true, h) ∧ Settled g.process.2 h ∧ h.getWinner = g.process.2.getWinner ∧
        (.getAchievement ∉ after → h.achievements = g.process.2.achievements)) := by
  obtain ⟨g, hg, hi⟩ := run_total step_inv before fresh_inv
  have hip : Inv g.process.2 := process_inv hi
  refine ⟨g, hg, ?_, ?_, hip.getWinner_iff, ?_⟩
  · intro hten
    have hc : Counted (0 + processes before) g := run_counted before fresh_inv (Or.inr rfl) hg
    rcases process_counted hi.target hc with hover | hround
    · rw [process_fst, hover]
    · rw [process_fst, isOver]
      exact decide_eq_true (Or.inr (by simp only [maxRound]; omega))
  · rw [process_fst]
    exact hip.isOver_false_iff
  · intro htrue after
    have hover : g.process.2.isOver = true := (process_fst g).symm.trans htrue
    obtain ⟨h, hh, -⟩ := run_total step_inv after hip
    obtain ⟨hs, hq⟩ := over_run after hover hh
    exact ⟨h, hh, process_of_isOver (hs.isOver.trans hover), hs, hs.getWinner, hq⟩

end MyGame
end DrgbServer.Battle
