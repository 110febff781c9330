import DrgbServer.Lib.Transition
import DrgbServer.Utils.MyTypes

/-! # `MyGame`: one battle of two players

Actions are 32-bit integers with one bit set per action kind; the bit masks of
the hit rules and the popcount of `CheckAction` are taken on them as they are.
`process` plays one round: each player's reserved action in turn, player 0
first, on the state the other's turn has already changed. -/
namespace DrgbServer.Battle
open DrgbServer.Utils DrgbServer.Lib.Transition

structure PlayerInfo where
  action : BitVec 32
  health : Int
  energy : Int
  target : Fin 2
  prevAction : BitVec 32
  consecutive : Int
deriving DecidableEq

structure MyGame where
  nowRound : Int
  players : Fin 2 → PlayerInfo
  /-- side, achievement and counter of each event not yet fetched -/
  achievements : List (Fin 2 × AchievementId × Int)
deriving DecidableEq

namespace MyGame

def maxHealth : Int := 1
def maxEnergy : Int := 2
def maxRound : Int := 10

def meditate : BitVec 32 := 1
def guard : BitVec 32 := 2
def evade : BitVec 32 := 4
def punch : BitVec 32 := 8
def fire : BitVec 32 := 16

def achieveMeditateAddiction : AchievementId := 2
def achieveGuardAddiction : AchievementId := 3
def achieveEvadeAddiction : AchievementId := 4
def achievePunchAddiction : AchievementId := 5
def achieveFireAddiction : AchievementId := 6
def achieveKneelinmysight : AchievementId := 12
def achieveDoppelganger : AchievementId := 13

/-- The map `required_energy`; `none` where it has no entry. -/
def requiredEnergy (action : BitVec 32) : Option Int :=
  if action = meditate then some 0
  else if action = guard then some 0
  else if action = evade then some 1
  else if action = punch then some 1
  else if action = fire then some 2
  else none

/-- The constructor. -/
def fresh : MyGame where
  nowRound := -1
  players i := ⟨meditate, maxHealth, 0, 1 - i, -1, 0⟩
  achievements := []

def popcount (x : BitVec 32) : Nat := (List.range 32).countP x.getLsbD

def checkAction (action : BitVec 32) : Bool :=
  if action &&& ~~~0x1F#32 ≠ 0 then false
  else if popcount action ≠ 1 then false
  else true

def setPlayer (g : MyGame) (i : Fin 2) (p : PlayerInfo) : MyGame :=
  { g with players := Function.update g.players i p }

/-- The player with an index. -/
def playerOf (side : Int) : Fin 2 := if side = 0 then 0 else 1

/-- `required_energy.at` throws where the map has no entry. -/
def action (g : MyGame) (side : Fin 2) (act : BitVec 32) : Except Exn MyGame :=
  if !checkAction act then .ok g
  else match requiredEnergy act with
    | none => .error (.outOfRange "map::at")
    | some e =>
      if e ≤ (g.players side).energy then
        .ok (g.setPlayer side { g.players side with action := act })
      else .ok g

/-- The loop of `GetWinner` over the players from `i` on, with the winner so far. -/
def winnerFrom (g : MyGame) : List (Fin 2) → Int → Int
  | [], winner => winner
  | i :: rest, winner =>
    if 0 < (g.players i).health then
      if 0 ≤ winner then -1 else winnerFrom g rest i.val
    else winnerFrom g rest winner

def getWinner (g : MyGame) : Int := winnerFrom g [0, 1] (-1)

def achieveProgress (g : MyGame) (side : Fin 2) (achieve : AchievementId) (count : Int) : MyGame :=
  { g with achievements := g.achievements ++ [(side, achieve, count)] }

def setEnergy (g : MyGame) (i : Fin 2) (e : Int) : MyGame :=
  g.setPlayer i { g.players i with energy := e }

def setHealth (g : MyGame) (i : Fin 2) (h : Int) : MyGame :=
  g.setPlayer i { g.players i with health := h }

/-- The streak bookkeeping at the head of the loop of `process`. -/
def record (g : MyGame) (i : Fin 2) : MyGame :=
  let p := g.players i
  g.setPlayer i { p with
    prevAction := p.action
    consecutive := if p.prevAction ≠ p.action then 1 else p.consecutive + 1 }

/-- The `switch` of `process` for player `i` and the energy it takes. A value
that is no action leaves the switch through `continue`. -/
def act (g : MyGame) (i target : Fin 2) (useEnergy : Int) : MyGame :=
  let a := (g.players i).action
  let streak := (g.players i).consecutive
  let pay (g : MyGame) := g.setEnergy i ((g.players i).energy - useEnergy)
  if a = meditate then
    let energy := (g.players i).energy + 1
    if energy > maxEnergy then
      pay ((g.achieveProgress i achieveMeditateAddiction 1).setEnergy i maxEnergy)
    else pay (g.setEnergy i energy)
  else if a = punch then
    let g := if (g.players target).action &&& 0x01 ≠ 0 then
        g.setHealth target ((g.players target).health - 1) else g
    let g := if (g.players target).action = a then
        g.achieveProgress i achieveDoppelganger 1 else g
    pay (g.achieveProgress i achievePunchAddiction streak)
  else if a = fire then
    let g := if (g.players target).action &&& 0x0b ≠ 0 then
        let g := g.setHealth target ((g.players target).health - 1)
        if (g.players target).health ≤ 0 ∧ (g.players target).action = punch then
          g.achieveProgress i achieveKneelinmysight 1
        else g
      else g
    let g := if (g.players target).action = a then
        g.achieveProgress i achieveDoppelganger 1 else g
    pay (g.achieveProgress i achieveFireAddiction 1)
  else if a = guard then pay (g.achieveProgress i achieveGuardAddiction streak)
  else if a = evade then pay (g.achieveProgress i achieveEvadeAddiction streak)
  else g

/-- One round of the loop of `process`. -/
def turn (g : MyGame) (i : Fin 2) : MyGame :=
  let target := (g.players i).target
  let g := g.record i
  match requiredEnergy (g.players i).action with
  | none => g
  | some useEnergy =>
    if (g.players i).energy < useEnergy then g else g.act i target useEnergy

/-- The loop that clears the reserved actions. -/
def initializeInput (g : MyGame) : MyGame :=
  { g with players := fun i => { g.players i with action := meditate } }

def process (g : MyGame) : Bool × MyGame :=
  if maxRound ≤ g.nowRound then (true, g)
  else if 0 ≤ g.getWinner then (true, g)
  else
    let g := { g with nowRound := g.nowRound + 1 }
    let g := ((g.turn 0).turn 1).initializeInput
    (decide (0 ≤ g.getWinner ∨ maxRound ≤ g.nowRound), g)

/-- `none` when the queue is empty. -/
def getAchievement (g : MyGame) : Option (Fin 2 × AchievementId × Int) × MyGame :=
  match g.achievements with
  | [] => (none, g)
  | a :: rest => (some a, { g with achievements := rest })

/-- The last action as a byte, the health and the energy of a side. -/
def getPlayerInfo (g : MyGame) (side : Int) : Byte × Int × Int :=
  if side < 0 ∨ side > 1 then (0, -1, -1)
  else
    let player := g.players (playerOf side)
    (UInt8.ofNat player.prevAction.toNat, player.health, player.energy)

/-! ## Which integers are actions -/

/-- The five action kinds. -/
def actions : List (BitVec 32) := [meditate, guard, evade, punch, fire]

theorem requiredEnergy_isSome {a : BitVec 32} (h : a ∈ actions) :
    ∃ e, requiredEnergy a = some e := by
  simp only [actions, List.mem_cons, List.not_mem_nil, or_false] at h
  rcases h with rfl | rfl | rfl | rfl | rfl <;> exact ⟨_, rfl⟩

theorem requiredEnergy_cases {a : BitVec 32} {e : Int} (h : requiredEnergy a = some e) :
    (a = meditate ∧ e = 0) ∨ (a = guard ∧ e = 0) ∨ (a = evade ∧ e = 1) ∨
      (a = punch ∧ e = 1) ∨ (a = fire ∧ e = 2) := by
  unfold requiredEnergy at h
  split_ifs at h <;> simp_all

/-- A value below 32 with a single bit is one of the five kinds. -/
theorem checkAction_actions {a : BitVec 32} (h : checkAction a = true) : a ∈ actions := by
  unfold checkAction at h
  split at h
  · cases h
  · next hmask =>
    have hlow : a = BitVec.ofNat 32 (a.toNat % 32) := by
      have hm : a &&& ~~~0x1F#32 = 0#32 := by simpa using hmask
      have hsplit : ∀ m : BitVec 32, a = (a &&& m) ||| (a &&& ~~~m) := by
        intro m; ext i hi; simp; cases a[i] <;> simp
      have hsplit := hsplit 0x1F#32
      rw [hm, BitVec.or_zero] at hsplit
      have hand : a &&& 0x1F#32 = BitVec.ofNat 32 (a.toNat % 32) := by
        apply BitVec.eq_of_toNat_eq
        rw [BitVec.toNat_and, BitVec.toNat_ofNat, BitVec.toNat_ofNat,
          show 31 % 2 ^ 32 = 2 ^ 5 - 1 from rfl, Nat.and_two_pow_sub_one_eq_mod]
        omega
      exact hsplit.trans hand
    have hall : ∀ n : Fin 32, popcount (BitVec.ofNat 32 n) = 1 → BitVec.ofNat 32 n ∈ actions := by
      decide
    split at h
    · cases h
    · next hp =>
      have hp' : popcount a = 1 := not_ne_iff.mp hp
      rw [hlow] at hp' ⊢
      exact hall ⟨a.toNat % 32, Nat.mod_lt _ (by decide)⟩ hp'

/-! ## What a turn changes -/

/-- Whether an attack with `a` hits a player who acts `b`. -/
def hits (a b : BitVec 32) : Prop :=
  (a = punch ∧ b &&& 0x01 ≠ 0) ∨ (a = fire ∧ b &&& 0x0b ≠ 0)

instance (a b : BitVec 32) : Decidable (hits a b) :=
  inferInstanceAs (Decidable ((a = punch ∧ b &&& 0x01 ≠ 0) ∨ (a = fire ∧ b &&& 0x0b ≠ 0)))

/-- The energy of a player with `energy` after acting `a`. -/
def energyAfter (a : BitVec 32) (energy : Int) : Int :=
  if a = meditate then min (energy + 1) maxEnergy else energy - (requiredEnergy a).getD 0

theorem one_sub_ne (i : Fin 2) : 1 - i ≠ i := by revert i; decide

@[simp] theorem setPlayer_self (g : MyGame) (i : Fin 2) (p : PlayerInfo) :
    (g.setPlayer i p).players i = p := by simp [setPlayer]

@[simp] theorem setPlayer_other (g : MyGame) (i : Fin 2) (p : PlayerInfo) :
    (g.setPlayer i p).players (1 - i) = g.players (1 - i) := by
  simp [setPlayer, Function.update_of_ne (one_sub_ne i)]

@[simp] theorem setPlayer_self_of_other (g : MyGame) (i : Fin 2) (p : PlayerInfo) :
    (g.setPlayer (1 - i) p).players i = g.players i := by
  simp [setPlayer, Function.update_of_ne (one_sub_ne i).symm]

@[simp] theorem setPlayer_nowRound (g : MyGame) (i : Fin 2) (p : PlayerInfo) :
    (g.setPlayer i p).nowRound = g.nowRound := rfl

@[simp] theorem achieveProgress_players (g : MyGame) (i : Fin 2) (a : AchievementId) (c : Int) :
    (g.achieveProgress i a c).players = g.players := rfl

@[simp] theorem achieveProgress_nowRound (g : MyGame) (i : Fin 2) (a : AchievementId) (c : Int) :
    (g.achieveProgress i a c).nowRound = g.nowRound := rfl

@[simp] theorem hits_meditate (b : BitVec 32) : ¬ hits meditate b := by
  simp [hits, meditate, punch, fire]

@[simp] theorem hits_guard (b : BitVec 32) : ¬ hits guard b := by
  simp [hits, guard, punch, fire]

@[simp] theorem hits_evade (b : BitVec 32) : ¬ hits evade b := by
  simp [hits, evade, punch, fire]

theorem hits_punch (b : BitVec 32) : hits punch b ↔ b &&& 0x01 ≠ 0 := by
  simp [hits, punch, fire]

theorem hits_fire (b : BitVec 32) : hits fire b ↔ b &&& 0x0b ≠ 0 := by
  simp [hits, punch, fire]

/-- What the switch does to the two players: the acting one is left with
`energy`, the other one loses a point of health where he is `hit`. -/
structure Acted (g g' : MyGame) (i : Fin 2) (energy : Int) (hit : Prop) [Decidable hit] : Prop where
  self : g'.players i = { g.players i with energy := energy }
  other : g'.players (1 - i) = { g.players (1 - i) with
    health := (g.players (1 - i)).health - if hit then 1 else 0 }
  round : g'.nowRound = g.nowRound

theorem act_meditate (g : MyGame) (i : Fin 2) (ha : (g.players i).action = meditate) :
    Acted g (g.act i (1 - i) 0) i (energyAfter meditate (g.players i).energy)
      (hits meditate (g.players (1 - i)).action) := by
  have hact : g.act i (1 - i) 0 = if (g.players i).energy + 1 > maxEnergy then
      ((g.achieveProgress i achieveMeditateAddiction 1).setEnergy i maxEnergy).setEnergy i maxEnergy
    else (g.setEnergy i ((g.players i).energy + 1)).setEnergy i ((g.players i).energy + 1) := by
    simp [act, ha, setEnergy]
  rw [hact]
  have henergy : energyAfter meditate (g.players i).energy =
      if (g.players i).energy + 1 > maxEnergy then maxEnergy else (g.players i).energy + 1 := by
    simp only [energyAfter, if_true]; split <;> omega
  rw [henergy]
  split <;> exact ⟨by simp [setEnergy], by simp [setEnergy], by simp [setEnergy]⟩

theorem act_guard (g : MyGame) (i : Fin 2) (ha : (g.players i).action = guard) :
    Acted g (g.act i (1 - i) 0) i (energyAfter guard (g.players i).energy)
      (hits guard (g.players (1 - i)).action) := by
  have hact : g.act i (1 - i) 0 = (g.achieveProgress i achieveGuardAddiction
      (g.players i).consecutive).setEnergy i ((g.players i).energy - 0) := by
    simp [act, ha, meditate, guard, punch, fire]
  rw [hact]
  exact ⟨by simp [setEnergy, energyAfter, requiredEnergy, guard, meditate],
    by simp [setEnergy], by simp [setEnergy]⟩

theorem act_evade (g : MyGame) (i : Fin 2) (ha : (g.players i).action = evade) :
    Acted g (g.act i (1 - i) 1) i (energyAfter evade (g.players i).energy)
      (hits evade (g.players (1 - i)).action) := by
  have hact : g.act i (1 - i) 1 = (g.achieveProgress i achieveEvadeAddiction
      (g.players i).consecutive).setEnergy i ((g.players i).energy - 1) := by
    simp [act, ha, meditate, guard, evade, punch, fire]
  rw [hact]
  exact ⟨by simp [setEnergy, energyAfter, requiredEnergy, evade, meditate, guard],
    by simp [setEnergy], by simp [setEnergy]⟩

theorem act_punch (g : MyGame) (i : Fin 2) (ha : (g.players i).action = punch) :
    Acted g (g.act i (1 - i) 1) i (energyAfter punch (g.players i).energy)
      (hits punch (g.players (1 - i)).action) := by
  have henergy : energyAfter punch (g.players i).energy = (g.players i).energy - 1 := rfl
  have hmeditate : punch ≠ meditate := by decide
  simp only [hits_punch, henergy]
  refine ⟨?_, ?_, ?_⟩ <;>
    simp only [act, ha, hmeditate, if_false, if_true] <;>
    split_ifs <;> simp [setEnergy, setHealth, ha]

theorem act_fire (g : MyGame) (i : Fin 2) (ha : (g.players i).action = fire) :
    Acted g (g.act i (1 - i) 2) i (energyAfter fire (g.players i).energy)
      (hits fire (g.players (1 - i)).action) := by
  have henergy : energyAfter fire (g.players i).energy = (g.players i).energy - 2 := rfl
  have hmeditate : fire ≠ meditate := by decide
  have hpunch : fire ≠ punch := by decide
  simp only [hits_fire, henergy]
  refine ⟨?_, ?_, ?_⟩ <;>
    simp only [act, ha, hmeditate, hpunch, if_false, if_true] <;>
    split_ifs <;> simp [setEnergy, setHealth, ha]

theorem act_spec (g : MyGame) (i : Fin 2) {e : Int}
    (he : requiredEnergy (g.players i).action = some e) :
    Acted g (g.act i (1 - i) e) i (energyAfter (g.players i).action (g.players i).energy)
      (hits (g.players i).action (g.players (1 - i)).action) := by
  rcases requiredEnergy_cases he with ⟨ha, rfl⟩ | ⟨ha, rfl⟩ | ⟨ha, rfl⟩ | ⟨ha, rfl⟩ | ⟨ha, rfl⟩
  · rw [ha]; exact act_meditate g i ha
  · rw [ha]; exact act_guard g i ha
  · rw [ha]; exact act_evade g i ha
  · rw [ha]; exact act_punch g i ha
  · rw [ha]; exact act_fire g i ha

/-- **A turn.** A player with an affordable action pays for it; the other one
loses a point of health exactly when the action hits, and nothing else. -/
theorem turn_spec (g : MyGame) (i : Fin 2) {e : Int} (ht : (g.players i).target = 1 - i)
    (he : requiredEnergy (g.players i).action = some e) (hle : e ≤ (g.players i).energy) :
    Acted (g.record i) (g.turn i) i (energyAfter (g.players i).action (g.players i).energy)
      (hits (g.players i).action (g.players (1 - i)).action) := by
  have hturn : g.turn i = (g.record i).act i (1 - i) e := by
    simp only [turn, record, setPlayer_self, he, ht]
    rw [if_neg (by omega)]
  rw [hturn]
  simpa [record] using act_spec (g.record i) i (e := e) (by simpa [record] using he)

/-! ## Runs -/

/-- A call on a game object. -/
inductive Call where
  | action (side : Fin 2) (act : BitVec 32)
  | process
  | getAchievement

/-- `none` when the call throws. -/
def step (g : MyGame) : Call → Option MyGame
  | .action side act => (g.action side act).toOption
  | .process => some g.process.2
  | .getAchievement => some g.getAchievement.2

/-- What holds of a game between calls. `target` is set by the constructor and
never written again. -/
structure Inv (g : MyGame) : Prop where
  energy : ∀ i, 0 ≤ (g.players i).energy ∧ (g.players i).energy ≤ maxEnergy
  health : ∀ i, (g.players i).health = 0 ∨ (g.players i).health = 1
  alive : ¬ ((g.players 0).health = 0 ∧ (g.players 1).health = 0)
  reserved : ∀ i, ∃ e, requiredEnergy (g.players i).action = some e ∧ e ≤ (g.players i).energy
  target : ∀ i, (g.players i).target = 1 - i
  round : -1 ≤ g.nowRound ∧ g.nowRound ≤ maxRound

theorem fresh_inv : Inv fresh where
  energy _ := by simp [fresh, maxEnergy]
  health _ := Or.inr rfl
  alive := by simp [fresh, maxHealth]
  reserved _ := ⟨0, rfl, Int.le_refl _⟩
  target _ := rfl
  round := by simp [fresh, maxRound]

theorem mem_actions_of_requiredEnergy {a : BitVec 32} {e : Int} (h : requiredEnergy a = some e) :
    a ∈ actions := by
  rcases requiredEnergy_cases h with ⟨rfl, -⟩ | ⟨rfl, -⟩ | ⟨rfl, -⟩ | ⟨rfl, -⟩ | ⟨rfl, -⟩ <;> decide

theorem forall_side {P : Fin 2 → Prop} (i : Fin 2) (hi : P i) (ho : P (1 - i)) : ∀ j, P j := by
  intro j
  by_cases hj : j = i
  · exact hj ▸ hi
  · have : j = 1 - i := by omega
    exact this ▸ ho

/-- `Action` keeps the invariant and never reaches the throwing lookup. -/
theorem action_inv {g : MyGame} (h : Inv g) (side : Fin 2) (a : BitVec 32) :
    ∃ g', g.action side a = .ok g' ∧ Inv g' := by
  unfold action
  by_cases hc : checkAction a = true
  · obtain ⟨e, he⟩ := requiredEnergy_isSome (checkAction_actions hc)
    simp only [hc, Bool.not_true, Bool.false_eq_true, if_false, he]
    split
    · next hle =>
      refine ⟨_, rfl, ?_⟩
      refine ⟨forall_side side ?_ ?_, forall_side side ?_ ?_, ?_, forall_side side ?_ ?_,
        forall_side side ?_ ?_, h.round⟩
      · simpa using h.energy side
      · simpa using h.energy (1 - side)
      · simpa using h.health side
      · simpa using h.health (1 - side)
      · have hh : ∀ j, ((g.setPlayer side { g.players side with action := a }).players j).health =
            (g.players j).health := forall_side side (by simp) (by simp)
        rw [hh, hh]; exact h.alive
      · exact ⟨e, by simpa using he, by simpa using hle⟩
      · simpa using h.reserved (1 - side)
      · simpa using h.target side
      · simpa using h.target (1 - side)
    · exact ⟨g, rfl, h⟩
  · exact ⟨g, by simp [hc], h⟩

theorem getWinner_eq (g : MyGame) : g.getWinner =
    if 0 < (g.players 0).health then if 0 < (g.players 1).health then -1 else 0
    else if 0 < (g.players 1).health then 1 else -1 := by
  simp only [getWinner, winnerFrom]
  split_ifs <;> simp_all

theorem getWinner_range (g : MyGame) :
    g.getWinner = -1 ∨ g.getWinner = 0 ∨ g.getWinner = 1 := by
  rw [getWinner_eq]
  split_ifs <;> simp

/-- A reserved action decides nothing. -/
theorem getWinner_action {g g' : MyGame} {side : Fin 2} {a : BitVec 32}
    (h : g.action side a = .ok g') : g'.getWinner = g.getWinner := by
  have hset : (g.setPlayer side { g.players side with action := a }).getWinner = g.getWinner := by
    have hhealth : ∀ i, ((g.setPlayer side { g.players side with action := a }).players i).health =
        (g.players i).health := by
      intro i
      by_cases hi : i = side
      · subst hi
        rw [setPlayer_self]
      · simp [setPlayer, hi]
    rw [getWinner_eq, getWinner_eq, hhealth, hhealth]
  unfold action at h
  split at h
  · cases h
    rfl
  split at h
  · cases h
  · split at h
    · cases h
      exact hset
    · cases h
      rfl

/-- No pair of actions hits both ways: a punch needs a meditating opponent, a
fire one who meditates, guards or punches, and none of these hits back. -/
theorem not_hits_both {a b : BitVec 32} (ha : a ∈ actions) (hb : b ∈ actions) :
    ¬ (hits a b ∧ hits b a) := by
  rintro ⟨hab, hba⟩
  simp only [actions, List.mem_cons, List.not_mem_nil, or_false] at ha hb
  rcases ha with rfl | rfl | rfl | rfl | rfl
  · exact hits_meditate b hab
  · exact hits_guard b hab
  · exact hits_evade b hab
  · rcases hb with rfl | rfl | rfl | rfl | rfl
    · exact hits_meditate punch hba
    · exact hits_guard punch hba
    · exact hits_evade punch hba
    · exact (hits_punch punch).mp hab (by decide)
    · exact (hits_punch fire).mp hab (by decide)
  · rcases hb with rfl | rfl | rfl | rfl | rfl
    · exact hits_meditate fire hba
    · exact hits_guard fire hba
    · exact hits_evade fire hba
    · exact (hits_punch fire).mp hba (by decide)
    · exact (hits_fire fire).mp hab (by decide)

/-- Acting keeps the energy within its bounds. -/
theorem energyAfter_bound {a : BitVec 32} {e energy : Int} (h : requiredEnergy a = some e)
    (hle : e ≤ energy) (h0 : 0 ≤ energy) (h2 : energy ≤ maxEnergy) :
    0 ≤ energyAfter a energy ∧ energyAfter a energy ≤ maxEnergy := by
  unfold energyAfter
  rw [h]
  have he : 0 ≤ e := by rcases requiredEnergy_cases h with h | h | h | h | h <;> omega
  split
  · simp only [maxEnergy] at *; omega
  · simp only [Option.getD_some]; omega

/-- A whole round from two living players: each health drops by one where the
other's action hits, each energy follows the own action. -/
theorem turns_spec {g : MyGame} (ht : ∀ i, (g.players i).target = 1 - i)
    (hr : ∀ i, ∃ e, requiredEnergy (g.players i).action = some e ∧ e ≤ (g.players i).energy)
    (i : Fin 2) :
    (((g.turn 0).turn 1).players i).health = (g.players i).health -
        (if hits (g.players (1 - i)).action (g.players i).action then 1 else 0) ∧
    (((g.turn 0).turn 1).players i).energy =
      energyAfter (g.players i).action (g.players i).energy ∧
    (((g.turn 0).turn 1).players i).target = 1 - i ∧
    ((g.turn 0).turn 1).nowRound = g.nowRound := by
  obtain ⟨e₀, he₀, hle₀⟩ := hr 0
  obtain ⟨e₁, he₁, hle₁⟩ := hr 1
  have t₀ := turn_spec g 0 (ht 0) he₀ hle₀
  have hself : (g.turn 0).players 0 = { (g.record 0).players 0 with
      energy := energyAfter (g.players 0).action (g.players 0).energy } := t₀.self
  -- player 1 enters his turn with the health he has left, everything else as it was
  have hother : (g.turn 0).players 1 = { g.players 1 with health := (g.players 1).health -
      (if hits (g.players 0).action (g.players 1).action then 1 else 0) } := by
    have := t₀.other
    simpa [record, setPlayer] using this
  have t₁ := turn_spec (g.turn 0) 1 (by rw [hother]; exact ht 1)
    (by rw [hother]; exact he₁) (by rw [hother]; exact hle₁)
  have hact₀ : ((g.turn 0).players 0).action = (g.players 0).action := by
    rw [hself]; simp [record]
  have hhealth₀ : ((g.turn 0).players 0).health = (g.players 0).health := by
    rw [hself]; simp [record]
  have htarget₀ : ((g.turn 0).players 0).target = 1 - 0 := by
    rw [hself]; simpa [record] using ht 0
  have henergy₀ : ((g.turn 0).players 0).energy =
      energyAfter (g.players 0).action (g.players 0).energy := by rw [hself]
  have hact₁ : ((g.turn 0).players 1).action = (g.players 1).action := by rw [hother]
  have henergy₁ : ((g.turn 0).players 1).energy = (g.players 1).energy := by rw [hother]
  have hself₁ := t₁.self
  have hother₁ : ((g.turn 0).turn 1).players 0 = { (g.turn 0).players 0 with
      health := ((g.turn 0).players 0).health -
        (if hits (g.players 1).action (g.players 0).action then 1 else 0) } := by
    have := t₁.other
    rw [hact₁] at this
    simpa [record, setPlayer, hact₀] using this
  have hround : ((g.turn 0).turn 1).nowRound = g.nowRound := by
    rw [t₁.round]; simpa [record] using t₀.round
  obtain rfl | rfl : i = 0 ∨ i = 1 := by omega
  · refine ⟨?_, ?_, ?_, hround⟩
    · simp only [hother₁, hhealth₀]; rfl
    · simp only [hother₁, henergy₀]
    · simp only [hother₁, htarget₀]
  · refine ⟨?_, ?_, ?_, hround⟩
    · simp only [hself₁, record, setPlayer_self, hother]; rfl
    · simp only [hself₁, hact₁, henergy₁]
    · simp only [hself₁, record, setPlayer_self, hother, ht 1]

/-- A round keeps the invariant: both players are alive when it starts, and at
most one of them is hit. -/
theorem round_inv {g : MyGame} (h : Inv g) (hround : g.nowRound < maxRound)
    (hwinner : g.getWinner < 0) :
    Inv ((({ g with nowRound := g.nowRound + 1 } : MyGame).turn 0).turn 1).initializeInput := by
  have hboth : ∀ i, (g.players i).health = 1 := by
    have h0 := h.health 0
    have h1 := h.health 1
    have ha := h.alive
    rw [getWinner_eq] at hwinner
    refine forall_side 0 ?_ ?_
    · split_ifs at hwinner <;> omega
    · show (g.players 1).health = 1
      split_ifs at hwinner <;> omega
  have ts := turns_spec (g := { g with nowRound := g.nowRound + 1 }) h.target h.reserved
  refine ⟨fun i => ?_, fun i => ?_, ?_, fun i => ?_, fun i => ?_, ?_⟩
  · obtain ⟨e, he, hle⟩ := h.reserved i
    obtain ⟨h0, h2⟩ := h.energy i
    simp only [initializeInput, (ts i).2.1]
    exact energyAfter_bound he hle h0 h2
  · simp only [initializeInput, (ts i).1, hboth]
    split <;> omega
  · rintro ⟨hd0, hd1⟩
    simp only [initializeInput, (ts 0).1, (ts 1).1, hboth] at hd0 hd1
    obtain ⟨e₀, he₀, -⟩ := h.reserved 0
    obtain ⟨e₁, he₁, -⟩ := h.reserved 1
    refine not_hits_both (mem_actions_of_requiredEnergy he₀) (mem_actions_of_requiredEnergy he₁) ?_
    constructor
    · by_contra hn; rw [if_neg (by exact hn)] at hd1; omega
    · by_contra hn; rw [if_neg (by exact hn)] at hd0; omega
  · obtain ⟨e, he, hle⟩ := h.reserved i
    obtain ⟨h0, h2⟩ := h.energy i
    refine ⟨0, rfl, ?_⟩
    simp only [initializeInput, (ts i).2.1]
    exact (energyAfter_bound he hle h0 h2).1
  · simp only [initializeInput, (ts i).2.2.1]
  · simp only [initializeInput, (ts 0).2.2.2]
    have := h.round
    omega

theorem process_inv {g : MyGame} (h : Inv g) : Inv g.process.2 := by
  unfold process
  split
  · exact h
  · next hr =>
    split
    · exact h
    · next hw => exact round_inv h (by omega) (by omega)

theorem getAchievement_inv {g : MyGame} (h : Inv g) : Inv g.getAchievement.2 := by
  unfold getAchievement
  split
  · exact h
  · exact ⟨h.energy, h.health, h.alive, h.reserved, h.target, h.round⟩

theorem step_inv (g : MyGame) (c : Call) (h : Inv g) : ∃ g', step g c = some g' ∧ Inv g' := by
  cases c with
  | action side a =>
    obtain ⟨g', hg, hi⟩ := action_inv h side a
    exact ⟨g', by rw [step, hg]; rfl, hi⟩
  | process => exact ⟨_, rfl, process_inv h⟩
  | getAchievement => exact ⟨_, rfl, getAchievement_inv h⟩

/-- **Run invariant.** No sequence of calls on a fresh game throws, and in the
state it leads to energies and healths are in range, at most one player is
dead, both reserved actions are affordable actions, and the round is in range. -/
theorem run_keeps_game_invariant (calls : List Call) :
    ∃ g, run step fresh calls = some g ∧
      (∀ i, 0 ≤ (g.players i).energy ∧ (g.players i).energy ≤ maxEnergy) ∧
      (∀ i, (g.players i).health = 0 ∨ (g.players i).health = 1) ∧
      ¬ ((g.players 0).health = 0 ∧ (g.players 1).health = 0) ∧
      (∀ i, (g.players i).action ∈ actions ∧
        ∃ e, requiredEnergy (g.players i).action = some e ∧ e ≤ (g.players i).energy) ∧
      -1 ≤ g.nowRound ∧ g.nowRound ≤ maxRound := by
  obtain ⟨g, hg, h⟩ := run_total step_inv calls fresh_inv
  refine ⟨g, hg, h.energy, h.health, h.alive, fun i => ?_, h.round⟩
  obtain ⟨e, he, hle⟩ := h.reserved i
  exact ⟨mem_actions_of_requiredEnergy he, e, he, hle⟩

/-- `NeZero 2` as a constant: definitions that number the sides refer to it and need no proof of
their own. -/
instance neZeroSides : NeZero 2 := inferInstance

end MyGame
end DrgbServer.Battle
