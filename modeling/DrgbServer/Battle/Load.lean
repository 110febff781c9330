import DrgbServer.Battle.Hall

/-! # What a battle server reports of itself

The server tells the others how many timers its pool holds (`GetUsage`), how many sessions it
has (`SetUsage`) and whether an account is in a game (`CheckAccount`). Here these are compared
with the games that are really running, in every run of the whole server. -/
namespace DrgbServer.Battle
open DrgbServer.Utils DrgbServer.Network DrgbServer.Lib.Procedure DrgbServer.Lib.Transition

namespace Hall

/-! ## What the server tells the others -/

def getUsage (h : Hall) : Nat := h.gamepool.pool.timerSet.card

def checkAccount (h : Hall) (id : AccountId) : Bool := (h.sessions.findLKey id).isSome

/-- The games that have not ended. -/
def running (h : Hall) : List Arena := h.arenas.filter (·.endings.isEmpty)

/-- The game of an account that it has not ended. -/
def Plays (h : Hall) (id : AccountId) (g : GameId) : Prop :=
  ∃ s, h.arenas[g]? = some s ∧ s.endings = [] ∧ (s.info.session.findLKey id).isSome

/-! ## The invariant -/

variable {h k : Hall} {s t : Arena} {g : GameId} {lpid rpid : AccountId} {a : Answers}

/-- The games hold one timer each until they end, and every other timer held is a leak. An
entry of the session table leads to a game of the account that has not ended. -/
structure Inv (h : Hall) : Prop where
  life : ∀ (g : GameId) s, h.arenas[g]? = some s → (h.play s).core.Life
  timers : ∀ (g : GameId) s, h.arenas[g]? = some s → s.info.timer < h.gamepool.pool.timers.length
  distinct : ∀ (g g' : GameId) s s', h.arenas[g]? = some s → h.arenas[g']? = some s' →
    s.info.timer = s'.info.timer → g = g'
  held : h.gamepool.isRunning = true → ∀ (g : GameId) s, h.arenas[g]? = some s →
    (s.info.timer ∈ h.gamepool.pool.timerSet ↔ s.endings = [])
  card : h.gamepool.isRunning = true → h.getUsage = h.running.length + h.leaks
  entry : ∀ id cookie g, h.sessions.findLKey id = some (cookie, g) → h.Plays id g
  nonzero : ∀ (g : GameId) s, h.arenas[g]? = some s → s.info.session.findLKey 0 = none

theorem start_inv (selfKeyword : String) : (start selfKeyword).Inv := by
  constructor <;> simp [start, getUsage, running, TimerPool.start]

theorem running_length (h : Hall) : h.running.length = h.arenas.countP (·.endings.isEmpty) :=
  List.countP_eq_length_filter.symm

/-- Nothing the core of a game reads has changed but who is in. -/
theorem life_of_running (hr : k.gamepool.isRunning = h.gamepool.isRunning)
    (hl : (h.play s).core.Life) : (k.play s).core.Life := by
  have hcore : (k.play s).core = { (h.play s).core with allIn := (k.play s).isAllIn } := by
    unfold Arena.core
    simp [play, hr]
  rw [hcore]
  exact hl.moves (.others _)

theorem sessions_of_eq (hs : k.sessions = h.sessions) (id : AccountId) (e : Hash × GameId)
    (he : k.sessions.findLKey id = some e) : h.sessions.findLKey id = some e := by
  rwa [hs] at he

/-- A step that makes no game and no session. -/
theorem Inv.pool (hi : h.Inv) (ha : k.arenas = h.arenas)
    (hs : ∀ id e, k.sessions.findLKey id = some e → h.sessions.findLKey id = some e)
    (hr : k.gamepool.isRunning = h.gamepool.isRunning)
    (hlen : h.gamepool.pool.timers.length ≤ k.gamepool.pool.timers.length)
    (hheld : h.gamepool.isRunning = true → ∀ timer < h.gamepool.pool.timers.length,
      (timer ∈ k.gamepool.pool.timerSet ↔ timer ∈ h.gamepool.pool.timerSet))
    (hcard : h.gamepool.isRunning = true → k.getUsage + h.leaks = h.getUsage + k.leaks) :
    k.Inv where
  life g s hg := life_of_running hr (hi.life g s (ha ▸ hg))
  timers g s hg := Nat.lt_of_lt_of_le (hi.timers g s (ha ▸ hg)) hlen
  distinct g g' s s' hg hg' := hi.distinct g g' s s' (ha ▸ hg) (ha ▸ hg')
  held hrun g s hg := by
    have hrun' := hr.symm.trans hrun
    have hg' : h.arenas[g]? = some s := ha ▸ hg
    rw [hheld hrun' _ (hi.timers g s hg')]
    exact hi.held hrun' g s hg'
  card hrun := by
    have hrun' := hr.symm.trans hrun
    have hold := hi.card hrun'
    have hnew := hcard hrun'
    have hrunning : k.running = h.running := by rw [running, running, ha]
    rw [hrunning]
    omega
  entry id cookie g he := by
    obtain ⟨s, hg, hplays⟩ := hi.entry id cookie g (hs id _ he)
    exact ⟨s, ha ▸ hg, hplays⟩
  nonzero g s hg := hi.nonzero g s (ha ▸ hg)

/-! ## `MatchTransfer` -/

/-- The seats of a new game are the two accounts'. -/
theorem isSome_make (ids : Sides AccountId) (timer : TimerId) (infos : Sides ByteQueue)
    (id : AccountId) : ((GameInfo.make ids timer infos).session.findLKey id).isSome =
      decide (id = ids.left ∨ id = ids.right) := by
  rw [Arena.session_make]
  by_cases hl : id = ids.left
  · simp [hl]
  · by_cases hr : id = ids.right
    · rw [if_neg hl, if_pos hr]
      simp [hr]
    · simp [hl, hr]

theorem arenas_matchTransfer_same
    (hg : (h.battle.matchTransfer lpid rpid a).2.games = h.battle.games) :
    (h.matchTransfer lpid rpid a).arenas = h.arenas := by
  show h.arenas ++ ((h.battle.matchTransfer lpid rpid a).2.games.drop h.arenas.length).map _ = _
  rw [hg, battle, List.drop_of_length_le (by rw [List.length_map]), List.map_nil, List.append_nil]

/-- The game that is made. -/
def newGame (h : Hall) (lpid rpid : AccountId) (infos : Sides ByteQueue) : Arena :=
  h.opened (GameInfo.make ⟨lpid, rpid⟩ h.gamepool.pool.timers.length infos)

theorem arenas_matchTransfer_made {lcookie rcookie : Hash} {infos : Sides ByteQueue}
    (hm : (h.battle.matchTransfer lpid rpid a).2 = h.battle.made lpid rpid lcookie rcookie infos) :
    (h.matchTransfer lpid rpid a).arenas = h.arenas ++ [h.newGame lpid rpid infos] := by
  show h.arenas ++ ((h.battle.matchTransfer lpid rpid a).2.games.drop h.arenas.length).map _ = _
  rw [hm, MyBattle.games_made]
  have hlen : h.arenas.length = h.battle.games.length := by rw [battle, List.length_map]
  rw [hlen, List.drop_left]
  rfl

/-- The games after a new one has been made. -/
theorem getElem?_made {x : Arena} (ha : k.arenas = h.arenas ++ [x]) (hg : k.arenas[g]? = some s) :
    h.arenas[g]? = some s ∨ (g = h.arenas.length ∧ s = x) := by
  rw [ha, List.getElem?_append] at hg
  split at hg
  · exact .inl hg
  · rename_i hlt
    obtain ⟨hsub, hx⟩ := List.getElem?_eq_some_iff.mp hg
    rw [List.length_singleton] at hsub
    have hge : h.arenas.length ≤ g := Nat.le_of_not_lt hlt
    have hle : g ≤ h.arenas.length := Nat.le_of_sub_eq_zero (Nat.lt_one_iff.mp hsub)
    refine .inr ⟨Nat.le_antisymm hle hge, ?_⟩
    simpa using hx.symm

/-- The state after a call, by what the call left. -/
theorem ties_matchTransfer {after : MyBattle} {leaks : Bool}
    (ha : (h.battle.matchTransfer lpid rpid a).2 = after)
    (hl : h.battle.leaks lpid rpid a = leaks) :
    (h.matchTransfer lpid rpid a).sessions = after.sessions ∧
      (h.matchTransfer lpid rpid a).gamepool.pool = after.gamepool ∧
      (h.matchTransfer lpid rpid a).leaks = if leaks then h.leaks + 1 else h.leaks := by
  subst ha hl
  exact ⟨rfl, rfl, rfl⟩

/-- A call that finds no session in Redis leaves a timer nobody knows. -/
theorem Inv.leaked (hi : h.Inv) (hl : h.battle.leaks lpid rpid a = true)
    (ha : (h.battle.matchTransfer lpid rpid a).2 = h.battle.setPool h.battle.gamepool.hold) :
    (h.matchTransfer lpid rpid a).Inv := by
  obtain ⟨hsessions, hpool, hleaks⟩ := ties_matchTransfer ha hl
  have hset : (h.matchTransfer lpid rpid a).gamepool.pool.timerSet =
      insert h.gamepool.pool.timers.length h.gamepool.pool.timerSet := by
    rw [hpool]
    rfl
  refine hi.pool (arenas_matchTransfer_same (by rw [ha]; rfl)) (sessions_of_eq hsessions)
    ?_ ?_ ?_ ?_
  · rw [Gamepool.isRunning, hpool]
    rfl
  · rw [hpool]
    exact List.length_append ▸ Nat.le_add_right _ _
  · intro _ timer hlt
    rw [hset, Finset.mem_insert]
    exact or_iff_right (Nat.ne_of_lt hlt)
  · intro _
    have hnew : h.gamepool.pool.timers.length ∉ h.gamepool.pool.timerSet :=
      fun hm => (h.gamepool.pool.allocated _ hm).false
    rw [getUsage, hset, Finset.card_insert_of_notMem hnew, hleaks, if_pos rfl, getUsage]
    omega

/-- A call that finds the database gone gives its timer back. -/
theorem Inv.refused (hi : h.Inv) (hl : h.battle.leaks lpid rpid a = false)
    (hrun : h.battle.gamepool.isRunning = true)
    (ha : (h.battle.matchTransfer lpid rpid a).2 = h.battle.setPool
      (h.battle.gamepool.hold.releaseTimer h.battle.gamepool.timers.length)) :
    (h.matchTransfer lpid rpid a).Inv := by
  obtain ⟨hsessions, hpool, hleaks⟩ := ties_matchTransfer ha hl
  have hset : (h.matchTransfer lpid rpid a).gamepool.pool.timerSet =
      h.gamepool.pool.timerSet := by
    rw [hpool]
    exact TimerPool.timerSet_release_hold hrun
  have hreleased : (h.battle.gamepool.hold.releaseTimer h.battle.gamepool.timers.length).isRunning =
      true ∧ h.battle.gamepool.timers.length ≤
      (h.battle.gamepool.hold.releaseTimer h.battle.gamepool.timers.length).timers.length := by
    have hhold : h.battle.gamepool.hold.isRunning = true := hrun
    rw [TimerPool.releaseTimer, if_neg (by simp [hhold])]
    exact ⟨hhold, List.length_append ▸ Nat.le_add_right _ _⟩
  refine hi.pool (arenas_matchTransfer_same (by rw [ha]; rfl)) (sessions_of_eq hsessions)
    ?_ ?_ ?_ ?_
  · rw [Gamepool.isRunning, hpool]
    exact hreleased.1.trans hrun.symm
  · rw [hpool]
    exact hreleased.2
  · intro _ timer _
    rw [hset]
  · intro _
    rw [getUsage, hset, hleaks, getUsage]
    rfl

/-- A game is made, with a timer and an entry of its own for each player admitted. -/
theorem Inv.made (hi : h.Inv) {lcookie rcookie : Hash} {infos : Sides ByteQueue}
    (hl : h.battle.leaks lpid rpid a = false)
    (hm : h.battle.Makes lpid rpid a lcookie rcookie infos)
    (ha : (h.battle.matchTransfer lpid rpid a).2 = h.battle.made lpid rpid lcookie rcookie infos) :
    (h.matchTransfer lpid rpid a).Inv := by
  obtain ⟨hsessions, hpool, hleaks⟩ := ties_matchTransfer ha hl
  have harenas := arenas_matchTransfer_made ha
  have hrun : (h.matchTransfer lpid rpid a).gamepool.isRunning = h.gamepool.isRunning := by
    rw [Gamepool.isRunning, hpool]
    rfl
  have hset : (h.matchTransfer lpid rpid a).gamepool.pool.timerSet =
      insert h.gamepool.pool.timers.length h.gamepool.pool.timerSet := by
    rw [hpool]
    rfl
  have hlen : (h.matchTransfer lpid rpid a).gamepool.pool.timers.length =
      h.gamepool.pool.timers.length + 1 := by
    rw [hpool]
    simp [MyBattle.made, MyBattle.setPool, MyBattle.enroll, TimerPool.asyncWait,
      TimerPool.expiresAfter, TimerPool.modifyTimer, TimerPool.hold, battle]
  have hnew : h.gamepool.pool.timers.length ∉ h.gamepool.pool.timerSet :=
    fun hm => (h.gamepool.pool.allocated _ hm).false
  have hplays : ∀ id, id = lpid ∨ id = rpid →
      (h.matchTransfer lpid rpid a).Plays id h.arenas.length := by
    intro id hid
    refine ⟨h.newGame lpid rpid infos, by rw [harenas, List.getElem?_concat_length], rfl, ?_⟩
    exact (isSome_make ..).trans (decide_eq_true hid)
  have hold : ∀ id g, h.Plays id g → (h.matchTransfer lpid rpid a).Plays id g := by
    intro id g hid
    obtain ⟨s, hg, hs⟩ := hid
    refine ⟨s, ?_, hs⟩
    rw [harenas]
    exact List.getElem?_append_left (List.getElem?_eq_some_iff.mp hg).1 ▸ hg
  constructor
  · intro g s hg
    refine life_of_running hrun ?_
    rcases getElem?_made harenas hg with hg | ⟨-, rfl⟩
    · exact hi.life g s hg
    · exact Arena.start_life ..
  · intro g s hg
    rw [hlen]
    rcases getElem?_made harenas hg with hg | ⟨-, rfl⟩
    · exact Nat.lt_succ_of_lt (hi.timers g s hg)
    · exact Nat.lt_succ_self _
  · intro g g' s s' hg hg' ht
    rcases getElem?_made harenas hg with hg | ⟨rfl, rfl⟩
    · rcases getElem?_made harenas hg' with hg' | ⟨rfl, rfl⟩
      · exact hi.distinct g g' s s' hg hg' ht
      · exact absurd ht (Nat.ne_of_lt (hi.timers g s hg))
    · rcases getElem?_made harenas hg' with hg' | ⟨rfl, rfl⟩
      · exact absurd ht.symm (Nat.ne_of_lt (hi.timers g' s' hg'))
      · rfl
  · intro hr g s hg
    rw [hset, Finset.mem_insert]
    rcases getElem?_made harenas hg with hg | ⟨-, rfl⟩
    · rw [or_iff_right (Nat.ne_of_lt (hi.timers g s hg))]
      exact hi.held (hrun.symm.trans hr) g s hg
    · exact ⟨fun _ => rfl, fun _ => .inl rfl⟩
  · intro hr
    have hcard := hi.card (hrun.symm.trans hr)
    rw [getUsage] at hcard
    rw [getUsage, hset, Finset.card_insert_of_notMem hnew, hcard, hleaks, running_length,
      running_length, harenas, List.countP_append]
    show h.arenas.countP _ + h.leaks + 1 = h.arenas.countP _ + 1 + h.leaks
    omega
  · intro id cookie g he
    rw [hsessions, MyBattle.sessions_made] at he
    have hgames : h.battle.games.length = h.arenas.length := List.length_map _
    rw [hgames] at he
    rcases Table.findLKey_of_insert he with ⟨rfl, -, rfl⟩ | he
    · exact hplays id (.inr rfl)
    · rcases Table.findLKey_of_insert he with ⟨rfl, -, rfl⟩ | he
      · exact hplays id (.inl rfl)
      · exact hold id g (hi.entry id cookie g he)
  · intro g s hg
    rcases getElem?_made harenas hg with hg | ⟨-, rfl⟩
    · exact hi.nonzero g s hg
    · rw [← Option.not_isSome_iff_eq_none]
      refine fun hs => ?_
      rcases of_decide_eq_true ((isSome_make ..).symm.trans hs) with h0 | h0
      · exact hm.1 h0.symm
      · exact hm.2.1 h0.symm

theorem Inv.matchTransfer (hi : h.Inv) (lpid rpid : AccountId) (a : Answers) :
    (h.matchTransfer lpid rpid a).Inv := by
  rcases h.battle.matchTransfer_cases lpid rpid a with ⟨hl, ha⟩ | ⟨hl, -, ha⟩ | ⟨hl, hrun, ha⟩ |
    ⟨lcookie, rcookie, infos, hl, hm, ha⟩
  · obtain ⟨hsessions, hpool, hleaks⟩ := ties_matchTransfer ha hl
    refine hi.pool (arenas_matchTransfer_same (by rw [ha])) (sessions_of_eq hsessions)
      ?_ ?_ ?_ ?_
    · rw [Gamepool.isRunning, hpool]
      rfl
    · rw [hpool]
      exact Nat.le_refl _
    · intro _ timer _
      rw [hpool]
      exact Iff.rfl
    · intro _
      rw [getUsage, hpool, hleaks]
      rfl
  · exact hi.leaked hl ha
  · exact hi.refused hl hrun ha
  · exact hi.made hl hm ha

/-! ## The games -/

theorem game_cases {l : Arena.Label} (hr : h.game g l = some k) : ∃ s t ht,
    h.arenas[g]? = some s ∧ (h.play s).step l = some t ∧ l.own = true ∧ t.crashed = false ∧
      k = h.written g t ht := by
  unfold game at hr
  split at hr
  · cases hr
  · rename_i s hs
    split at hr
    · cases hr
    · rename_i t ht
      obtain ⟨hl, hr⟩ := Option.dite_none_right_eq_some.mp hr
      cases hr
      exact ⟨s, t, _, hs, ht, hl.1, hl.2, rfl⟩

section Written
variable (ht : ∀ id e, t.sessions.findLKey id = some e → h.sessions.findLKey id = some e)
include ht

theorem getElem?_written {g' : GameId} {s' : Arena}
    (hg : (h.written g t ht).arenas[g']? = some s') :
    (g' = g ∧ s' = t) ∨ (g' ≠ g ∧ h.arenas[g']? = some s') := by
  have hset : (h.arenas.set g t)[g']? = some s' := hg
  rw [List.getElem?_set] at hset
  split at hset
  · split at hset
    · cases hset
      exact .inl ⟨Eq.symm ‹g = g'›, rfl⟩
    · cases hset
  · exact .inr ⟨Ne.symm ‹¬g = g'›, hset⟩

theorem getElem?_written_self (hg : h.arenas[g]? = some s) :
    (h.written g t ht).arenas[g]? = some t := by
  show (h.arenas.set g t)[g]? = some t
  rw [List.getElem?_set_self (List.getElem?_eq_some_iff.mp hg).1]

theorem getElem?_written_other {g' : GameId} {s' : Arena} (hne : g' ≠ g)
    (hg : h.arenas[g']? = some s') : (h.written g t ht).arenas[g']? = some s' := by
  show (h.arenas.set g t)[g']? = some s'
  rw [List.getElem?_set_ne (Ne.symm hne)]
  exact hg

/-- The games that are left when one step has been made. -/
theorem running_written (hg : h.arenas[g]? = some s) :
    (h.written g t ht).running.length + (if s.endings.isEmpty then 1 else 0) =
      h.running.length + if t.endings.isEmpty then 1 else 0 := by
  obtain ⟨hlt, hget⟩ := List.getElem?_eq_some_iff.mp hg
  rw [running_length, running_length]
  show (h.arenas.set g t).countP _ + _ = _
  rw [List.countP_set hlt, hget]
  have hpos : s.endings.isEmpty = true → 0 < h.arenas.countP (·.endings.isEmpty) :=
    fun hs => List.countP_pos_iff.mpr ⟨s, List.mem_of_getElem? hg, hs⟩
  split
  · have := hpos ‹_›
    omega
  · omega

/-- A step of one game, told apart by what the others see. -/
theorem Inv.written (hi : h.Inv) (hg : h.arenas[g]? = some s) (hlife : t.core.Life)
    (hrun : t.gamepool.isRunning = h.gamepool.isRunning)
    (hlen : t.gamepool.pool.timers.length = h.gamepool.pool.timers.length)
    (htimer : t.info.timer = s.info.timer)
    (hzero : t.info.session.findLKey 0 = none)
    (hheld : h.gamepool.isRunning = true →
      (t.info.timer ∈ t.gamepool.pool.timerSet ↔ t.endings = []))
    (hothers : h.gamepool.isRunning = true → ∀ timer, timer ≠ s.info.timer →
      (timer ∈ t.gamepool.pool.timerSet ↔ timer ∈ h.gamepool.pool.timerSet))
    (hcard : h.gamepool.isRunning = true →
      t.gamepool.pool.timerSet.card + (if s.endings.isEmpty then 1 else 0) =
        h.gamepool.pool.timerSet.card + if t.endings.isEmpty then 1 else 0)
    (hentry : ∀ id cookie g', t.sessions.findLKey id = some (cookie, g') →
      g' = g → t.endings = [] ∧ (t.info.session.findLKey id).isSome) :
    (h.written g t ht).Inv := by
  constructor
  · intro g' s' hg'
    rcases getElem?_written ht hg' with ⟨rfl, rfl⟩ | ⟨-, hg'⟩
    · exact hlife
    · exact life_of_running hrun (hi.life g' s' hg')
  · intro g' s' hg'
    show _ < t.gamepool.pool.timers.length
    rw [hlen]
    rcases getElem?_written ht hg' with ⟨rfl, rfl⟩ | ⟨-, hg'⟩
    · rw [htimer]
      exact hi.timers _ s hg
    · exact hi.timers g' s' hg'
  · intro g₁ g₂ s₁ s₂ h₁ h₂ heq
    rcases getElem?_written ht h₁ with ⟨rfl, rfl⟩ | ⟨-, hold₁⟩
    · rcases getElem?_written ht h₂ with ⟨rfl, rfl⟩ | ⟨-, hold₂⟩
      · rfl
      · exact hi.distinct _ _ s s₂ hg hold₂ (htimer.symm.trans heq)
    · rcases getElem?_written ht h₂ with ⟨rfl, rfl⟩ | ⟨-, hold₂⟩
      · exact hi.distinct _ _ s₁ s hold₁ hg (heq.trans htimer)
      · exact hi.distinct _ _ s₁ s₂ hold₁ hold₂ heq
  · intro hr g' s' hg'
    have hr' := hrun.symm.trans hr
    show _ ∈ t.gamepool.pool.timerSet ↔ _
    rcases getElem?_written ht hg' with ⟨rfl, rfl⟩ | ⟨hne, hg'⟩
    · exact hheld hr'
    · rw [hothers hr' _ fun heq => hne (hi.distinct g' g s' s hg' hg heq)]
      exact hi.held hr' g' s' hg'
  · intro hr
    have hr' := hrun.symm.trans hr
    have hrunning := running_written ht hg
    have hold : h.gamepool.pool.timerSet.card = h.running.length + h.leaks := hi.card hr'
    have hnew := hcard hr'
    show t.gamepool.pool.timerSet.card = _ + h.leaks
    omega
  · intro id cookie g' he
    have hplays := hi.entry id cookie g' (ht id _ he)
    by_cases hne : g' = g
    · exact ⟨t, by rw [hne]; exact getElem?_written_self ht hg, hentry id cookie g' he hne⟩
    · obtain ⟨s', hg', hs'⟩ := hplays
      exact ⟨s', getElem?_written_other ht hne hg', hs'⟩
  · intro g' s' hg'
    rcases getElem?_written ht hg' with ⟨rfl, rfl⟩ | ⟨-, hg'⟩
    · exact hzero
    · exact hi.nonzero g' s' hg'

theorem Inv.ongoing (hi : h.Inv) (hg : h.arenas[g]? = some s) (hlife : t.core.Life)
    (ho : Arena.Ongoing (h.play s) t) : (h.written g t ht).Inv := by
  have hpool : t.gamepool = h.gamepool := ho.gamepool
  have hendings : t.endings = s.endings := ho.endings
  have htimer : t.info.timer = s.info.timer := ho.timer
  refine hi.written ht hg hlife (by rw [hpool]) (by rw [hpool]) htimer ?_ ?_ ?_ ?_ ?_
  · rw [← Option.not_isSome_iff_eq_none, ho.seats]
    exact Option.not_isSome_iff_eq_none.mpr (hi.nonzero g s hg)
  · intro hr
    rw [hpool, hendings, htimer]
    exact hi.held hr g s hg
  · intro _ timer _
    rw [hpool]
  · intro _
    rw [hpool, hendings]
  · rintro id cookie g' he rfl
    obtain ⟨s', hg', hend, hseat⟩ := hi.entry id cookie _ (ht id _ he)
    rw [hg] at hg'
    cases hg'
    exact ⟨hendings.trans hend, (ho.seats id).trans hseat⟩

theorem Inv.ended (hi : h.Inv) (hg : h.arenas[g]? = some s) (hlife : t.core.Life)
    (hs : s.endings = []) (he : Arena.Ended (h.play s) t) : (h.written g t ht).Inv := by
  have hpool : t.gamepool = h.gamepool.releaseTimer s.info.timer := he.gamepool
  have htimer : t.info.timer = s.info.timer := he.timer
  have hsession : t.info.session = s.info.session := he.session
  have hempty : t.endings.isEmpty = false := by
    obtain ⟨e, heq⟩ := he.endings
    rw [heq]
    simp
  have hset : h.gamepool.isRunning = true →
      t.gamepool.pool.timerSet = h.gamepool.pool.timerSet.erase s.info.timer := by
    intro hr
    have hr' : h.gamepool.pool.isRunning = true := hr
    rw [hpool]
    simp [Gamepool.releaseTimer, TimerPool.releaseTimer, hr']
  refine hi.written ht hg hlife ?_ ?_ htimer ?_ ?_ ?_ ?_ ?_
  · rw [hpool]
    exact Arena.isRunning_releaseTimer _ _
  · rw [hpool]
    unfold Gamepool.releaseTimer TimerPool.releaseTimer
    dsimp only
    split <;> rfl
  · rw [hsession]
    exact hi.nonzero g s hg
  · intro _
    rw [← List.isEmpty_iff, hempty, hpool, htimer]
    exact iff_of_false (Gamepool.releaseTimer_not_mem _ _) Bool.false_ne_true
  · intro hr timer hne
    rw [hset hr, Finset.mem_erase]
    exact and_iff_right hne
  · intro hr
    have hheld := (hi.held hr g s hg).mpr hs
    rw [hset hr, hempty, List.isEmpty_iff.mpr hs, if_pos rfl, Finset.card_erase_add_one hheld]
    rfl
  · rintro id cookie g' hid rfl
    obtain ⟨s', hg', hend, hseat⟩ := hi.entry id cookie _ (ht id _ hid)
    rw [hg] at hg'
    cases hg'
    -- the entry is one of the two players', and these have been erased
    exfalso
    obtain ⟨⟨side, weak⟩, hfind⟩ := Option.isSome_iff_exists.mp hseat
    have hplayer : id = ((h.play s).player 0).1 ∨ id = ((h.play s).player 1).1 :=
      Arena.player_of_findLKey (s := h.play s) hfind
    rw [Arena.player_fst, Arena.player_fst] at hplayer
    rw [he.sessions, if_pos hplayer] at hid
    cases hid

end Written

theorem Inv.game (hi : h.Inv) {l : Arena.Label} (hr : h.game g l = some k) : k.Inv := by
  obtain ⟨s, t, ht, hg, hstep, hl, hc, rfl⟩ := game_cases hr
  have hold := hi.life g s hg
  have hlife := Arena.step_life hold hstep
  rcases Arena.own_cases hl hold hstep hc with ho | ⟨hs, he⟩
  · exact hi.ongoing ht hg hlife ho
  · exact hi.ended ht hg hlife hs he

/-! ## `AuthenticateProcess` -/

theorem enter_eq_none {info : GameInfo} {id : AccountId} {socket : SocketId}
    (he : info.enter id socket = none) : info.session.findLKey id = none := by
  by_contra hseat
  have hin : (info.session.insertLKeyValue id (some socket)).1 = true := by
    rw [Table.insertLKeyValue_fst]
    exact Option.isSome_iff_ne_none.mpr hseat
  simp [GameInfo.enter, hin] at he

/-- An account authenticates: nothing happens, it enters its game, or the game is a wrong one and
its own entry is erased. -/
theorem authenticate_cases {accountId : AccountId} {cookie : Hash} {client : SocketId}
    (hr : h.authenticate accountId cookie client = some k) :
    k = h ∨
    (∃ other g, h.sessions.findRKey cookie = some (other, g) ∧
      h.game g (.enter accountId client) = some k) ∨
    ∃ other g s, h.sessions.findRKey cookie = some (other, g) ∧ h.arenas[g]? = some s ∧
      s.info.session.findLKey accountId = none ∧ k = h.eraseSession accountId := by
  unfold authenticate at hr
  split at hr
  · cases hr
    exact .inl rfl
  rename_i other g hfound
  split at hr
  · cases hr
  rename_i s hg
  split at hr
  · rename_i he
    cases hr
    exact .inr (.inr ⟨other, g, s, hfound, hg, enter_eq_none he, rfl⟩)
  · exact .inr (.inl ⟨other, g, hfound, hr⟩)

theorem authenticate_of_wrong {accountId : AccountId} {cookie : Hash} {client : SocketId}
    {other : AccountId} (hfound : h.sessions.findRKey cookie = some (other, g))
    (hg : h.arenas[g]? = some s) (hseat : s.info.session.findLKey accountId = none) :
    h.authenticate accountId cookie client = some (h.eraseSession accountId) := by
  have he : s.info.enter accountId client = none := by
    simp [GameInfo.enter, Table.insertLKeyValue_fst, hseat]
  simp only [authenticate, hfound, hg, he]

theorem findLKey_eraseSession (id id' : AccountId) :
    (h.eraseSession id).sessions.findLKey id' =
      if id' = id then none else h.sessions.findLKey id' :=
  Table.findLKey_eraseLKey ..

theorem Inv.eraseSession (hi : h.Inv) (id : AccountId) : (h.eraseSession id).Inv := by
  refine hi.pool rfl (fun id' e he => ?_) rfl (Nat.le_refl _) (fun _ _ _ => Iff.rfl) fun _ => rfl
  rw [findLKey_eraseSession] at he
  exact (Option.ite_none_left_eq_some.mp he).2

theorem Inv.authenticate (hi : h.Inv) {accountId : AccountId} {cookie : Hash} {client : SocketId}
    (hr : h.authenticate accountId cookie client = some k) : k.Inv := by
  obtain rfl | ⟨-, g, -, hr⟩ | ⟨-, -, -, -, -, -, rfl⟩ := authenticate_cases hr
  · exact hi
  · exact hi.game hr
  · exact hi.eraseSession accountId

/-! ## The steps -/

/-- A change of all clocks. -/
theorem Inv.setArenas (hi : h.Inv) {f : Arena → Arena} (ha : k.arenas = h.arenas.map f)
    (hs : k.sessions = h.sessions)
    (hf : ∀ s, (f s).info = s.info ∧ (f s).endings = s.endings)
    (hlife : ∀ s, (h.play s).core.Life → (k.play (f s)).core.Life)
    (hlen : k.gamepool.pool.timers.length = h.gamepool.pool.timers.length)
    (hpool : k.gamepool.isRunning = true → k.gamepool = h.gamepool)
    (hleaks : k.leaks = h.leaks) : k.Inv := by
  have hfrom : ∀ {g : GameId} {u : Arena}, k.arenas[g]? = some u →
      ∃ s, h.arenas[g]? = some s ∧ f s = u := by
    intro g u hg
    rw [ha, List.getElem?_map] at hg
    exact Option.map_eq_some_iff.mp hg
  constructor
  · intro g u hg
    obtain ⟨s, hold, rfl⟩ := hfrom hg
    exact hlife s (hi.life g s hold)
  · intro g u hg
    obtain ⟨s, hold, rfl⟩ := hfrom hg
    rw [hlen, (hf s).1]
    exact hi.timers g s hold
  · intro g g' u u' hg hg' heq
    obtain ⟨s, hold, rfl⟩ := hfrom hg
    obtain ⟨s', hold', rfl⟩ := hfrom hg'
    rw [(hf s).1, (hf s').1] at heq
    exact hi.distinct g g' s s' hold hold' heq
  · intro hr g u hg
    obtain ⟨s, hold, rfl⟩ := hfrom hg
    rw [(hf s).1, (hf s).2, hpool hr]
    exact hi.held (hpool hr ▸ hr) g s hold
  · intro hr
    have hcard := hi.card (hpool hr ▸ hr)
    have hrunning : k.running.length = h.running.length := by
      have hp : (fun s : Arena => s.endings.isEmpty) ∘ f = fun s => s.endings.isEmpty :=
        funext fun s => by rw [Function.comp, (hf s).2]
      rw [running_length, running_length, ha, List.countP_map, hp]
    rw [hrunning, hleaks, ← hcard, getUsage, getUsage, hpool hr]
  · intro id cookie g he
    rw [hs] at he
    obtain ⟨s, hg, hend, hseat⟩ := hi.entry id cookie g he
    refine ⟨f s, ?_, (hf s).2.trans hend, ?_⟩
    · rw [ha, List.getElem?_map, hg]
      rfl
    · rw [(hf s).1]
      exact hseat
  · intro g u hg
    obtain ⟨s, hold, rfl⟩ := hfrom hg
    rw [(hf s).1]
    exact hi.nonzero g s hold

/-- **One step of the server.** -/
theorem Inv.step (hi : h.Inv) {l : Label} (hr : h.step l = some k) : k.Inv := by
  cases l with
  | matchTransfer lpid rpid a =>
    cases hr
    exact hi.matchTransfer lpid rpid a
  | authenticate accountId cookie client => exact hi.authenticate hr
  | game g l => exact hi.game (Option.ite_none_left_eq_some.mp hr).2
  | clients sockets isOpen =>
    cases hr
    exact hi.pool rfl (fun _ _ he => he) rfl (Nat.le_refl _) (fun _ _ _ => Iff.rfl) fun _ => rfl
  | stop =>
    cases hr
    exact hi.setArenas rfl rfl (fun _ => ⟨rfl, rfl⟩) (fun s hl => hl.moves .stops) rfl nofun rfl
  | halt =>
    obtain ⟨hrun, hr⟩ := Option.ite_none_left_eq_some.mp hr
    cases hr
    refine hi.setArenas rfl rfl (fun _ => ⟨rfl, rfl⟩) (fun s hl => ?_) rfl (fun _ => rfl) rfl
    exact hl.moves (.halts (Bool.eq_false_iff.mpr hrun))

/-! ## What the server reports -/

/-- Every entry is of one of the two players of a running game. -/
theorem Inv.size_le (hi : h.Inv) : h.sessions.size ≤ 2 * h.running.length := by
  have hkeys : h.sessions.maps.lrm.keys ⊆ h.running.flatMap fun s =>
      [Arena.playerOf s.info.session 0, Arena.playerOf s.info.session 1] := by
    intro id hid
    obtain ⟨r, v, hh⟩ := h.sessions.consistent.has_of_mem (Std.ExtTreeMap.mem_keys.mp hid)
    obtain ⟨s, hg, hend, hseat⟩ := hi.entry id r v (Table.findLKey_eq_some.mpr hh)
    obtain ⟨⟨side, weak⟩, hfind⟩ := Option.isSome_iff_exists.mp hseat
    have hplayer := Arena.player_of_findLKey (s := s) hfind
    rw [Arena.player_fst, Arena.player_fst] at hplayer
    refine List.mem_flatMap.mpr ⟨s, List.mem_filter.mpr ⟨List.mem_of_getElem? hg, ?_⟩, ?_⟩
    · exact List.isEmpty_iff.mpr hend
    · simpa using hplayer
  have hle := (List.subperm_of_subset Std.ExtTreeMap.nodup_keys hkeys).length_le
  rw [List.length_flatMap, Std.ExtTreeMap.length_keys] at hle
  simpa [Table.size, DeMap.size, Nat.mul_comm] using hle

/-- The pool counts the running games and the leaks; an account that is reported to be in a
game is in one that has not ended; and no game has more than two sessions. -/
structure Accounted (h : Hall) : Prop where
  usage : h.gamepool.isRunning = true → h.getUsage = h.running.length + h.leaks
  account : ∀ id, h.checkAccount id = true → ∃ g, h.Plays id g
  sessions : h.sessions.size ≤ 2 * h.running.length

theorem Inv.accounted (hi : h.Inv) : h.Accounted where
  usage := hi.card
  account id hid := by
    obtain ⟨⟨cookie, g⟩, he⟩ := Option.isSome_iff_exists.mp hid
    exact ⟨g, hi.entry id cookie g he⟩
  sessions := hi.size_le

/-- **What a battle server reports of its load**, in every run of its games. -/
theorem always_accounted (selfKeyword : String) (ls : List Label) :
    Always step Accounted (start selfKeyword) ls :=
  always_of_meets (fun _ hi => hi.accounted) (fun _ _ _ hi _ hr => hi.step hr)
    (start_inv selfKeyword) (meets_true _ _)

/-! ## A game among the others -/

/-- The steps of one game: its own, the clients that come under a cookie that leads to it, and the
end of the server. -/
def concerns (h : Hall) (g : GameId) : Label → Bool
  | .matchTransfer _ _ _ | .clients _ _ => false
  | .authenticate _ cookie _ => (h.sessions.findRKey cookie).any (·.2 = g)
  | .game g' _ => g' = g
  | .stop | .halt => true

theorem isRunning_matchTransfer (h : Hall) (lpid rpid : AccountId) (a : Answers) :
    (h.matchTransfer lpid rpid a).gamepool.isRunning = h.gamepool.isRunning := by
  have hpool : (h.matchTransfer lpid rpid a).gamepool.isRunning =
      (h.battle.matchTransfer lpid rpid a).2.gamepool.isRunning := rfl
  rw [hpool]
  rcases h.battle.matchTransfer_cases lpid rpid a with ⟨-, ha⟩ | ⟨-, -, ha⟩ | ⟨-, hrun, ha⟩ |
    ⟨_, _, _, -, -, ha⟩ <;> rw [ha]
  · rfl
  · rfl
  · have hhold : h.battle.gamepool.hold.isRunning = true := hrun
    rw [MyBattle.setPool, TimerPool.releaseTimer, if_neg (by simp [hhold])]
    rfl
  · rfl

/-- The step of another game. -/
theorem game_other {g' : GameId} {l : Arena.Label} (hi : h.Inv) (hg : h.arenas[g]? = some s)
    (hne : g ≠ g') (hr : h.game g' l = some k) :
    k.arenas[g]? = some s ∧ k.gamepool.isRunning = h.gamepool.isRunning := by
  obtain ⟨s', t, ht, hg', hstep, hl, hc, rfl⟩ := game_cases hr
  refine ⟨getElem?_written_other ht hne hg, ?_⟩
  rcases Arena.own_cases hl (hi.life g' s' hg') hstep hc with ho | ⟨-, he⟩
  · exact congrArg Gamepool.isRunning ho.gamepool
  · exact (congrArg Gamepool.isRunning he.gamepool).trans (Arena.isRunning_releaseTimer _ _)

theorem step_other {l : Label} (hi : h.Inv) (hg : h.arenas[g]? = some s)
    (hn : h.concerns g l = false) (hr : h.step l = some k) :
    k.arenas[g]? = some s ∧ k.gamepool.isRunning = h.gamepool.isRunning := by
  cases l with
  | matchTransfer lpid rpid a =>
    cases hr
    refine ⟨?_, isRunning_matchTransfer h lpid rpid a⟩
    exact List.getElem?_append_left (List.getElem?_eq_some_iff.mp hg).1 ▸ hg
  | authenticate accountId cookie client =>
    obtain rfl | ⟨other, g', hfound, hr⟩ | ⟨-, -, -, -, -, -, rfl⟩ := authenticate_cases hr
    · exact ⟨hg, rfl⟩
    · refine game_other hi hg ?_ hr
      rintro rfl
      simp [concerns, hfound] at hn
    · exact ⟨hg, rfl⟩
  | game g' l =>
    refine game_other hi hg ?_ (Option.ite_none_left_eq_some.mp hr).2
    rintro rfl
    simp [concerns] at hn
  | clients sockets isOpen =>
    cases hr
    exact ⟨hg, rfl⟩
  | stop | halt => cases hn

/-- A timer that the pool of a running server holds is one of a game that has not ended. -/
theorem Inv.holds_iff (hi : h.Inv) (hk : k.Inv) (hg : h.arenas[g]? = some s)
    (hg' : k.arenas[g]? = some s) (hrun : k.gamepool.isRunning = h.gamepool.isRunning) :
    s.info.timer ∈ k.gamepool.pool.timerSet ↔ s.info.timer ∈ h.gamepool.pool.timerSet := by
  cases hr : h.gamepool.isRunning with
  | true => rw [hk.held (hrun.trans hr) g s hg', hi.held hr g s hg]
  | false => rw [k.gamepool.emptied (hrun.trans hr), h.gamepool.emptied hr]

/-- **Each game lives among the others as it does alone**, and no step of the others touches its
players, its rounds, its waits, its end or its place in the pool. -/
theorem always_lifeCycle (selfKeyword : String) (ls : List Label) :
    Always step (fun h => ∀ (g : GameId) s, h.arenas[g]? = some s → (h.play s).LifeCycle ∧
        ∀ l k, h.step l = some k → h.concerns g l = false → k.arenas[g]? = some s ∧
          (s.info.timer ∈ k.gamepool.pool.timerSet ↔ s.info.timer ∈ h.gamepool.pool.timerSet))
      (start selfKeyword) ls := by
  refine always_of_meets (I := Inv) (fun h hi g s hg => ?_) (fun _ _ _ hi _ hr => hi.step hr)
    (start_inv selfKeyword) (meets_true _ _)
  refine ⟨Arena.lifeCycle_of_life (hi.life g s hg), fun l k hr hn => ?_⟩
  obtain ⟨hg', hrun⟩ := step_other hi hg hn hr
  exact ⟨hg', hi.holds_iff (hi.step hr) hg hg' hrun⟩

/-! ## The players that find their game -/

/-- Every player of a game that has not ended is led to it. -/
def Complete (h : Hall) : Prop :=
  ∀ id g, h.Plays id g → ∃ cookie, h.sessions.findLKey id = some (cookie, g)

/-- The condition on a step: a game is made only of players whose keys are free, and an account
that comes under the cookie of a game it is not in has no entry. -/
def Admitted (h : Hall) : Label → Prop
  | .matchTransfer lpid rpid a => ∀ lcookie rcookie infos,
    h.battle.Makes lpid rpid a lcookie rcookie infos → h.battle.Admits lpid rpid lcookie rcookie
  | .authenticate accountId cookie _ => ∀ other g s,
    h.sessions.findRKey cookie = some (other, g) → h.arenas[g]? = some s →
      s.info.session.findLKey accountId = none → h.checkAccount accountId = false
  | _ => True

theorem findLKey_insert_of_some {t : Table AccountId Hash GameId} {id id' : AccountId}
    {cookie : Hash} {g : GameId} {e : Hash × GameId} (h : t.findLKey id = some e) :
    (t.insert id' cookie g).2.findLKey id = some e := by
  cases hi : (t.insert id' cookie g).1 with
  | false => rwa [Table.insert_of_refused hi]
  | true =>
    rw [Table.findLKey_insert hi, if_neg]
    · exact h
    · rintro rfl
      rw [(Table.insert_fst.mp hi).1] at h
      cases h

/-- A call that makes a game. -/
theorem matchTransfer_of_makes {lcookie rcookie : Hash} {infos : Sides ByteQueue}
    (hm : h.battle.Makes lpid rpid a lcookie rcookie infos) :
    (h.battle.matchTransfer lpid rpid a).2 = h.battle.made lpid rpid lcookie rcookie infos := by
  obtain ⟨hl, hr, hp, h0, h1, hd⟩ := hm
  obtain ⟨l, hleft, rfl⟩ := Option.map_eq_some_iff.mp h0
  obtain ⟨r, hright, rfl⟩ := Option.map_eq_some_iff.mp h1
  rw [MyBattle.matchTransfer_of_made hl hr hp hleft hright hd]
  rfl

/-- The players of the new game are led to it exactly if the sessions admit them. -/
theorem led_made_iff {lcookie rcookie : Hash} {infos : Sides ByteQueue}
    (hm : h.battle.Makes lpid rpid a lcookie rcookie infos) :
    (∀ id, id = lpid ∨ id = rpid → ∃ cookie,
      (h.matchTransfer lpid rpid a).sessions.findLKey id = some (cookie, h.arenas.length)) ↔
      h.battle.Admits lpid rpid lcookie rcookie := by
  have hsessions : (h.matchTransfer lpid rpid a).sessions =
      (h.battle.made lpid rpid lcookie rcookie infos).sessions :=
    congrArg MyBattle.sessions (matchTransfer_of_makes hm)
  have hgames : h.arenas.length = h.battle.games.length := (List.length_map _).symm
  rw [← MyBattle.hosts_made_iff_admits lcookie rcookie infos, MyBattle.hosts_made_iff, hsessions,
    hgames]
  constructor
  · exact fun hled => ⟨hled lpid (.inl rfl), hled rpid (.inr rfl)⟩
  · rintro ⟨hl, hr⟩ id (rfl | rfl)
    · exact hl
    · exact hr

theorem plays_new {lcookie rcookie : Hash} {infos : Sides ByteQueue}
    (hm : h.battle.Makes lpid rpid a lcookie rcookie infos) {id : AccountId}
    (hid : id = lpid ∨ id = rpid) : (h.matchTransfer lpid rpid a).Plays id h.arenas.length := by
  refine ⟨h.newGame lpid rpid infos, ?_, rfl, (isSome_make ..).trans (decide_eq_true hid)⟩
  rw [arenas_matchTransfer_made (matchTransfer_of_makes hm), List.getElem?_concat_length]

theorem Complete.matchTransfer (hc : h.Complete) (hok : h.Admitted (.matchTransfer lpid rpid a)) :
    (h.matchTransfer lpid rpid a).Complete := by
  have hsame : ∀ {after}, (h.battle.matchTransfer lpid rpid a).2 = after →
      after.games = h.battle.games → after.sessions = h.sessions →
      (h.matchTransfer lpid rpid a).Complete := by
    rintro after rfl hg hs id g ⟨s, hget, hplays⟩
    rw [arenas_matchTransfer_same hg] at hget
    obtain ⟨cookie, he⟩ := hc id g ⟨s, hget, hplays⟩
    refine ⟨cookie, ?_⟩
    show (h.battle.matchTransfer lpid rpid a).2.sessions.findLKey id = _
    rw [hs]
    exact he
  rcases h.battle.matchTransfer_cases lpid rpid a with ⟨-, ha⟩ | ⟨-, -, ha⟩ | ⟨-, -, ha⟩ |
    ⟨lcookie, rcookie, infos, -, hm, ha⟩
  · exact hsame ha rfl rfl
  · exact hsame ha rfl rfl
  · exact hsame ha rfl rfl
  · rintro id g ⟨s, hget, hend, hseat⟩
    rcases getElem?_made (arenas_matchTransfer_made ha) hget with hold | ⟨rfl, rfl⟩
    · obtain ⟨cookie, he⟩ := hc id g ⟨s, hold, hend, hseat⟩
      refine ⟨cookie, ?_⟩
      show (h.battle.matchTransfer lpid rpid a).2.sessions.findLKey id = _
      rw [ha, MyBattle.sessions_made]
      exact findLKey_insert_of_some (findLKey_insert_of_some he)
    · have hid := of_decide_eq_true ((isSome_make ..).symm.trans hseat)
      exact (led_made_iff hm).mpr (hok lcookie rcookie infos hm) id hid

theorem Complete.game (hc : h.Complete) (hi : h.Inv) {l : Arena.Label} (hr : h.game g l = some k) :
    k.Complete := by
  obtain ⟨s, t, ht, hg, hstep, hl, hdefined, rfl⟩ := game_cases hr
  rintro id g' ⟨s', hg', hend, hseat⟩
  rcases Arena.own_cases hl (hi.life g s hg) hstep hdefined with ho | ⟨hs, he⟩
  · have hsame : t.sessions.findLKey id = h.sessions.findLKey id := ho.sessions id
    show ∃ cookie, t.sessions.findLKey id = _
    rw [hsame]
    rcases getElem?_written ht hg' with ⟨rfl, rfl⟩ | ⟨-, hold⟩
    · exact hc id _ ⟨s, hg, ho.endings.symm.trans hend, (ho.seats id).symm.trans hseat⟩
    · exact hc id g' ⟨s', hold, hend, hseat⟩
  · rcases getElem?_written ht hg' with ⟨rfl, rfl⟩ | ⟨hne, hold⟩
    · obtain ⟨e, hended⟩ := he.endings
      rw [hended] at hend
      exact absurd hend (List.append_ne_nil_of_right_ne_nil _ (List.cons_ne_nil _ _))
    · obtain ⟨cookie, hid⟩ := hc id g' ⟨s', hold, hend, hseat⟩
      refine ⟨cookie, ?_⟩
      show t.sessions.findLKey id = _
      rw [he.sessions, if_neg]
      · exact hid
      -- an account erased has its entry for the game that has ended
      · have hside : ∀ side, id ≠ Arena.playerOf s.info.session side := by
          rintro side rfl
          unfold Arena.playerOf at hid hseat
          cases hfind : s.info.session.findRKey side with
          | none =>
            rw [hfind] at hseat
            exact absurd (hi.nonzero g' s' hold) (Option.isSome_iff_ne_none.mp hseat)
          | some player =>
            obtain ⟨id, weak⟩ := player
            rw [hfind] at hid
            have hplays : h.Plays id g :=
              ⟨s, hg, hs, by rw [Table.findRKey_eq_some.mp hfind]; rfl⟩
            obtain ⟨cookie', hid'⟩ := hc id g hplays
            cases hid.symm.trans hid'
            exact hne rfl
        exact not_or.mpr ⟨hside 0, hside 1⟩

/-- Without an entry there is none to erase. -/
theorem Complete.authenticate (hc : h.Complete) (hi : h.Inv) {accountId : AccountId}
    {cookie : Hash} {client : SocketId} (hok : h.Admitted (.authenticate accountId cookie client))
    (hr : h.authenticate accountId cookie client = some k) : k.Complete := by
  obtain rfl | ⟨-, g, -, hr⟩ | ⟨other, g, s, hfound, hg, hseat, rfl⟩ := authenticate_cases hr
  · exact hc
  · exact hc.game hi hr
  · intro id g' hplays
    obtain ⟨cookie', he⟩ := hc id g' hplays
    refine ⟨cookie', ?_⟩
    rw [findLKey_eraseSession, if_neg]
    · exact he
    · rintro rfl
      have hnone : (h.sessions.findLKey id).isSome = false := hok other g s hfound hg hseat
      rw [he] at hnone
      cases hnone

theorem Complete.step (hc : h.Complete) (hi : h.Inv) {l : Label} (hok : h.Admitted l)
    (hr : h.step l = some k) : k.Complete := by
  have hmapped : ∀ {k : Hall} {f : Arena → Arena}, k.arenas = h.arenas.map f →
      (∀ s, (f s).info = s.info ∧ (f s).endings = s.endings) →
      ∀ id g, k.Plays id g → h.Plays id g := by
    rintro k f ha hf id g ⟨u, hg, hend, hseat⟩
    rw [ha, List.getElem?_map] at hg
    obtain ⟨s, hold, rfl⟩ := Option.map_eq_some_iff.mp hg
    exact ⟨s, hold, (hf s).2.symm.trans hend, (hf s).1 ▸ hseat⟩
  cases l with
  | matchTransfer lpid rpid a =>
    cases hr
    exact hc.matchTransfer hok
  | authenticate accountId cookie client => exact hc.authenticate hi hok hr
  | game g l => exact hc.game hi (Option.ite_none_left_eq_some.mp hr).2
  | clients sockets isOpen =>
    cases hr
    exact hc
  | stop =>
    cases hr
    exact fun id g hp => hc id g (hmapped (f := cancelled) rfl (fun _ => ⟨rfl, rfl⟩) id g hp)
  | halt =>
    obtain ⟨-, hr⟩ := Option.ite_none_left_eq_some.mp hr
    cases hr
    exact fun id g hp => hc id g (hmapped (f := joined) rfl (fun _ => ⟨rfl, rfl⟩) id g hp)

/-- A step that is not admitted leaves a player out at once. -/
theorem not_complete_of_not_admitted (hi : h.Inv) {l : Label} (hok : ¬ h.Admitted l)
    (hr : h.step l = some k) : ¬ k.Complete := by
  cases l with
  | matchTransfer lpid rpid a =>
    simp only [Admitted, not_forall] at hok
    obtain ⟨lcookie, rcookie, infos, hm, hok⟩ := hok
    cases hr
    exact fun hc => hok ((led_made_iff hm).mp fun id hid => hc id _ (plays_new hm hid))
  | authenticate accountId cookie client =>
    simp only [Admitted, not_forall, Bool.not_eq_false] at hok
    obtain ⟨other, g, s, hfound, hg, hseat, hentry⟩ := hok
    obtain rfl : h.eraseSession accountId = k :=
      Option.some.inj ((authenticate_of_wrong hfound hg hseat).symm.trans hr)
    obtain ⟨⟨cookie', g'⟩, he⟩ := Option.isSome_iff_exists.mp hentry
    intro hc
    obtain ⟨cookie'', he'⟩ := hc accountId g' (hi.entry accountId cookie' g' he)
    rw [findLKey_eraseSession, if_pos rfl] at he'
    cases he'
  | _ => exact absurd trivial hok

/-- **When every player finds the game he was put into**: as long as, and only as long as,
`MatchTransfer` is called for accounts that are in no other game under cookies that are not
in use, and no account in a game comes under the cookie of another game. -/
theorem always_complete_iff (selfKeyword : String) (ls : List Label) :
    Always step Complete (start selfKeyword) ls ↔ Meets step Admitted (start selfKeyword) ls := by
  have hstep : ∀ (h : Hall) l k, h.Inv ∧ h.Complete → h.Admitted l → h.step l = some k →
      k.Inv ∧ k.Complete :=
    fun _ _ _ hi hok hr => ⟨hi.1.step hr, hi.2.step hi.1 hok hr⟩
  have hbreak : ∀ (h : Hall) l k, h.Inv ∧ h.Complete → ¬ h.Admitted l → h.step l = some k →
      ¬ k.Complete :=
    fun _ _ _ hi hok hr => not_complete_of_not_admitted hi.1 hok hr
  exact always_iff_meets (fun _ hi => hi.2) hstep hbreak ls
    ⟨start_inv selfKeyword, fun _ _ ⟨_, hg, _⟩ => nomatch hg⟩

end Hall
end DrgbServer.Battle
