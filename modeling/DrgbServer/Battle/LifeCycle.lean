import DrgbServer.Battle.GameProcess

/-! # The life of a game

`Core` is what the course of a game depends on: whether all players are in, the timer,
the winner. Messages, achievements, sessions and the archive leave it alone, so a run of
the handler comes down to one of the few changes of `handler_cases`, and a step of the
game to those of `step_cases`. -/
namespace DrgbServer.Battle
open DrgbServer.Utils DrgbServer.Network DrgbServer.Lib.Procedure DrgbServer.Lib.Transition

structure Core where
  allIn : Bool
  previousAllIn : Bool
  winner : Int
  clock : Clock
  isRunning : Bool
  halted : Bool
  processed : Nat
  endings : List Ending

namespace Core

def rearm (c : Core) (deadline : Deadline) : Core :=
  { c with clock := c.clock.expiresAfter deadline }

def wait (c : Core) : Core := if !c.isRunning then c else { c with clock := c.clock.asyncWait }

/-- After a player has come or gone. -/
def resumed (c : Core) (prevAllIn : Bool) : Core :=
  if c.allIn then c.rearm .startAnim else if prevAllIn then c.rearm .dis else c

/-- A handler is taken off the queue and notes who is in. -/
def taken (c : Core) (i : Nat) : Core :=
  { c with previousAllIn := c.allIn, clock := c.clock.take i }

/-- The deadline is reached. -/
def expired (c : Core) : Core := { c with clock := c.clock.expire }

/-- What any other step of a game can do to its core. -/
inductive Moves (c : Core) : Core → Prop where
  /-- sockets are opened and closed -/
  | others (allIn : Bool) : Moves c { c with allIn }
  /-- `Enter` and `Exit` -/
  | cancelled (allIn : Bool) : Moves c { c with allIn, clock := c.clock.cancel }
  | stops : Moves c { c with isRunning := false, clock := c.clock.cancel }
  | halts (h : c.isRunning = false) :
    Moves c { c with clock := { c.clock with pending := 0, queued := [] }, halted := true }
  | resumes (i : Nat) (hi : c.clock.queued[i]? = some .aborted) :
    Moves c ((c.taken i).resumed c.previousAllIn).wait
  /-- a round after which the game goes on -/
  | plays (i : Nat) (deadline : Deadline) (hi : c.clock.queued[i]? = some (.expired deadline))
      (hall : c.allIn = true) (winner : Int) (hw : winner = -1) :
    Moves c (({ c.taken i with winner, processed := c.processed + 1 } : Core).rearm .round).wait
  /-- a round that ends the game -/
  | finishes (i : Nat) (deadline : Deadline) (hi : c.clock.queued[i]? = some (.expired deadline))
      (hall : c.allIn = true) (winner : Int) :
    Moves c { c.taken i with
      winner, processed := c.processed + 1
      endings := c.endings ++ [⟨true, deadline, winner⟩] }
  /-- the game is cancelled because somebody is away -/
  | gives (i : Nat) (deadline : Deadline) (hi : c.clock.queued[i]? = some (.expired deadline))
      (hall : c.allIn = false) :
    Moves c { c.taken i with endings := c.endings ++ [⟨false, deadline, c.winner⟩] }

/-- The invariant of a game. -/
structure Life (c : Core) : Prop where
  /-- until the end or the shutdown one wait is outstanding -/
  waits : c.isRunning = true → c.endings = [] → c.clock.outstanding = 1
  atMost : c.clock.outstanding ≤ 1
  spent : c.endings ≠ [] ∨ c.halted = true → c.clock.outstanding = 0
  halts : c.halted = true → c.isRunning = false
  once : c.endings.length ≤ 1
  /-- the deadline is one of `Dis_Time` exactly while somebody is away -/
  paused : c.endings = [] → (c.clock.deadline = .dis ↔ c.previousAllIn = false)
  undecided : c.endings = [] → c.winner = -1
  cancelled : ∀ e ∈ c.endings, e.nowAllIn = false → e.winner = -1

section Clock
variable (k : Clock)

@[simp] theorem outstanding_cancel : k.cancel.outstanding = k.outstanding := by
  simp only [Clock.outstanding, Clock.cancel, List.length_append, List.length_replicate]
  omega

@[simp] theorem outstanding_expire : k.expire.outstanding = k.outstanding := by
  simp only [Clock.outstanding, Clock.expire, List.length_append, List.length_replicate]
  omega

@[simp] theorem outstanding_expiresAfter (deadline : Deadline) :
    (k.expiresAfter deadline).outstanding = k.outstanding := outstanding_cancel k

theorem outstanding_take {i : Nat} {completion : Completion}
    (h : k.queued[i]? = some completion) : (k.take i).outstanding + 1 = k.outstanding := by
  obtain ⟨hlt, _⟩ := List.getElem?_eq_some_iff.mp h
  simp only [Clock.outstanding, Clock.take, List.length_eraseIdx, if_pos hlt]
  omega

end Clock

/-- A handler runs only before the end: there is a completion, and none is left after it. -/
theorem Life.taken {c : Core} (h : c.Life) {i : Nat} {completion : Completion}
    (hi : c.clock.queued[i]? = some completion) :
    c.endings = [] ∧ c.halted = false ∧ (c.taken i).clock.outstanding = 0 := by
  have hout := outstanding_take c.clock hi
  have hmost := h.atMost
  refine ⟨?_, ?_, ?_⟩
  · by_contra hne
    have := h.spent (.inl hne)
    omega
  · by_contra hne
    have := h.spent (.inr (Bool.not_eq_false _ ▸ hne))
    omega
  · change (c.clock.take i).outstanding = 0
    omega

/-- A game that goes on after a handler: the next wait is its only one. -/
theorem life_wait {c : Core} (hend : c.endings = []) (hhalt : c.halted = false)
    (hout : c.clock.outstanding = 0)
    (hpaused : c.clock.deadline = .dis ↔ c.previousAllIn = false) (hw : c.winner = -1) :
    c.wait.Life := by
  cases hrun : c.isRunning with
  | false =>
    have hw' : c.wait = c := if_pos (by rw [hrun]; rfl)
    rw [hw']
    refine ⟨fun h => ?_, ?_, fun _ => hout, fun _ => hrun, ?_, fun _ => hpaused, fun _ => hw, ?_⟩
    · rw [hrun] at h
      cases h
    · omega
    · rw [hend]
      exact Nat.zero_le _
    · rw [hend]
      exact fun e he => nomatch he
  | true =>
    have hw' : c.wait = { c with clock := c.clock.asyncWait } := if_neg (by rw [hrun]; exact nofun)
    have hone : c.clock.asyncWait.outstanding = 1 := by
      simp only [Clock.outstanding, Clock.asyncWait] at hout ⊢
      omega
    rw [hw']
    refine ⟨fun _ _ => hone, hone.le, ?_, ?_, ?_, fun _ => hpaused, fun _ => hw, ?_⟩
    · rintro (h | h)
      · exact absurd hend h
      · exact absurd h (Bool.eq_false_iff.mp hhalt)
    · exact fun h => absurd h (Bool.eq_false_iff.mp hhalt)
    · change c.endings.length ≤ 1
      rw [hend]
      exact Nat.zero_le _
    · change ∀ e ∈ c.endings, _
      rw [hend]
      exact fun e he => nomatch he

/-- The end of a game. -/
theorem life_end {c : Core} (hend : c.endings = []) (hhalt : c.halted = false)
    (hout : c.clock.outstanding = 0) (e : Ending) (he : e.nowAllIn = false → e.winner = -1) :
    Life { c with endings := c.endings ++ [e] } := by
  have hone : c.endings ++ [e] = [e] := by rw [hend, List.nil_append]
  rw [hone]
  refine ⟨fun _ h => (nomatch h), ?_, fun _ => hout, ?_, le_refl 1, fun h => (nomatch h),
    fun h => (nomatch h), ?_⟩
  · exact hout.le.trans (Nat.zero_le 1)
  · exact fun h => absurd h (Bool.eq_false_iff.mp hhalt)
  · intro e' he'
    rw [List.mem_singleton.mp he']
    exact he

theorem Life.expired {c : Core} (h : c.Life) : c.expired.Life :=
  ⟨fun hr he => (outstanding_expire _).trans (h.waits hr he),
    (outstanding_expire _).le.trans h.atMost, fun hd => (outstanding_expire _).trans (h.spent hd),
    h.halts, h.once, h.paused, h.undecided, h.cancelled⟩

/-- **A move keeps the invariant.** -/
theorem Life.moves {c d : Core} (h : c.Life) (hm : c.Moves d) : d.Life := by
  cases hm with
  | others allIn => exact ⟨h.waits, h.atMost, h.spent, h.halts, h.once, h.paused, h.undecided, h.cancelled⟩
  | cancelled allIn =>
    exact ⟨fun hr he => (outstanding_cancel _).trans (h.waits hr he),
      (outstanding_cancel _).le.trans h.atMost, fun hd => (outstanding_cancel _).trans (h.spent hd),
      h.halts, h.once, h.paused, h.undecided, h.cancelled⟩
  | stops =>
    exact ⟨fun hr => (nomatch hr), (outstanding_cancel _).le.trans h.atMost,
      fun hd => (outstanding_cancel _).trans (h.spent hd), fun _ => rfl, h.once, h.paused,
      h.undecided, h.cancelled⟩
  | halts hstopped =>
    refine ⟨fun hr => ?_, Nat.zero_le 1, fun _ => rfl, fun _ => hstopped, h.once, h.paused,
      h.undecided, h.cancelled⟩
    rw [hstopped] at hr
    cases hr
  | resumes i hi =>
    obtain ⟨hend, hhalt, hout⟩ := h.taken hi
    have hpaused := h.paused hend
    unfold resumed
    split
    · rename_i hall
      refine life_wait hend hhalt ((outstanding_expiresAfter _ _).trans hout) ?_ (h.undecided hend)
      exact ⟨fun hd => (nomatch hd), fun hp => absurd hall (Bool.eq_false_iff.mp hp)⟩
    · rename_i hall
      have hall' : c.allIn = false := Bool.eq_false_iff.mpr hall
      split
      · refine life_wait hend hhalt ((outstanding_expiresAfter _ _).trans hout) ?_ (h.undecided hend)
        exact ⟨fun _ => hall', fun _ => rfl⟩
      · rename_i hprev
        refine life_wait hend hhalt hout ?_ (h.undecided hend)
        exact ⟨fun _ => hall', fun _ => hpaused.mpr (Bool.eq_false_iff.mpr hprev)⟩
  | plays i deadline hi hall winner hw =>
    obtain ⟨hend, hhalt, hout⟩ := h.taken hi
    refine life_wait hend hhalt ((outstanding_expiresAfter _ _).trans hout) ?_ hw
    exact ⟨fun hd => (nomatch hd), fun hp => absurd hall (Bool.eq_false_iff.mp hp)⟩
  | finishes i deadline hi hall winner =>
    obtain ⟨hend, hhalt, hout⟩ := h.taken hi
    have hlife := life_end
      (c := { c.taken i with winner := winner, processed := c.processed + 1 }) hend hhalt hout
      ⟨true, deadline, winner⟩ fun h => nomatch h
    exact hlife
  | gives i deadline hi hall =>
    obtain ⟨hend, hhalt, hout⟩ := h.taken hi
    exact life_end (c := c.taken i) hend hhalt hout ⟨false, deadline, c.winner⟩
      fun _ => h.undecided hend

end Core

namespace Arena
variable {s t : Arena} {a : Answers}

def core (s : Arena) : Core where
  allIn := s.isAllIn
  previousAllIn := s.info.previousAllIn
  winner := s.info.game.getWinner
  clock := s.clock
  isRunning := s.gamepool.isRunning
  halted := s.halted
  processed := s.processed
  endings := s.endings

/-! ## What does not touch the core -/

theorem isAllIn_congr (hs : t.info.session = s.info.session) (ho : t.isOpen = s.isOpen)
    (hk : ∀ k, (t.sockets k).isSome = (s.sockets k).isSome) : t.isAllIn = s.isAllIn := by
  have hlock : ∀ weak, t.lock weak = s.lock weak := by
    intro weak
    unfold lock
    congr 1
    funext k
    exact hk k
  unfold isAllIn
  rw [hs, ho]
  congr 1
  funext player
  rw [hlock]

/-- The procedure leaves the core as it is. -/
def Silent {α : Type} (E : Stop → Prop) (m : Proc Arena Stop α) : Prop :=
  ∀ c, Keeps (fun s => s.core = c) E m

section Silent
variable {E F : Stop → Prop} {α β : Type}

theorem silent_pure {x : α} : Silent E (pure x : Proc Arena Stop α) := fun _ => keeps_pure

theorem silent_throw {e : Stop} (h : E e) : Silent E (throw e : Proc Arena Stop α) :=
  fun _ => keeps_throw h

theorem silent_get : Silent E (get : Proc Arena Stop Arena) := fun _ => keeps_get

theorem silent_modify {f : Arena → Arena} (h : ∀ s, (f s).core = s.core) :
    Silent E (modify f : Proc Arena Stop Unit) :=
  fun _ => keeps_modify fun s hs => (h s).trans hs

theorem silent_bind {m : Proc Arena Stop α} {f : α → Proc Arena Stop β} (hm : Silent E m)
    (hf : ∀ x, Silent E (f x)) : Silent E (m >>= f) :=
  fun c => keeps_bind (hm c) fun x => hf x c

theorem silent_raise {r : Except Exn α} (h : ∀ e, E (.thrown e)) :
    Silent E (raise r : Proc Arena Stop α) :=
  fun _ => keeps_raise fun e _ => h e

theorem silent_catching {m : Proc Arena Stop α} {handler : Exn → Proc Arena Stop α}
    (hm : Silent (· ≠ .undefined) m) (hh : ∀ e, Silent E (handler e)) :
    Silent E (catching m handler) :=
  fun c => keeps_catching (hm c) fun e => hh e c

/-- A block that may dereference a null pointer. -/
theorem silent_catching_any {m : Proc Arena Stop α} {handler : Exn → Proc Arena Stop α}
    (hm : Silent (fun _ => True) m) (hh : ∀ e, Silent (fun _ => True) (handler e)) :
    Silent (fun _ => True) (catching m handler) := by
  refine fun c => keeps_tryCatch (hm c) fun stop _ => ?_
  cases stop with
  | thrown e => exact hh e c
  | undefined => exact keeps_throw trivial

theorem Silent.returns {m : Proc Arena Stop α} (h : Silent (fun _ => False) m) (s : Arena) :
    ∃ x t, exec m s = (.ok x, t) ∧ t.core = s.core := (h s.core).returns rfl

theorem Silent.core_eq {m : Proc Arena Stop α} (h : Silent E m) (s : Arena) :
    (exec m s).2.core = s.core := (h s.core s rfl).1

/-- Sockets are written to but do not come or go. -/
theorem core_tolerant (c : Core) : Tolerant fun s => s.core = c where
  sockets s ss hk h := by
    rw [← h]
    unfold core
    rw [isAllIn_congr (s := s) (t := { s with sockets := ss }) rfl rfl hk]
  sessions _ _ h := h
  setInfos _ _ h := h
  clearInfos _ _ h := h

theorem core_setGame {game : MyGame} (h : game.getWinner = s.info.game.getWinner) :
    core { s with info := { s.info with game } } = s.core := by
  unfold core
  rw [isAllIn_congr (s := s) (t := { s with info := { s.info with game } }) rfl rfl fun _ => rfl, h]

theorem fetchAchievements_silent (achievements : List (Fin 2 × AchievementId × Int)) :
    Silent E (fetchAchievements a achievements) := by
  induction achievements with
  | nil => exact silent_pure
  | cons achievement rest ih =>
    obtain ⟨side, achieve, count⟩ := achievement
    refine silent_bind (silent_modify fun s => core_setGame ?_) fun _ => ?_
    · unfold MyGame.getAchievement
      split <;> rfl
    refine silent_bind silent_get fun s => ?_
    exact silent_bind (fun c => achieveProgress_keeps (core_tolerant c) _ _ _ _) fun _ => ih

theorem archiveBattle_silent (archive : Archive) :
    Silent (· ≠ .undefined) (archiveBattle a archive) :=
  silent_bind (silent_raise fun _ => nofun) fun _ => silent_modify fun _ => rfl

theorem archive_silent (ids : Sides AccountId) (sockets : Sides (Option SocketId)) (winner : Int)
    (isCrashed : Bool) : Silent (fun _ => True) (archive a ids sockets winner isCrashed) := by
  refine silent_catching ?_ fun e => ?_
  · unfold archiving
    split
    · exact silent_throw nofun
    · exact silent_bind (archiveBattle_silent _) fun _ => silent_raise fun _ => nofun
  · refine silent_bind (fun c => report_keeps (core_tolerant c) _) fun _ => ?_
    exact silent_bind (fun c => report_keeps (core_tolerant c) _) fun _ => silent_throw trivial

theorem settle_silent (ids : Sides AccountId) (sockets : Sides (Option SocketId)) (winner : Int)
    (isCrashed : Bool) : Silent (fun _ => True) (settle a ids sockets winner isCrashed) := by
  refine silent_bind (fun c => drawn_keeps (core_tolerant c) _ _ _ _) fun _ => ?_
  refine silent_bind (archive_silent _ _ _ _) fun _ => ?_
  refine silent_bind (fun c => won_keeps (core_tolerant c) _ _ _) fun _ => ?_
  refine silent_bind (fun c => dismiss_keeps (core_tolerant c) _ _ _ _ _) fun _ c => ?_
  exact dismiss_keeps (core_tolerant c) _ _ _ _ _

theorem isRunning_releaseTimer (p : Gamepool) (timer : TimerId) :
    (p.releaseTimer timer).isRunning = p.isRunning := by
  unfold Gamepool.releaseTimer Gamepool.isRunning TimerPool.releaseTimer
  dsimp only
  split <;> rfl

theorem releaseTimer_silent : Silent E releaseTimer := by
  refine silent_modify fun s => ?_
  unfold core
  dsimp only
  rw [isRunning_releaseTimer]
  rfl

end Silent

/-! ## What a run of the handler does -/

/-- The exception a `try` block ended with, or none. -/
theorem catching_what_silent {m : Proc Arena Stop Unit} (hm : Silent (fun _ => True) m) :
    Silent (fun _ => True) (catching (do m; return none) fun e => return some e.what) :=
  silent_catching_any (silent_bind hm fun _ => silent_pure) fun _ => silent_pure

/-- **The end of the game** adds an ending and changes nothing else, however it ends. -/
theorem core_terminal (nowAllIn : Bool) (deadline : Deadline) (s : Arena) :
    (exec (terminal a nowAllIn deadline) s).2.core =
      { s.core with endings := s.endings ++ [⟨nowAllIn, deadline, s.info.game.getWinner⟩] } := by
  rw [terminal, exec_bind, exec_get]
  dsimp only
  rw [exec_bind, exec_modify]
  dsimp only
  refine (Silent.core_eq (E := fun _ => True) ?_ _).trans rfl
  refine silent_bind (catching_what_silent (settle_silent _ _ _ _)) fun eptr => ?_
  refine silent_bind releaseTimer_silent fun _ => ?_
  refine silent_bind (silent_modify fun _ => rfl) fun _ => ?_
  refine silent_bind (silent_modify fun _ => rfl) fun _ => ?_
  split
  · exact silent_throw trivial
  · exact silent_pure

theorem core_resume (prevAllIn : Bool) {nowAllIn : Bool} (hall : s.isAllIn = nowAllIn) :
    ∃ t, exec (resume prevAllIn nowAllIn) s = (.ok (), t) ∧ t.core = s.core.resumed prevAllIn := by
  have hr : s.core.resumed prevAllIn = if nowAllIn then s.core.rearm .startAnim
      else if prevAllIn then s.core.rearm .dis else s.core := hall ▸ rfl
  rw [hr, resume]
  cases nowAllIn with
  | true =>
    obtain ⟨_, t, ht, hc⟩ :=
      (sendRoundResult_keeps (core_tolerant s.core) gamePlayerAllConnected).returns rfl
    refine ⟨{ t with clock := t.clock.expiresAfter .startAnim }, ?_, ?_⟩
    · rw [if_pos rfl, exec_bind, ht]
      rfl
    · rw [if_pos rfl, ← hc]
      rfl
  | false =>
    rw [if_neg Bool.false_ne_true, if_neg Bool.false_ne_true]
    cases prevAllIn with
    | true =>
      obtain ⟨_, t, ht, hc⟩ :=
        (announce_keeps (core_tolerant s.core) fun _ => code gamePlayerDisconnedted).returns rfl
      refine ⟨{ t with clock := t.clock.expiresAfter .dis }, ?_, ?_⟩
      · rw [if_pos rfl, exec_bind, ht]
        rfl
      · rw [if_pos rfl, ← hc]
        rfl
    | false => exact ⟨s, rfl, rfl⟩

theorem core_gameProcess (s : Arena) :
    ∃ t, exec gameProcess s = (.ok (), t) ∧ t.core = s.core.wait := by
  refine ⟨_, exec_modify _ s, ?_⟩
  have hw : s.core.wait =
      if !s.gamepool.isRunning then s.core else { s.core with clock := s.clock.asyncWait } := rfl
  rw [hw]
  split <;> rfl

/-- A game that goes on has no winner. -/
theorem process_winner {game : MyGame} (h : game.process.1 = false) :
    game.process.2.getWinner = -1 := by
  unfold MyGame.process at h ⊢
  split at h
  · cases h
  split at h
  · cases h
  · rename_i hround hwinner
    rw [if_neg hround, if_neg hwinner]
    simp only [decide_eq_false_iff_not, not_or, not_le] at h
    rcases MyGame.getWinner_range _ with hw | hw | hw
    · exact hw
    · exact absurd (hw ▸ h.1) (by decide)
    · exact absurd (hw ▸ h.1) (by decide)

theorem core_playRound (s : Arena) :
    ∃ t, exec (playRound a) s = (.ok s.info.game.process.1, t) ∧ t.core =
      { s.core with winner := s.info.game.process.2.getWinner, processed := s.processed + 1 } := by
  rw [playRound, exec_bind, exec_get]
  dsimp only
  rw [exec_bind, exec_modify]
  dsimp only
  have hsilent : Silent (fun _ => False) (do
      sendRoundResult gameRoundResult
      fetchAchievements a s.info.game.process.2.achievements) :=
    silent_bind (fun c => sendRoundResult_keeps (core_tolerant c) _) fun _ =>
      fetchAchievements_silent _
  obtain ⟨_, t, ht, hc⟩ := hsilent.returns
    { s with info := { s.info with game := s.info.game.process.2 }, processed := s.processed + 1 }
  refine ⟨t, ?_, hc.trans rfl⟩
  rw [exec_bind] at ht ⊢
  split
  · rename_i heq
    rw [heq] at ht
    dsimp only at ht ⊢
    rw [exec_bind, ht]
    rfl
  · rename_i heq
    rw [heq] at ht
    cases ht

/-- The handler has noted who is in. -/
def noted (s : Arena) : Arena :=
  { s with info := { s.info with previousAllIn := s.isAllIn } }

theorem core_noted : s.noted.core = { s.core with previousAllIn := s.isAllIn } := rfl

theorem exec_handler (completion : Completion) : exec (handler a completion) s =
    exec (proceed a completion s.info.previousAllIn s.isAllIn) s.noted := by
  rw [handler, exec_bind, exec_get]
  dsimp only
  rw [exec_bind, exec_modify]
  rfl

theorem core_aborted :
    (exec (handler a .aborted) s).2.core =
      (({ s.core with previousAllIn := s.isAllIn } : Core).resumed s.info.previousAllIn).wait := by
  have hall : s.noted.isAllIn = s.isAllIn := rfl
  obtain ⟨t, ht, hc⟩ := core_resume s.info.previousAllIn hall
  obtain ⟨u, hu, hw⟩ := core_gameProcess t
  rw [exec_handler, proceed, exec_bind, ht]
  dsimp only
  rw [hu]
  rw [core_noted] at hc
  exact hw.trans (congrArg Core.wait hc)

/-- **The deadline was reached with all players in**: a round is played. -/
theorem core_expired_in (deadline : Deadline) (h : s.isAllIn = true) :
    (∃ winner, winner = -1 ∧ (exec (handler a (.expired deadline)) s).2.core =
      (({ s.core with
          previousAllIn := s.isAllIn, winner, processed := s.processed + 1 } : Core).rearm
        .round).wait) ∨
    ∃ winner, (exec (handler a (.expired deadline)) s).2.core =
      { s.core with
        previousAllIn := s.isAllIn, winner, processed := s.processed + 1
        endings := s.endings ++ [⟨true, deadline, winner⟩] } := by
  obtain ⟨t, ht, hc⟩ := core_playRound (a := a) s.noted
  rw [exec_handler, proceed, if_pos h, exec_bind, ht]
  dsimp only
  rw [core_noted] at hc
  cases hover : s.noted.info.game.process.1 with
  | true =>
    refine .inr ⟨s.noted.info.game.process.2.getWinner, ?_⟩
    have hwinner : t.info.game.getWinner = s.noted.info.game.process.2.getWinner :=
      congrArg Core.winner hc
    have hendings : t.endings = s.endings := congrArg Core.endings hc
    rw [if_pos rfl, core_terminal, hc, hwinner, hendings, h]
    rfl
  | false =>
    obtain ⟨u, hu, hw⟩ := core_gameProcess { t with clock := t.clock.expiresAfter .round }
    refine .inl ⟨s.noted.info.game.process.2.getWinner, process_winner hover, ?_⟩
    rw [if_neg Bool.false_ne_true, exec_bind, expiresAfter, exec_modify]
    dsimp only
    rw [hu]
    refine hw.trans (congrArg Core.wait ?_)
    change t.core.rearm .round = _
    rw [hc]
    rfl

/-- **The deadline was reached with a player missing**: the game is cancelled. -/
theorem core_expired_out (deadline : Deadline) (h : s.isAllIn = false) :
    (exec (handler a (.expired deadline)) s).2.core =
      { s.core with
        previousAllIn := s.isAllIn
        endings := s.endings ++ [⟨false, deadline, s.info.game.getWinner⟩] } := by
  rw [exec_handler, proceed, if_neg (Bool.eq_false_iff.mp h), core_terminal, core_noted, h]
  rfl

/-! ## What a step does -/

theorem core_enter (id : AccountId) (socket : SocketId) : s.core.Moves (s.enter id socket).core := by
  unfold enter
  split
  · rename_i origin info h
    have hinfo : info.previousAllIn = s.info.previousAllIn ∧ info.game = s.info.game := by
      unfold GameInfo.enter at h
      split at h
      · cases h
        exact ⟨rfl, rfl⟩
      · cases h
    have hmoves := Core.Moves.cancelled (c := s.core)
      (isAllIn { s with info, clock := s.clock.cancel })
    have hcore : core { s with info, clock := s.clock.cancel } =
        { s.core with
          allIn := isAllIn { s with info, clock := s.clock.cancel }
          clock := s.core.clock.cancel } := by
      unfold core
      dsimp only
      rw [hinfo.1, hinfo.2]
    rw [hcore]
    exact hmoves
  · exact .others s.isAllIn

theorem core_exit (id : AccountId) (socket : SocketId) : s.core.Moves (s.exit id socket).core := by
  unfold exit
  split
  · split
    · exact .cancelled (isAllIn { s with info := s.info.leave id, clock := s.clock.cancel })
    · exact .others s.isAllIn
  · exact .others s.isAllIn

theorem core_act (side : Int) (action : BitVec 32) : (s.act side action).core = s.core := by
  unfold act
  split
  · rename_i game h
    exact core_setGame (MyGame.getWinner_action h)
  · rfl

theorem core_accept {k : SocketId} (h : s.accept k = some t) : s.core.Moves t.core := by
  unfold accept at h
  split at h
  · cases h
  · cases h
    exact .others _

theorem core_handle {i : Nat} (h : s.handle i a = some t) : s.core.Moves t.core := by
  unfold handle at h
  split at h
  · cases h
  rename_i completion hi
  have hcore : t.core = (exec (handler a completion) (s.setClock (s.clock.take i))).2.core := by
    split at h
    · rename_i ht
      cases h
      rw [ht]
    · rename_i ht
      cases h
      rw [ht]
      rfl
    · rename_i ht
      cases h
      rw [ht]
      rfl
  rw [hcore]
  cases completion with
  | aborted =>
    rw [core_aborted]
    exact .resumes i hi
  | expired deadline =>
    have hall' : (s.setClock (s.clock.take i)).isAllIn = s.isAllIn := rfl
    cases hall : s.isAllIn with
    | true =>
      rcases core_expired_in (a := a) deadline (hall'.trans hall) with ⟨winner, hw, hc⟩ | ⟨winner, hc⟩
      · rw [hc]
        exact .plays i deadline hi hall winner hw
      · rw [hc]
        exact .finishes i deadline hi hall winner
    | false =>
      rw [core_expired_out deadline (hall'.trans hall)]
      exact .gives i deadline hi hall

/-- **Every step reaches the deadline or is a move of the core.** -/
theorem step_cases {l : Label} (h : s.step l = some t) :
    (l = .expire ∧ t.core = s.core.expired) ∨ s.core.Moves t.core := by
  unfold step at h
  split at h
  · cases h
  cases l with
  | expire =>
    cases h
    exact .inl ⟨rfl, rfl⟩
  | enter id socket =>
    cases h
    exact .inr (core_enter id socket)
  | exit id socket =>
    cases h
    exact .inr (core_exit id socket)
  | action side action =>
    cases h
    rw [core_act]
    exact .inr (.others s.isAllIn)
  | accept k => exact .inr (core_accept h)
  | shut k =>
    cases h
    exact .inr (.others (isAllIn { s with sockets := s.sockets.modify k (·.close) }))
  | drop k =>
    cases h
    exact .inr (.others (s.drop k).isAllIn)
  | free k =>
    cases h
    exact .inr (.others (isAllIn { s with sockets := Function.update s.sockets k none }))
  | others sessions =>
    cases h
    exact .inr (.others s.isAllIn)
  | handle i a => exact .inr (core_handle h)
  | stop =>
    cases h
    exact .inr .stops
  | halt =>
    dsimp only at h
    split at h
    · cases h
    · rename_i hrun
      cases h
      exact .inr (.halts (Bool.eq_false_iff.mpr hrun))

/-! ## Runs of a game -/

/-- What holds in every state of a game. -/
structure LifeCycle (s : Arena) : Prop where
  /-- one wait is outstanding until the terminal branch or the shutdown -/
  waits : s.gamepool.isRunning = true → s.endings = [] → s.clock.outstanding = 1
  /-- and none afterwards -/
  spent : s.endings ≠ [] ∨ s.halted = true → s.clock.outstanding = 0
  /-- the terminal branch runs at most once -/
  once : s.endings.length ≤ 1
  /-- the armed deadline is one of `Dis_Time` exactly while somebody was away -/
  paused : s.endings = [] → (s.clock.deadline = .dis ↔ s.info.previousAllIn = false)
  /-- a game cancelled has no winner -/
  cancelled : ∀ e ∈ s.endings, e.nowAllIn = false → e.winner = -1
  /-- a step that calls `MyGame::process` is a run of the handler with all players in -/
  processes : ∀ l t, s.step l = some t → t.processed ≠ s.processed →
    s.isAllIn = true ∧ ∃ i a, l = .handle i a
  /-- a step that arms a deadline while one of `Dis_Time` is armed finds all players in -/
  postpones : ∀ l t, s.step l = some t → s.clock.deadline = .dis → s.endings = [] →
    t.clock.armed ≠ s.clock.armed → s.isAllIn = true

theorem moves_processed {c d : Core} (hm : c.Moves d) (h : d.processed ≠ c.processed) :
    c.allIn = true := by
  cases hm with
  | others | cancelled | stops | halts | gives => exact absurd rfl h
  | resumes i hi =>
    refine absurd ?_ h
    unfold Core.wait Core.resumed
    split_ifs <;> rfl
  | plays i deadline hi hall | finishes i deadline hi hall => exact hall

theorem moves_armed {c d : Core} (hm : c.Moves d) (hprev : c.previousAllIn = false)
    (h : d.clock.armed ≠ c.clock.armed) : c.allIn = true := by
  cases hm with
  | others | cancelled | stops | halts | gives => exact absurd rfl h
  | resumes i hi =>
    cases hall : c.allIn with
    | true => rfl
    | false =>
      -- the deadline of an absence is left alone as long as somebody is away
      have hr : (c.taken i).resumed c.previousAllIn = c.taken i :=
        (if_neg (Bool.eq_false_iff.mp hall)).trans (if_neg (Bool.eq_false_iff.mp hprev))
      rw [hr] at h
      refine absurd ?_ h
      unfold Core.wait
      split <;> rfl
  | plays i deadline hi hall | finishes i deadline hi hall => exact hall

theorem processed_of_step {l : Label} (h : s.step l = some t) (hl : ∀ i a, l ≠ .handle i a) :
    t.processed = s.processed := by
  unfold step at h
  split at h
  · cases h
  cases l with
  | enter id socket =>
    cases h
    unfold enter
    split <;> rfl
  | exit id socket =>
    cases h
    unfold exit
    split
    · split <;> rfl
    · rfl
  | action side action =>
    cases h
    unfold act
    split <;> rfl
  | accept k =>
    change s.accept k = some t at h
    unfold accept at h
    split at h
    · cases h
    · cases h
      rfl
  | handle i a => exact absurd rfl (hl i a)
  | halt =>
    dsimp only at h
    split at h
    · cases h
    · cases h
      rfl
  | shut | drop | free | others | expire | stop =>
    cases h
    rfl

/-- A step keeps the invariant. -/
theorem step_life {l : Label} (h : s.core.Life) (hs : s.step l = some t) : t.core.Life := by
  rcases step_cases hs with ⟨_, hc⟩ | hm
  · rw [hc]
    exact h.expired
  · exact h.moves hm

theorem lifeCycle_of_life (h : s.core.Life) : s.LifeCycle where
  waits := h.waits
  spent := h.spent
  once := h.once
  paused := h.paused
  cancelled := h.cancelled
  processes l t hs hp := by
    constructor
    · rcases step_cases hs with ⟨_, hc⟩ | hm
      · exact absurd (congrArg Core.processed hc) hp
      · exact moves_processed hm hp
    · by_contra hl
      exact hp (processed_of_step hs fun i a hi => hl ⟨i, a, hi⟩)
  postpones l t hs hdis hend harmed := by
    rcases step_cases hs with ⟨_, hc⟩ | hm
    · exact absurd (congrArg (fun c => c.clock.armed) hc) harmed
    · exact moves_armed hm ((h.paused hend).mp hdis) harmed

theorem start_life (selfKeyword : String) (ids : Sides AccountId) (timer : TimerId)
    (infos : Sides ByteQueue) (sockets : Sockets) (isOpen : SocketId → Bool)
    (sessions : Table AccountId Hash GameId) (gamepool : Gamepool) :
    (start selfKeyword ids timer infos sockets isOpen sessions gamepool).core.Life where
  waits h _ := by
    change gamepool.isRunning = true at h
    change (if gamepool.isRunning then 1 else 0) + 0 = 1
    rw [if_pos h]
  atMost := by
    change (if gamepool.isRunning then 1 else 0) + 0 ≤ 1
    split <;> decide
  spent h := by
    rcases h with h | h
    · exact absurd rfl h
    · cases h
  halts h := by cases h
  once := Nat.zero_le 1
  paused _ := ⟨fun _ => rfl, fun _ => rfl⟩
  undecided _ := by
    change MyGame.fresh.getWinner = -1
    decide
  cancelled e he := by cases he

/-- **The life of a game**, in every state of every run. -/
theorem run_lifeCycle (selfKeyword : String) (ids : Sides AccountId) (timer : TimerId)
    (infos : Sides ByteQueue) (sockets : Sockets) (isOpen : SocketId → Bool)
    (sessions : Table AccountId Hash GameId) (gamepool : Gamepool) (labels : List Label) :
    Always step LifeCycle
      (start selfKeyword ids timer infos sockets isOpen sessions gamepool) labels :=
  always_of_meets (fun _ => lifeCycle_of_life)
    (fun _ _ _ hlife _ hs => step_life hlife hs) (start_life ..) (meets_true _ _)

/-! ## The grace of a disconnection -/

/-- A game is cancelled only by a deadline of `Dis_Time`. -/
def Graceful (s : Arena) : Prop :=
  ∀ e ∈ s.endings, e.nowAllIn = false → e.deadline = .dis

instance (s : Arena) : Decidable s.Graceful :=
  inferInstanceAs (Decidable (∀ e ∈ s.endings, e.nowAllIn = false → e.deadline = .dis))

/-- A deadline of another kind was reached and its handler has not run. -/
def urgent (s : Arena) : Bool :=
  s.clock.queued.any fun
    | .expired deadline => decide (deadline ≠ .dis)
    | .aborted => false

/-- The step takes a player out of the game. -/
def parts (s : Arena) (l : Label) : Bool := s.isAllIn && (s.step l).any fun t => !t.isAllIn

/-- The condition on a step: a deadline other than one of `Dis_Time` is reached with all
players in, and nobody leaves before its handler has run. -/
def graced (s : Arena) (l : Label) : Bool :=
  (match l with
    | .expire => decide (s.clock.deadline = .dis) || s.isAllIn
    | _ => true) &&
  (!s.urgent || !s.parts l)

theorem urgent_iff :
    s.urgent = true ↔ ∃ deadline, deadline ≠ .dis ∧ .expired deadline ∈ s.clock.queued := by
  unfold urgent
  rw [List.any_eq_true]
  constructor
  · rintro ⟨completion, hmem, hc⟩
    cases completion with
    | expired deadline => exact ⟨deadline, of_decide_eq_true hc, hmem⟩
    | aborted => cases hc
  · rintro ⟨deadline, hne, hmem⟩
    exact ⟨_, hmem, decide_eq_true hne⟩

/-- The queue after a move: completions that were there, and cancelled waits. -/
theorem moves_queued {c d : Core} (hm : c.Moves d) {completion : Completion}
    (h : completion ∈ d.clock.queued) : completion ∈ c.clock.queued ∨ completion = .aborted := by
  have hcancel : ∀ {k : Clock}, completion ∈ k.cancel.queued →
      completion ∈ k.queued ∨ completion = .aborted := by
    intro k hk
    rcases List.mem_append.mp hk with hk | hk
    · exact .inl hk
    · exact .inr (List.eq_of_mem_replicate hk)
  have hwait : ∀ {e : Core}, completion ∈ e.wait.clock.queued → completion ∈ e.clock.queued := by
    intro e he
    unfold Core.wait at he
    split at he
    · exact he
    · exact he
  have htake : ∀ {i : Nat}, completion ∈ (c.clock.take i).queued → completion ∈ c.clock.queued :=
    fun hq => List.mem_of_mem_eraseIdx hq
  cases hm with
  | others allIn => exact .inl h
  | cancelled allIn => exact hcancel h
  | stops => exact hcancel h
  | halts hstopped => cases h
  | resumes i hi =>
    have hq := hwait h
    unfold Core.resumed at hq
    split at hq
    · exact (hcancel hq).imp_left htake
    · split at hq
      · exact (hcancel hq).imp_left htake
      · exact .inl (htake hq)
  | plays i deadline hi hall winner hw => exact (hcancel (hwait h)).imp_left htake
  | finishes i deadline hi hall winner => exact .inl (htake h)
  | gives i deadline hi hall => exact .inl (htake h)

/-- The endings after a move: the game was cancelled by a completion in the queue. -/
theorem moves_endings {c d : Core} (hm : c.Moves d) {e : Ending} (he : e ∈ d.endings)
    (hout : e.nowAllIn = false) :
    e ∈ c.endings ∨ c.allIn = false ∧ .expired e.deadline ∈ c.clock.queued := by
  cases hm with
  | others | cancelled | stops | halts => exact .inl he
  | resumes i hi =>
    refine .inl ?_
    unfold Core.wait Core.resumed at he
    split_ifs at he <;> exact he
  | plays i deadline hi hall winner hw =>
    refine .inl ?_
    unfold Core.wait at he
    split at he <;> exact he
  | finishes i deadline hi hall winner =>
    rcases List.mem_append.mp he with he | he
    · exact .inl he
    · rw [List.mem_singleton.mp he] at hout
      cases hout
  | gives i deadline hi hall =>
    rcases List.mem_append.mp he with he | he
    · exact .inl he
    · rw [List.mem_singleton.mp he]
      exact .inr ⟨hall, List.mem_of_getElem? hi⟩

/-- The run invariant: while a round's deadline waits for its handler all players are in. -/
structure Grace (s : Arena) : Prop where
  stay : s.urgent = true → s.isAllIn = true
  graceful : s.Graceful

theorem step_grace {l : Label} (h : s.Grace) (hok : s.graced l = true) (hs : s.step l = some t) :
    t.Grace := by
  obtain ⟨hexpire, hstay⟩ := Bool.and_eq_true_iff.mp hok
  rcases step_cases hs with ⟨rfl, hc⟩ | hm
  · have hall : t.isAllIn = s.isAllIn := congrArg Core.allIn hc
    have hclock : t.clock = s.clock.expire := congrArg Core.clock hc
    refine ⟨fun hu => ?_, ?_⟩
    · rw [hall]
      obtain ⟨deadline, hne, hmem⟩ := urgent_iff.mp hu
      rw [hclock] at hmem
      rcases List.mem_append.mp hmem with hmem | hmem
      · exact h.stay (urgent_iff.mpr ⟨deadline, hne, hmem⟩)
      · cases List.eq_of_mem_replicate hmem
        exact (Bool.or_eq_true_iff.mp hexpire).resolve_left fun hd =>
          hne (of_decide_eq_true hd)
    · have hend : t.endings = s.endings := congrArg Core.endings hc
      unfold Graceful
      rw [hend]
      exact h.graceful
  · refine ⟨fun hu => ?_, fun e he hout => ?_⟩
    · obtain ⟨deadline, hne, hmem⟩ := urgent_iff.mp hu
      have hmem' := (moves_queued hm hmem).resolve_right nofun
      have hurgent : s.urgent = true := urgent_iff.mpr ⟨deadline, hne, hmem'⟩
      have hparts : s.parts l = false := by
        rw [hurgent] at hstay
        simpa using hstay
      rw [parts, h.stay hurgent, hs] at hparts
      simpa using hparts
    · rcases moves_endings hm he hout with he | ⟨hall, hmem⟩
      · exact h.graceful e he hout
      · by_contra hne
        have hin := h.stay (urgent_iff.mpr ⟨e.deadline, hne, hmem⟩)
        have hall' : s.isAllIn = false := hall
        rw [hall'] at hin
        cases hin

/-- **Disconnection grace is respected** in every run in which a deadline of a round is
reached with all players in and nobody leaves before its handler has run. -/
theorem run_graceful (selfKeyword : String) (ids : Sides AccountId) (timer : TimerId)
    (infos : Sides ByteQueue) (sockets : Sockets) (isOpen : SocketId → Bool)
    (sessions : Table AccountId Hash GameId) (gamepool : Gamepool) (labels : List Label)
    (h : Meets step (fun s l => s.graced l = true)
      (start selfKeyword ids timer infos sockets isOpen sessions gamepool) labels) :
    Always step Graceful
      (start selfKeyword ids timer infos sockets isOpen sessions gamepool) labels := by
  refine always_of_meets (I := Grace) (fun _ hg => hg.graceful)
    (fun _ _ _ hg hok hs => step_grace hg hok hs) ⟨fun hu => ?_, ?_⟩ h
  · cases hu
  · exact fun e he => nomatch he

/-- A game of the accounts 1 and 2 with nobody connected. -/
def waiting : Arena :=
  start "battle1" ⟨1, 2⟩ 0 ⟨ByteQueue.empty, ByteQueue.empty⟩ (fun _ => none) (fun _ => false)
    Table.empty ⟨TimerPool.start.hold, nofun⟩

/-- The database answers. -/
def recorded : Answers where
  achieveConnection _ _ := true
  achieveProgress _ _ _ := .ok false
  achieve _ _ := .ok false
  connection := true
  archiveBattle := .ok ()
  commit := .ok ()

/-- Both players connect and the start of the game is announced. -/
def gather : List Label :=
  [.accept 1, .enter 1 1, .accept 2, .enter 2 2, .handle 0 recorded]

/-- A player leaves and the pause is over. -/
def walkOut : List Label := gather ++ [.exit 1 1, .handle 0 recorded, .expire, .handle 0 recorded]

theorem run_graceful_walkOut : Always step Graceful waiting walkOut ∧
    ∃ s, run step waiting walkOut = some s ∧ s.endings = [⟨false, .dis, -1⟩] := by
  refine ⟨run_graceful _ _ _ _ _ _ _ _ _ (by decide +kernel), ?_⟩
  exact exists_run_of_any (by decide +kernel)

/-- The player leaves just after the first deadline was reached: the game is cancelled at
once. -/
theorem not_graceful_late_exit :
    ∃ s, run step waiting (gather ++ [.expire, .exit 1 1, .handle 0 recorded]) = some s ∧
      ¬ s.Graceful := exists_run_of_any (by decide +kernel)

end Arena
end DrgbServer.Battle
