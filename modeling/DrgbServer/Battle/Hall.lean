import DrgbServer.Battle.MatchTransfer
import DrgbServer.Battle.GameEnd
import DrgbServer.Battle.Seats

/-! # A battle server with all its games

`MatchTransfer` opens the games, the clients come and go, and the timers of the games run
their handlers, over one session table and one pool of timers. A handler is one step, as it
is for a single game. -/
namespace DrgbServer.Battle
open DrgbServer.Utils DrgbServer.Network DrgbServer.Lib.Procedure DrgbServer.Lib.Transition

namespace Arena
variable {s t u : Arena} {a : Answers} {ids : AccountId → Prop} {E : Stop → Prop}

/-! ## What a handler does to the session table and the pool -/

/-- What the games of a server share, and what ties a game to it. -/
def ties (s : Arena) : List Ending × Gamepool × TimerId × Table AccountId Int (Option SocketId) ×
    Table AccountId Hash GameId :=
  (s.endings, s.gamepool, s.info.timer, s.info.session, s.sessions)

/-- The game goes on, and at most the entries of these accounts have been erased. -/
structure Apart (ids : AccountId → Prop) (s t : Arena) : Prop where
  endings : t.endings = s.endings
  gamepool : t.gamepool = s.gamepool
  timer : t.info.timer = s.info.timer
  session : t.info.session = s.info.session
  others : ∀ id, ¬ ids id → t.sessions.findLKey id = s.sessions.findLKey id
  erased : ∀ id e, t.sessions.findLKey id = some e → s.sessions.findLKey id = some e

/-- The game has ended: its timer is given back and its accounts have no entry. -/
structure Ended (s t : Arena) : Prop where
  endings : ∃ e, t.endings = s.endings ++ [e]
  gamepool : t.gamepool = s.gamepool.releaseTimer s.info.timer
  timer : t.info.timer = s.info.timer
  session : t.info.session = s.info.session
  sessions : ∀ id, t.sessions.findLKey id =
    if id = playerOf s.info.session 0 ∨ id = playerOf s.info.session 1 then none
    else s.sessions.findLKey id

theorem Apart.refl (s : Arena) : Apart ids s s :=
  ⟨rfl, rfl, rfl, rfl, fun _ _ => rfl, fun _ _ h => h⟩

theorem Apart.trans (h : Apart ids s t) (h' : Apart ids t u) : Apart ids s u where
  endings := h'.endings.trans h.endings
  gamepool := h'.gamepool.trans h.gamepool
  timer := h'.timer.trans h.timer
  session := h'.session.trans h.session
  others id hid := (h'.others id hid).trans (h.others id hid)
  erased id e he := h.erased id e (h'.erased id e he)

theorem Apart.same (h : Apart ids s t) (hu : u.ties = t.ties) : Apart ids s u := by
  simp only [ties, Prod.mk.injEq] at hu
  obtain ⟨hendings, hgamepool, htimer, hsession, hsessions⟩ := hu
  refine h.trans ⟨hendings, hgamepool, htimer, hsession, fun _ _ => by rw [hsessions], ?_⟩
  intro id e he
  rwa [hsessions] at he

theorem Apart.ended (h : Apart (fun _ => False) s t) (h' : Ended t u) : Ended s u where
  endings := by
    obtain ⟨e, he⟩ := h'.endings
    exact ⟨e, by rw [he, h.endings]⟩
  gamepool := by rw [h'.gamepool, h.gamepool, h.timer]
  timer := h'.timer.trans h.timer
  session := h'.session.trans h.session
  sessions id := by rw [h'.sessions, h.session, h.others id not_false]

theorem Ended.same (h : Ended s t) (hu : u.ties = t.ties) : Ended s u := by
  simp only [ties, Prod.mk.injEq] at hu
  obtain ⟨hendings, hgamepool, htimer, hsession, hsessions⟩ := hu
  refine ⟨?_, hgamepool.trans h.gamepool, htimer.trans h.timer, hsession.trans h.session, ?_⟩
  · obtain ⟨e, he⟩ := h.endings
    exact ⟨e, hendings.trans he⟩
  · rw [hsessions]
    exact h.sessions

section Handler

theorem send_apart (k : SocketId) (bytes : ByteQueue) : Keeps (Apart ids s) E (send k bytes) :=
  keeps_modify fun _ h => h.same rfl

theorem close_apart (k : SocketId) : Keeps (Apart ids s) E (close k) :=
  keeps_modify fun _ h => h.same rfl

theorem announce_apart (packet : Int → ByteQueue) : Keeps (Apart ids s) E (announce packet) :=
  keeps_modify fun _ h => h.same rfl

theorem achieveProgress_apart (id : AccountId) (achieve : AchievementId) (count : Int)
    (socket : Option SocketId) :
    Keeps (Apart ids s) E (achieveProgress a id achieve count socket) := by
  refine keeps_catching ?_ fun _ => keeps_pure
  split
  · exact keeps_throw nofun
  · refine keeps_bind (keeps_raise fun _ _ => nofun) fun isAchieved => ?_
    refine keeps_bind keeps_get fun s => ?_
    split
    · exact send_apart _ _
    · exact keeps_pure

theorem fetchAchievements_apart (achievements : List (Fin 2 × AchievementId × Int)) :
    Keeps (Apart ids s) E (fetchAchievements a achievements) := by
  induction achievements with
  | nil => exact keeps_pure
  | cons achievement rest ih =>
    obtain ⟨side, achieve, count⟩ := achievement
    refine keeps_bind (keeps_modify fun _ h => h.same rfl) fun _ => ?_
    refine keeps_bind keeps_get fun s => ?_
    exact keeps_bind (achieveProgress_apart _ _ _ _) fun _ => ih

theorem playRound_apart : Keeps (Apart ids s) E (playRound a) := by
  refine keeps_bind keeps_get fun s => ?_
  refine keeps_bind (keeps_modify fun _ h => h.same rfl) fun _ => ?_
  refine keeps_bind (keeps_bind keeps_get fun _ => announce_apart _) fun _ => ?_
  exact keeps_bind (fetchAchievements_apart _) fun _ => keeps_pure

theorem gameProcess_apart : Keeps (Apart ids s) E gameProcess := by
  refine keeps_modify fun _ h => ?_
  split
  · exact h
  · exact h.same rfl

theorem resume_apart (prevAllIn nowAllIn : Bool) :
    Keeps (Apart ids s) E (resume prevAllIn nowAllIn) := by
  have harm : ∀ deadline, Keeps (Apart ids s) E (expiresAfter deadline) :=
    fun _ => keeps_modify fun _ h => h.same rfl
  unfold resume
  split
  · exact keeps_bind (keeps_bind keeps_get fun _ => announce_apart _) fun _ => harm _
  split
  · exact keeps_bind (announce_apart _) fun _ => harm _
  · exact keeps_pure

theorem report_apart (socket : Option SocketId) :
    Keeps (Apart ids s) (fun _ => True) (report socket) := by
  cases socket with
  | some k => exact send_apart k _
  | none => exact keeps_throw trivial

theorem archive_apart (pair : Sides AccountId) (sockets : Sides (Option SocketId)) (winner : Int)
    (isCrashed : Bool) :
    Keeps (Apart ids s) (fun _ => True) (archive a pair sockets winner isCrashed) := by
  refine keeps_catching ?_ fun e => ?_
  · unfold archiving
    split
    · exact keeps_throw nofun
    · refine keeps_bind ?_ fun _ => keeps_raise fun _ _ => nofun
      refine keeps_bind (keeps_raise fun _ _ => nofun) fun _ => ?_
      exact keeps_modify fun _ h => h.same rfl
  · refine keeps_bind (report_apart _) fun _ => ?_
    exact keeps_bind (report_apart _) fun _ => keeps_throw trivial

theorem drawn_apart (pair : Sides AccountId) (sockets : Sides (Option SocketId)) (winner : Int)
    (isCrashed : Bool) : Keeps (Apart ids s) E (drawn a pair sockets winner isCrashed) := by
  unfold drawn
  split
  · exact keeps_bind (achieveProgress_apart _ _ _ _) fun _ => achieveProgress_apart _ _ _ _
  · exact keeps_pure

theorem won_apart (pair : Sides AccountId) (sockets : Sides (Option SocketId)) (winner : Int) :
    Keeps (Apart ids s) E (won a pair sockets winner) := by
  unfold won
  split
  · exact keeps_pure
  · refine keeps_bind (achieveProgress_apart _ _ _ _) fun _ => ?_
    refine keeps_bind (achieveProgress_apart _ _ _ _) fun _ => ?_
    refine keeps_bind (achieveProgress_apart _ _ _ _) fun _ => ?_
    refine keeps_bind (achieveProgress_apart _ _ _ _) fun _ => ?_
    exact achieveProgress_apart _ _ _ _

theorem Apart.eraseLKey {id : AccountId} (h : Apart ids s t) (hid : ids id) :
    Apart ids s { t with sessions := (t.sessions.eraseLKey id).2 } := by
  refine h.trans ⟨rfl, rfl, rfl, rfl, fun id' hid' => ?_, fun id' e he => ?_⟩
  · rw [Table.findLKey_eraseLKey, if_neg]
    rintro rfl
    exact hid' hid
  · rw [Table.findLKey_eraseLKey] at he
    split at he
    · cases he
    · exact he

theorem dismiss_apart (isCrashed : Bool) (winner side : Int) {id : AccountId} (hid : ids id)
    (socket : Option SocketId) :
    Keeps (Apart ids s) E (dismiss isCrashed winner side id socket) := by
  refine keeps_get_bind fun t ht => ?_
  have herased := ht.eraseLKey hid
  split
  · exact keeps_pure
  · rename_i hfound
    rw [hfound] at herased
    refine keeps_bind (keeps_modify fun u hu => ?_) fun _ => ?_
    · exact ⟨hu.endings, hu.gamepool, hu.timer, hu.session, herased.others, herased.erased⟩
    split
    · exact keeps_modify fun _ h => h.same rfl
    · refine keeps_bind (keeps_modify fun _ h => h.same rfl) fun _ => ?_
      exact keeps_bind (send_apart _ _) fun _ => close_apart _

theorem settle_apart (pair : Sides AccountId) (hl : ids pair.left) (hr : ids pair.right)
    (sockets : Sides (Option SocketId)) (winner : Int) (isCrashed : Bool) :
    Keeps (Apart ids s) (fun _ => True) (settle a pair sockets winner isCrashed) := by
  refine keeps_bind (drawn_apart _ _ _ _) fun _ => ?_
  refine keeps_bind (archive_apart _ _ _ _) fun _ => ?_
  refine keeps_bind (won_apart _ _ _) fun _ => ?_
  refine keeps_bind (dismiss_apart _ _ _ hl _) fun _ => ?_
  exact dismiss_apart _ _ _ hr _

/-- The last lines of the branch. -/
theorem exec_wrapUp_ended {pair : Sides AccountId} {eptr : Option String}
    (hl : pair.left = playerOf s.info.session 0) (hr : pair.right = playerOf s.info.session 1)
    {e : Ending} (h : Apart (fun id => id = pair.left ∨ id = pair.right)
      { s with endings := s.endings ++ [e] } t) :
    (exec (wrapUp pair eptr) t).1 ≠ .error .undefined ∧ Ended s (exec (wrapUp pair eptr) t).2 := by
  have hended : Ended s { t with
      gamepool := t.gamepool.releaseTimer t.info.timer
      sessions := ((t.sessions.eraseLKey pair.left).2.eraseLKey pair.right).2 } := by
    refine ⟨⟨e, h.endings⟩, ?_, h.timer, h.session, fun id => ?_⟩
    · show t.gamepool.releaseTimer t.info.timer = _
      rw [h.gamepool, h.timer]
    · show ((t.sessions.eraseLKey pair.left).2.eraseLKey pair.right).2.findLKey id = _
      rw [Table.findLKey_eraseLKey, Table.findLKey_eraseLKey, ← hl, ← hr]
      by_cases hid : id = pair.left ∨ id = pair.right
      · rw [if_pos hid]
        rcases hid with rfl | rfl
        · simp
        · simp
      · rw [if_neg hid]
        rw [not_or] at hid
        rw [if_neg hid.2, if_neg hid.1]
        exact h.others id (not_or.mpr hid)
  cases eptr with
  | some what => exact ⟨nofun, hended⟩
  | none => exact ⟨nofun, hended⟩

/-- **The terminal branch**, unless a null pointer stops it. -/
theorem exec_terminal (nowAllIn : Bool) (deadline : Deadline) (s : Arena)
    (hdefined : (exec (terminal a nowAllIn deadline) s).1 ≠ .error .undefined) :
    Ended s (exec (terminal a nowAllIn deadline) s).2 := by
  rw [terminal, exec_bind, exec_get] at hdefined ⊢
  dsimp only at hdefined ⊢
  rw [exec_bind, exec_modify] at hdefined ⊢
  dsimp only at hdefined ⊢
  have hsettles : Keeps (Apart (fun id => id = (s.player 0).1 ∨ id = (s.player 1).1)
      { s with endings := s.endings ++ [⟨nowAllIn, deadline, s.info.game.getWinner⟩] })
      (fun _ => True) (settle a ⟨(s.player 0).1, (s.player 1).1⟩
        ⟨(s.player 0).2, (s.player 1).2⟩ s.info.game.getWinner (!nowAllIn)) :=
    settle_apart ⟨(s.player 0).1, (s.player 1).1⟩ (.inl rfl) (.inr rfl) _ _ _
  have hapart := (hsettles _ (.refl _)).1
  rw [exec_bind, catching, exec_tryCatch, exec_bind] at hdefined ⊢
  revert hdefined hapart
  generalize exec (settle a ⟨(s.player 0).1, (s.player 1).1⟩ ⟨(s.player 0).2, (s.player 1).2⟩
    s.info.game.getWinner (!nowAllIn))
    { s with endings := s.endings ++ [⟨nowAllIn, deadline, s.info.game.getWinner⟩] } = outcome
  obtain ⟨r, t⟩ := outcome
  intro hdefined hapart
  rcases r with (e | _) | _
  · exact (exec_wrapUp_ended (player_fst s 0) (player_fst s 1) hapart).2
  · exact absurd rfl hdefined
  · exact (exec_wrapUp_ended (player_fst s 0) (player_fst s 1) hapart).2

theorem exec_proceed (completion : Completion) (prevAllIn nowAllIn : Bool) (s : Arena)
    (hdefined : (exec (proceed a completion prevAllIn nowAllIn) s).1 ≠ .error .undefined) :
    Apart (fun _ => False) s (exec (proceed a completion prevAllIn nowAllIn) s).2 ∨
      Ended s (exec (proceed a completion prevAllIn nowAllIn) s).2 := by
  cases completion with
  | aborted =>
    left
    exact (keeps_bind (resume_apart (E := fun _ => True) prevAllIn nowAllIn)
      (fun _ => gameProcess_apart) s (.refl s)).1
  | expired deadline =>
    unfold proceed at hdefined ⊢
    cases nowAllIn with
    | false => exact .inr (exec_terminal false deadline s hdefined)
    | true =>
      have hplays : Keeps (Apart (fun _ => False) s) (fun _ => False) (playRound a) :=
        playRound_apart
      obtain ⟨isGameOver, t, ht, hapart⟩ := hplays.returns (.refl s)
      simp only [if_true] at hdefined ⊢
      rw [exec_bind, ht] at hdefined ⊢
      dsimp only at hdefined ⊢
      cases isGameOver with
      | true => exact .inr (hapart.ended (exec_terminal true deadline t hdefined))
      | false =>
        left
        exact (keeps_bind (E := fun _ => True) (keeps_modify fun _ h => h.same rfl)
          (fun _ => gameProcess_apart) t hapart).1

end Handler

theorem queued_of_handle {i : Nat} (h : s.handle i a = some t) :
    ∃ completion, s.clock.queued[i]? = some completion := by
  unfold handle at h
  split at h
  · cases h
  · rename_i completion hi
    exact ⟨completion, hi⟩

/-- **A run of the handler** lets the game go on or ends it. -/
theorem handle_cases {i : Nat} (h : s.handle i a = some t) (hc : t.crashed = false) :
    Apart (fun _ => False) s t ∨ Ended s t := by
  unfold handle at h
  split at h
  · cases h
  rename_i completion hi
  have hnoted : Apart (fun _ => False) s (s.setClock (s.clock.take i)).noted :=
    (Apart.refl s).same rfl
  have hcases := exec_proceed (a := a) completion (s.setClock (s.clock.take i)).info.previousAllIn
    (s.setClock (s.clock.take i)).isAllIn (s.setClock (s.clock.take i)).noted
  rw [← exec_handler] at hcases
  revert h hcases
  generalize exec (handler a completion) (s.setClock (s.clock.take i)) = outcome
  obtain ⟨r, u⟩ := outcome
  intro h hcases
  rcases r with (e | _) | _
  · cases h
    rcases hcases nofun with hapart | hended
    · exact .inl ((hnoted.trans hapart).same rfl)
    · exact .inr ((hnoted.ended hended).same rfl)
  · cases h
    cases hc
  · cases h
    rcases hcases nofun with hapart | hended
    · exact .inl (hnoted.trans hapart)
    · exact .inr (hnoted.ended hended)

/-- The steps of a game that are no change of the server as a whole. -/
def Label.own : Label → Bool
  | .enter _ _ | .exit _ _ | .action _ _ | .expire | .handle _ _ => true
  | _ => false

def Label.enters : Label → Bool
  | .enter _ _ => true
  | _ => false

/-- The game goes on beside the others, with the same accounts. -/
structure Ongoing (s t : Arena) : Prop where
  endings : t.endings = s.endings
  gamepool : t.gamepool = s.gamepool
  timer : t.info.timer = s.info.timer
  seats : ∀ id, (t.info.session.findLKey id).isSome = (s.info.session.findLKey id).isSome
  sessions : ∀ id, t.sessions.findLKey id = s.sessions.findLKey id

theorem Apart.ongoing (h : Apart (fun _ => False) s t) : Ongoing s t :=
  ⟨h.endings, h.gamepool, h.timer, fun _ => by rw [h.session], fun id => h.others id not_false⟩

theorem ongoing_of_seats (hs : t.endings = s.endings ∧ t.gamepool = s.gamepool ∧
      t.info.timer = s.info.timer ∧ t.sessions = s.sessions) {l : Label} (h : s.step l = some t) :
    Ongoing s t :=
  ⟨hs.1, hs.2.1, hs.2.2.1, fun id => by rw [session_step h, Option.isSome_map], fun _ => by
    rw [hs.2.2.2]⟩

/-- **A step of one game**, seen by the others: it goes on, or it was not over and has ended. -/
theorem own_cases {l : Label} (hl : l.own = true) (hlife : s.core.Life) (h : s.step l = some t)
    (hc : t.crashed = false) : Ongoing s t ∨ (s.endings = [] ∧ Ended s t) := by
  have hstep := h
  unfold step at h
  split at h
  · cases h
  cases l with
  | enter id socket =>
    cases h
    refine .inl (ongoing_of_seats ?_ hstep)
    unfold enter GameInfo.enter
    split
    · rename_i heq
      obtain ⟨-, heq⟩ := Option.ite_none_right_eq_some.mp heq
      cases heq
      exact ⟨rfl, rfl, rfl, rfl⟩
    · exact ⟨rfl, rfl, rfl, rfl⟩
  | exit id socket =>
    cases h
    refine .inl (ongoing_of_seats ?_ hstep)
    unfold exit
    split
    · split <;> exact ⟨rfl, rfl, rfl, rfl⟩
    · exact ⟨rfl, rfl, rfl, rfl⟩
  | action side action =>
    cases h
    refine .inl (ongoing_of_seats ?_ hstep)
    unfold act
    split <;> exact ⟨rfl, rfl, rfl, rfl⟩
  | expire =>
    cases h
    exact .inl (ongoing_of_seats ⟨rfl, rfl, rfl, rfl⟩ hstep)
  | handle i a =>
    rcases handle_cases h hc with hapart | hended
    · exact .inl hapart.ongoing
    · -- a completion is queued, so the game was not over
      obtain ⟨completion, hi⟩ := queued_of_handle h
      exact .inr ⟨(hlife.taken hi).1, hended⟩
  | accept | shut | drop | free | others | stop | halt => cases hl

/-- No entry of the session table is made by a game. -/
theorem sessions_own {l : Label} (hl : l.own = true) (h : s.step l = some t)
    (hc : t.crashed = false) {id : AccountId} {e : Hash × GameId}
    (he : t.sessions.findLKey id = some e) : s.sessions.findLKey id = some e := by
  unfold step at h
  split at h
  · cases h
  cases l with
  | enter id' socket =>
    cases h
    unfold enter at he
    split at he <;> exact he
  | exit id' socket =>
    cases h
    unfold exit at he
    split at he
    · split at he <;> exact he
    · exact he
  | action side action =>
    cases h
    unfold act at he
    split at he <;> exact he
  | expire =>
    cases h
    exact he
  | handle i a =>
    rcases handle_cases h hc with hapart | hended
    · exact hapart.erased id e he
    · rw [hended.sessions] at he
      split at he
      · cases he
      · exact he
  | accept | shut | drop | free | others | stop | halt => cases hl

end Arena

namespace MyBattle
variable {b : MyBattle} {lpid rpid : AccountId} {a : Answers}

/-- A timer is taken and a player has no session in Redis: nothing gives the timer back. -/
def leaks (b : MyBattle) (lpid rpid : AccountId) (a : Answers) : Bool :=
  lpid ≠ 0 && rpid ≠ 0 && b.gamepool.isRunning && (a.redis.left.isNone || a.redis.right.isNone)

/-- A game is made of the two cookies. -/
def Makes (b : MyBattle) (lpid rpid : AccountId) (a : Answers) (lcookie rcookie : Hash)
    (infos : Sides ByteQueue) : Prop :=
  lpid ≠ 0 ∧ rpid ≠ 0 ∧ b.gamepool.isRunning = true ∧ a.redis.left.map (·.1) = some lcookie ∧
    a.redis.right.map (·.1) = some rcookie ∧ a.playerInfos = .ok infos

/-- **What a call of `MatchTransfer` leaves of a server.** -/
theorem matchTransfer_cases (b : MyBattle) (lpid rpid : AccountId) (a : Answers) :
    (b.leaks lpid rpid a = false ∧ (b.matchTransfer lpid rpid a).2 = b) ∨
    (b.leaks lpid rpid a = true ∧ b.gamepool.isRunning = true ∧
      (b.matchTransfer lpid rpid a).2 = b.setPool b.gamepool.hold) ∨
    (b.leaks lpid rpid a = false ∧ b.gamepool.isRunning = true ∧ (b.matchTransfer lpid rpid a).2 =
      b.setPool (b.gamepool.hold.releaseTimer b.gamepool.timers.length)) ∨
    ∃ lcookie rcookie infos, b.leaks lpid rpid a = false ∧
      b.Makes lpid rpid a lcookie rcookie infos ∧
      (b.matchTransfer lpid rpid a).2 = b.made lpid rpid lcookie rcookie infos := by
  by_cases hz : lpid = 0 ∨ rpid = 0
  · refine .inl ⟨?_, by rw [matchTransfer_of_zero hz]; rfl⟩
    rcases hz with rfl | rfl
    · rfl
    · simp [leaks]
  obtain ⟨hl, hr⟩ := not_or.mp hz
  cases hp : b.gamepool.isRunning with
  | false =>
    refine .inl ⟨?_, by rw [matchTransfer_of_stopped hl hr hp]; rfl⟩
    simp [leaks, hp]
  | true =>
    right
    cases h0 : a.redis.left with
    | none =>
      refine .inl ⟨by simp [leaks, hl, hr, hp, h0], rfl, ?_⟩
      rw [matchTransfer_of_missing hl hr hp (.inl h0)]
      rfl
    | some l =>
      cases h1 : a.redis.right with
      | none =>
        refine .inl ⟨by simp [leaks, hl, hr, hp, h1], rfl, ?_⟩
        rw [matchTransfer_of_missing hl hr hp (.inr h1)]
        rfl
      | some r =>
        right
        have hleaks : b.leaks lpid rpid a = false := by simp [leaks, h0, h1]
        cases hd : a.playerInfos with
        | error e =>
          refine .inl ⟨hleaks, rfl, ?_⟩
          rw [matchTransfer_of_dbFailed hl hr hp h0 h1 hd]
          rfl
        | ok infos =>
          refine .inr ⟨l.1, r.1, infos, hleaks, ⟨hl, hr, hp, ?_, ?_, hd⟩, ?_⟩
          · rw [h0]
            rfl
          · rw [h1]
            rfl
          · rw [matchTransfer_of_made hl hr hp h0 h1 hd]
            rfl

/-- No object of a game goes away. -/
theorem length_matchTransfer (b : MyBattle) (lpid rpid : AccountId) (a : Answers) :
    b.games.length ≤ (b.matchTransfer lpid rpid a).2.games.length := by
  rcases b.matchTransfer_cases lpid rpid a with
    ⟨-, h⟩ | ⟨-, -, h⟩ | ⟨-, -, h⟩ | ⟨_, _, _, -, -, h⟩ <;> rw [h]
  · exact Nat.le_refl _
  · exact Nat.le_refl _
  · rw [games_made, List.length_append]
    exact Nat.le_add_right _ _

/-- A pool that has been stopped stays empty. -/
theorem emptied_matchTransfer (lpid rpid : AccountId) (a : Answers)
    (he : b.gamepool.isRunning = false → b.gamepool.timerSet = ∅)
    (h : (b.matchTransfer lpid rpid a).2.gamepool.isRunning = false) :
    (b.matchTransfer lpid rpid a).2.gamepool.timerSet = ∅ := by
  rcases b.matchTransfer_cases lpid rpid a with ⟨-, heq⟩ | ⟨-, hp, heq⟩ | ⟨-, hp, heq⟩ |
    ⟨_, _, _, -, hm, heq⟩ <;> rw [heq] at h ⊢
  · exact he h
  · exact absurd (hp.symm.trans h) nofun
  · refine absurd ?_ (Bool.eq_false_iff.mp h)
    simp [setPool, TimerPool.releaseTimer, TimerPool.hold, hp]
  · exact absurd (hm.2.2.1.symm.trans h) nofun

end MyBattle

/-- `MyBattle` with its games. What the games share is here; the copies in `arenas` are
replaced before a step. -/
structure Hall where
  selfKeyword : String
  disTime : Nat
  sessions : Table AccountId Hash GameId
  gamepool : Gamepool
  sockets : Sockets
  isOpen : SocketId → Bool
  arenas : List Arena
  allocated : ∀ id cookie g, sessions.findLKey id = some (cookie, g) → g < arenas.length
  /-- the timers taken for players without a session in Redis -/
  leaks : Nat

namespace Hall

/-- The constructor. -/
def start (selfKeyword : String) : Hall where
  selfKeyword := selfKeyword
  disTime := 15000
  sessions := Table.empty
  gamepool := ⟨TimerPool.start, nofun⟩
  sockets := fun _ => none
  isOpen := fun _ => false
  arenas := []
  allocated id cookie g h := by
    rw [Table.findLKey_empty] at h
    cases h
  leaks := 0

/-- The part of the server `MatchTransfer` works on. -/
def battle (h : Hall) : MyBattle where
  sessions := h.sessions
  gamepool := h.gamepool.pool
  games := h.arenas.map (·.info)
  disTime := h.disTime
  allocated := by
    rw [List.length_map]
    exact h.allocated

/-- A game at its first wait. -/
def opened (h : Hall) (info : GameInfo) : Arena :=
  { Arena.start h.selfKeyword ⟨0, 0⟩ info.timer info.playerInfos h.sockets h.isOpen h.sessions
      h.gamepool with info }

def matchTransfer (h : Hall) (lpid rpid : AccountId) (a : Answers) : Hall :=
  let after := (h.battle.matchTransfer lpid rpid a).2
  { h with
    sessions := after.sessions
    gamepool := ⟨after.gamepool, MyBattle.emptied_matchTransfer lpid rpid a h.gamepool.emptied⟩
    arenas := h.arenas ++ (after.games.drop h.arenas.length).map h.opened
    allocated := by
      intro id cookie g hg
      have hlt := after.allocated id cookie g hg
      have hle : h.arenas.length ≤ after.games.length := by
        rw [← List.length_map (·.info)]
        exact h.battle.length_matchTransfer lpid rpid a
      rw [List.length_append, List.length_map, List.length_drop, Nat.add_sub_of_le hle]
      exact hlt
    leaks := if h.battle.leaks lpid rpid a then h.leaks + 1 else h.leaks }

/-- A game with what it shares as it is now. -/
def play (h : Hall) (s : Arena) : Arena :=
  { s with
    sessions := h.sessions, gamepool := h.gamepool, sockets := h.sockets, isOpen := h.isOpen }

/-- What a step of a game leaves. -/
def written (h : Hall) (g : GameId) (t : Arena)
    (ht : ∀ id e, t.sessions.findLKey id = some e → h.sessions.findLKey id = some e) : Hall :=
  { h with
    sessions := t.sessions
    gamepool := t.gamepool
    sockets := t.sockets
    isOpen := t.isOpen
    arenas := h.arenas.set g t
    allocated := by
      intro id cookie g' hg
      rw [List.length_set]
      exact h.allocated id cookie g' (ht id _ hg) }

/-- A step of one game; a null pointer ends the server. -/
def game (h : Hall) (g : GameId) (l : Arena.Label) : Option Hall :=
  match h.arenas[g]? with
  | none => none
  | some s =>
    match ht : (h.play s).step l with
    | none => none
    | some t =>
      if hl : l.own = true ∧ t.crashed = false then
        some (h.written g t fun _ _ he => Arena.sessions_own hl.1 ht hl.2 he)
      else none

/-- `sessions.EraseLKey`. -/
def eraseSession (h : Hall) (id : AccountId) : Hall :=
  { h with
    sessions := (h.sessions.eraseLKey id).2
    allocated := by
      intro id' cookie g hg
      rw [Table.findLKey_eraseLKey] at hg
      exact h.allocated id' cookie g (Option.ite_none_left_eq_some.mp hg).2 }

/-- `AuthenticateProcess` with the account Redis has for the cookie, up to its replies. Under the
cookie there is no game, the game of the account, or a wrong one. -/
def authenticate (h : Hall) (accountId : AccountId) (cookie : Hash) (client : SocketId) :
    Option Hall :=
  match h.sessions.findRKey cookie with
  | none => some h
  | some (_, g) => match h.arenas[g]? with
    | none => none
    | some s => match s.info.enter accountId client with
      | none => some (h.eraseSession accountId)
      | some _ => h.game g (.enter accountId client)

/-- The wait of a game is cancelled. -/
def cancelled (s : Arena) : Arena := s.setClock s.clock.cancel

/-- No handler of a game runs any more. -/
def joined (s : Arena) : Arena :=
  { s with clock := { s.clock with pending := 0, queued := [] }, halted := true }

/-- All games are changed alike. -/
def setArenas (h : Hall) (f : Arena → Arena) : Hall :=
  { h with
    arenas := h.arenas.map f
    allocated := by
      rw [List.length_map]
      exact h.allocated }

inductive Label where
  | matchTransfer (lpid rpid : AccountId) (a : Answers)
  /-- a client sends a cookie that Redis has for the account and this server -/
  | authenticate (accountId : AccountId) (cookie : Hash) (client : SocketId)
  /-- `Exit`, `Action`, an expiry or a handler of one game -/
  | game (g : GameId) (l : Arena.Label)
  /-- clients come, go, disconnect and are replied to -/
  | clients (sockets : Sockets) (isOpen : SocketId → Bool)
  /-- `gamepool.Stop` closes the pool and cancels its timers -/
  | stop
  /-- and has stopped the io context and its threads -/
  | halt

def step (h : Hall) : Label → Option Hall
  | .matchTransfer lpid rpid a => some (h.matchTransfer lpid rpid a)
  | .authenticate accountId cookie client => h.authenticate accountId cookie client
  | .game g l => if l.enters then none else h.game g l
  | .clients sockets isOpen => some { h with sockets, isOpen }
  | .stop => some { h.setArenas cancelled with gamepool := h.gamepool.stop }
  | .halt => if h.gamepool.isRunning then none else some (h.setArenas joined)

end Hall
end DrgbServer.Battle
