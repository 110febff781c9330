import DrgbServer.Battle.LifeCycle

/-! # The end of a game

What the terminal branch of `GameProcess` leaves behind, for every answer of the database.
When the battle is not archived both players are told through their sockets without a
test of the pointers; `terminal_cleans` says that this is the only thing that keeps the
branch from cleaning up. -/
namespace DrgbServer.Battle
open DrgbServer.Utils DrgbServer.Network DrgbServer.Lib.Procedure

namespace Arena
variable {s : Arena} {a : Answers}

/-- The connection is there, and the battle is inserted and committed. -/
def Answers.Archives (a : Answers) : Prop :=
  a.connection = true ∧ a.archiveBattle = .ok () ∧ a.commit = .ok ()

/-- What a procedure of the terminal branch leaves of a state: the game is the same and
the battle was archived at most once. -/
def Sparing (s t : Arena) : Prop :=
  t.info = s.info ∧ t.archives.length ≤ s.archives.length + 1

/-- The branch cleans up: no null pointer is used, the timer is given back, no account of
the game is left in the sessions and the battle was archived at most once. -/
def Cleans (a : Answers) (nowAllIn : Bool) (deadline : Deadline) (s : Arena) : Prop :=
  let (r, t) := exec (terminal a nowAllIn deadline) s
  r ≠ .error .undefined ∧ s.info.timer ∉ t.gamepool.pool.timerSet ∧
  (∀ id side weak, s.info.session.findLKey id = some (side, weak) →
    t.sessions.findLKey id = none) ∧
  t.archives.length ≤ s.archives.length + 1

/-- The game and the archive stay as they are. -/
theorem unarchived_tolerant (i : GameInfo) (as : List Archive) :
    Tolerant fun t => t.info = i ∧ t.archives = as where
  sockets _ _ _ h := h
  sessions _ _ h := h
  setInfos _ _ h := h
  clearInfos _ _ h := h

theorem sparing_tolerant (s : Arena) : Tolerant (Sparing s) where
  sockets _ _ _ h := h
  sessions _ _ h := h
  setInfos _ _ h := h
  clearInfos _ _ h := h

/-! ## The archive -/

section Archive
variable (ids : Sides AccountId) (sockets : Sides (Option SocketId)) (winner : Int)
  (isCrashed : Bool)

/-- The `try` block returns exactly when the battle is archived. -/
theorem exec_archiving (s : Arena) : ∃ r t, exec (archiving a ids winner isCrashed) s = (r, t) ∧
    Sparing s t ∧ ((a.Archives ∧ r = .ok ()) ∨ ¬ a.Archives ∧ ∃ e, r = .error (.thrown e)) := by
  unfold archiving
  cases hc : a.connection with
  | false =>
    refine ⟨_, s, rfl, ⟨rfl, Nat.le_succ _⟩, .inr ⟨fun h => ?_, _, rfl⟩⟩
    rw [h.1] at hc
    cases hc
  | true =>
    simp only [Bool.not_true, Bool.false_eq_true, if_false, archiveBattle]
    cases hb : a.archiveBattle with
    | error e =>
      refine ⟨_, s, rfl, ⟨rfl, Nat.le_succ _⟩, .inr ⟨fun h => ?_, e, rfl⟩⟩
      rw [h.2.1] at hb
      cases hb
    | ok _ =>
      cases hm : a.commit with
      | error e =>
        refine ⟨_, _, rfl, ⟨rfl, List.length_append.le⟩, .inr ⟨fun h => ?_, e, rfl⟩⟩
        rw [h.2.2] at hm
        cases hm
      | ok _ => exact ⟨_, _, rfl, ⟨rfl, List.length_append.le⟩, .inl ⟨⟨hc, hb, hm⟩, rfl⟩⟩

/-- The reports go out if both sockets are there. -/
theorem exec_reports (e : Exn) {t : Arena} (ht : Sparing s t) :
    ∃ u, exec (do report sockets.left; report sockets.right; throw (.thrown e) :
      Proc Arena Stop Unit) t = (.error (if sockets.left.isSome ∧ sockets.right.isSome
        then .thrown e else .undefined), u) ∧ Sparing s u := by
  rcases hl : sockets.left with _ | l
  · exact ⟨t, rfl, ht⟩
  · rcases hr : sockets.right with _ | r
    · exact ⟨_, rfl, ht⟩
    · exact ⟨_, rfl, ht⟩

/-- The archive returns when the battle is archived and throws otherwise, on a null pointer
where a player is not connected. -/
theorem exec_archive (s : Arena) : ∃ r t, exec (archive a ids sockets winner isCrashed) s = (r, t) ∧
    Sparing s t ∧ ((a.Archives ∧ r = .ok ()) ∨ ¬ a.Archives ∧ ∃ e, r = .error
      (if sockets.left.isSome ∧ sockets.right.isSome then .thrown e else .undefined)) := by
  obtain ⟨r, t, hexec, ht, hr⟩ := exec_archiving (a := a) ids winner isCrashed s
  rw [archive, catching, exec_tryCatch, hexec]
  rcases hr with ⟨ha, rfl⟩ | ⟨ha, e, rfl⟩
  · exact ⟨_, t, rfl, ht, .inl ⟨ha, rfl⟩⟩
  · obtain ⟨u, hu, hs⟩ := exec_reports sockets e ht
    exact ⟨_, u, hu, hs, .inr ⟨ha, e, rfl⟩⟩

/-- The `try` block of the terminal branch ends as the archive does. -/
theorem exec_settle (s : Arena) : ∃ r t, exec (settle a ids sockets winner isCrashed) s = (r, t) ∧
    Sparing s t ∧ ((a.Archives ∧ r = .ok ()) ∨ ¬ a.Archives ∧ ∃ e, r = .error
      (if sockets.left.isSome ∧ sockets.right.isSome then .thrown e else .undefined)) := by
  obtain ⟨_, t, ht, hinfo, harchives⟩ :=
    (drawn_keeps (a := a) (unarchived_tolerant s.info s.archives) ids sockets winner isCrashed).returns
      ⟨rfl, rfl⟩
  obtain ⟨r, u, hu, hspare, hr⟩ := exec_archive (a := a) ids sockets winner isCrashed t
  have hspare' : Sparing s u :=
    ⟨hspare.1.trans hinfo, hspare.2.trans (by rw [harchives])⟩
  rw [settle, exec_bind, ht]
  dsimp only
  rw [exec_bind, hu]
  rcases hr with ⟨ha, rfl⟩ | ⟨ha, e, rfl⟩
  · have hrest : Keeps (Sparing s) (fun _ => False) (do
        won a ids sockets winner
        dismiss isCrashed winner 0 ids.left sockets.left
        dismiss isCrashed winner 1 ids.right sockets.right) := by
      refine keeps_bind (won_keeps (sparing_tolerant s) _ _ _) fun _ => ?_
      refine keeps_bind (dismiss_keeps (sparing_tolerant s) _ _ _ _ _) fun _ => ?_
      exact dismiss_keeps (sparing_tolerant s) _ _ _ _ _
    obtain ⟨_, v, hv, hs⟩ := hrest.returns hspare'
    exact ⟨_, v, hv, hs, .inl ⟨ha, rfl⟩⟩
  · exact ⟨_, u, rfl, hspare', .inr ⟨ha, e, rfl⟩⟩

end Archive

/-! ## The branch as a whole -/

/-- The accounts of the game are those `FindRKey` finds for the two sides. -/
theorem player_of_findLKey {id : AccountId} {side : Int} {weak : Option SocketId}
    (h : s.info.session.findLKey id = some (side, weak)) :
    id = (s.player 0).1 ∨ id = (s.player 1).1 := by
  have hr := Table.findRKey_eq_some.mpr h
  rcases s.info.sided id side weak h with rfl | rfl
  · refine .inl ?_
    rw [player, hr]
  · refine .inr ?_
    rw [player, hr]

theorem exec_wrapUp (ids : Sides AccountId) (eptr : Option String) (t : Arena) :
    ∃ r u, exec (wrapUp ids eptr) t = (r, u) ∧ r ≠ .error .undefined ∧
      t.info.timer ∉ u.gamepool.pool.timerSet ∧ u.archives = t.archives ∧
      ∀ id, id = ids.left ∨ id = ids.right → u.sessions.findLKey id = none := by
  have herased : ∀ id, id = ids.left ∨ id = ids.right →
      (((t.sessions.eraseLKey ids.left).2.eraseLKey ids.right).2).findLKey id = none := by
    intro id hid
    rw [Table.findLKey_eraseLKey, Table.findLKey_eraseLKey]
    rcases hid with rfl | rfl
    · simp
    · simp
  cases eptr with
  | some what =>
    exact ⟨_, _, rfl, nofun, Gamepool.releaseTimer_not_mem _ _, rfl, herased⟩
  | none =>
    exact ⟨_, _, rfl, nofun, Gamepool.releaseTimer_not_mem _ _, rfl, herased⟩

/-- **The end of a game cleans up** exactly when the battle is archived or both players
have a socket to report to. -/
theorem terminal_cleans (a : Answers) (nowAllIn : Bool) (deadline : Deadline) (s : Arena) :
    Cleans a nowAllIn deadline s ↔
      a.Archives ∨ ((s.player 0).2.isSome ∧ (s.player 1).2.isSome) := by
  have hexec : exec (terminal a nowAllIn deadline) s = exec (do
      let eptr ← catching
        (do
          settle a ⟨(s.player 0).1, (s.player 1).1⟩ ⟨(s.player 0).2, (s.player 1).2⟩
            s.info.game.getWinner (!nowAllIn)
          return none)
        fun e => return some e.what
      wrapUp ⟨(s.player 0).1, (s.player 1).1⟩ eptr)
      { s with endings := s.endings ++ [⟨nowAllIn, deadline, s.info.game.getWinner⟩] } := by
    rw [terminal, exec_bind, exec_get]
    dsimp only
    rw [exec_bind, exec_modify]
  obtain ⟨r, t, ht, ⟨hinfo, harchives⟩, hr⟩ := exec_settle (a := a)
    ⟨(s.player 0).1, (s.player 1).1⟩ ⟨(s.player 0).2, (s.player 1).2⟩ s.info.game.getWinner
    (!nowAllIn) { s with endings := s.endings ++ [⟨nowAllIn, deadline, s.info.game.getWinner⟩] }
  -- where the block ends without a null pointer the last lines clean up
  have hclean : ∀ eptr, exec (terminal a nowAllIn deadline) s =
      exec (wrapUp ⟨(s.player 0).1, (s.player 1).1⟩ eptr) t → Cleans a nowAllIn deadline s := by
    intro eptr heq
    obtain ⟨r', u, hu, hdefined, htimer, has, hsessions⟩ :=
      exec_wrapUp ⟨(s.player 0).1, (s.player 1).1⟩ eptr t
    rw [Cleans, heq, hu]
    refine ⟨hdefined, ?_, fun id side weak h => hsessions id (player_of_findLKey h), ?_⟩
    · rwa [hinfo] at htimer
    · rw [has]
      exact harchives
  rw [exec_bind, catching, exec_tryCatch, exec_bind, ht] at hexec
  rcases hr with ⟨ha, rfl⟩ | ⟨ha, e, rfl⟩
  · exact ⟨fun _ => .inl ha, fun _ => hclean none hexec⟩
  · by_cases hsome : (s.player 0).2.isSome ∧ (s.player 1).2.isSome
    · rw [if_pos hsome] at hexec
      exact ⟨fun _ => .inr hsome, fun _ => hclean (some e.what) hexec⟩
    · rw [if_neg hsome] at hexec
      constructor
      · intro hcleans
        rw [Cleans, hexec] at hcleans
        exact absurd rfl hcleans.1
      · exact fun h => absurd h (not_or.mpr ⟨ha, hsome⟩)

/-- A game that nobody has come to: the pause is over and the database is gone. -/
def lost : Answers := { recorded with connection := false }

theorem not_cleans_lost : ¬ Cleans lost false .dis waiting := by
  intro h
  have hdefined := h.1
  exact hdefined (by decide +kernel)

end Arena
end DrgbServer.Battle
