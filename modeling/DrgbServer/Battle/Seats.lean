import DrgbServer.Battle.LifeCycle

/-! # The seats of a game

`Enter` and `Exit` write the socket of an account into `session`, and nothing else does:
the handler of the timer reads the players and archives the game between them. The socket
that is stored for an account is followed through every run of the game. -/
namespace DrgbServer.Battle
open DrgbServer.Utils DrgbServer.Network DrgbServer.Lib.Procedure DrgbServer.Lib.Transition

/-- What is archived of a game: the winner first, or both accounts with the draw flag. -/
def Archive.of (ids : Sides AccountId) (winner : Int) (isCrashed : Bool) : Archive :=
  if winner < 0 then ⟨ids.left, ids.right, true, isCrashed⟩
  else ⟨ids.get winner, ids.get (1 - winner), false, isCrashed⟩

namespace Arena
variable {s t : Arena} {a : Answers}

/-! ## The handler leaves the seats alone -/

/-- The account on a side, 0 where there is none. -/
def playerOf (session : Table AccountId Int (Option SocketId)) (side : Int) : AccountId :=
  ((session.findRKey side).map (·.1)).getD 0

theorem player_fst (s : Arena) (side : Int) : (s.player side).1 = playerOf s.info.session side := by
  unfold player playerOf
  cases s.info.session.findRKey side <;> rfl

/-- The seats are those of `session` and every archive satisfies `P`. -/
def Seated (session : Table AccountId Int (Option SocketId)) (P : Archive → Prop)
    (s : Arena) : Prop :=
  s.info.session = session ∧ ∀ x ∈ s.archives, P x

section Handler
variable {session : Table AccountId Int (Option SocketId)} {P : Archive → Prop} {E : Stop → Prop}

theorem seated_tolerant : Tolerant (Seated session P) where
  sockets _ _ _ h := h
  sessions _ _ h := h
  setInfos _ _ h := h
  clearInfos _ _ h := h

theorem archive_seated {ids : Sides AccountId} {winner : Int} {isCrashed : Bool}
    (hP : P (.of ids winner isCrashed)) (sockets : Sides (Option SocketId)) :
    Keeps (Seated session P) (fun _ => True) (archive a ids sockets winner isCrashed) := by
  refine keeps_catching ?_ fun e => ?_
  · unfold archiving
    split
    · exact keeps_throw nofun
    · refine keeps_bind ?_ fun _ => keeps_raise fun _ _ => nofun
      refine keeps_bind (keeps_raise fun _ _ => nofun) fun _ => keeps_modify fun s h => ⟨h.1, ?_⟩
      intro x hx
      rcases List.mem_append.mp hx with hx | hx
      · exact h.2 x hx
      · rw [List.mem_singleton.mp hx]
        exact hP
  · refine keeps_bind (report_keeps seated_tolerant _) fun _ => ?_
    exact keeps_bind (report_keeps seated_tolerant _) fun _ => keeps_throw trivial

theorem settle_seated {ids : Sides AccountId} {winner : Int} {isCrashed : Bool}
    (hP : P (.of ids winner isCrashed)) (sockets : Sides (Option SocketId)) :
    Keeps (Seated session P) (fun _ => True) (settle a ids sockets winner isCrashed) := by
  refine keeps_bind (drawn_keeps seated_tolerant _ _ _ _) fun _ => ?_
  refine keeps_bind (archive_seated hP sockets) fun _ => ?_
  refine keeps_bind (won_keeps seated_tolerant _ _ _) fun _ => ?_
  refine keeps_bind (dismiss_keeps seated_tolerant _ _ _ _ _) fun _ => ?_
  exact dismiss_keeps seated_tolerant _ _ _ _ _

theorem wrapUp_seated (ids : Sides AccountId) (eptr : Option String) :
    Keeps (Seated session P) (fun _ => True) (wrapUp ids eptr) := by
  refine keeps_bind (keeps_modify fun s h => h) fun _ => ?_
  refine keeps_bind (keeps_modify fun s h => h) fun _ => ?_
  refine keeps_bind (keeps_modify fun s h => h) fun _ => ?_
  cases eptr with
  | some what => exact keeps_throw trivial
  | none => exact keeps_pure

/-- The game is archived between the two players, with what `GetWinner` returns. -/
theorem terminal_seated (hP : ∀ winner isCrashed, winner = -1 ∨ winner = 0 ∨ winner = 1 →
      P (.of ⟨playerOf session 0, playerOf session 1⟩ winner isCrashed))
    (nowAllIn : Bool) (deadline : Deadline) :
    Keeps (Seated session P) (fun _ => True) (terminal a nowAllIn deadline) := by
  refine keeps_get_bind fun s hs => ?_
  refine keeps_bind (keeps_modify fun s h => h) fun _ => ?_
  refine keeps_bind ?_ fun eptr => wrapUp_seated _ eptr
  refine keeps_tryCatch (F := fun _ => True) ?_ fun stop _ => ?_
  · refine keeps_bind (settle_seated ?_ _) fun _ => keeps_pure
    rw [player_fst, player_fst, hs.1]
    exact hP _ _ (MyGame.getWinner_range _)
  · cases stop with
    | thrown e => exact keeps_pure
    | undefined => exact keeps_throw trivial

theorem fetchAchievements_seated (achievements : List (Fin 2 × AchievementId × Int)) :
    Keeps (Seated session P) E (fetchAchievements a achievements) := by
  induction achievements with
  | nil => exact keeps_pure
  | cons achievement rest ih =>
    obtain ⟨side, achieve, count⟩ := achievement
    refine keeps_bind (keeps_modify fun s h => h) fun _ => ?_
    refine keeps_bind keeps_get fun s => ?_
    exact keeps_bind (achieveProgress_keeps seated_tolerant _ _ _ _) fun _ => ih

theorem playRound_seated : Keeps (Seated session P) E (playRound a) := by
  refine keeps_bind keeps_get fun s => ?_
  refine keeps_bind (keeps_modify fun s h => h) fun _ => ?_
  refine keeps_bind (sendRoundResult_keeps seated_tolerant _) fun _ => ?_
  exact keeps_bind (fetchAchievements_seated _) fun _ => keeps_pure

theorem gameProcess_seated : Keeps (Seated session P) E gameProcess := by
  refine keeps_modify fun s h => ?_
  split
  · exact h
  · exact h

theorem resume_seated (prevAllIn nowAllIn : Bool) :
    Keeps (Seated session P) E (resume prevAllIn nowAllIn) := by
  unfold resume
  split
  · exact keeps_bind (sendRoundResult_keeps seated_tolerant _) fun _ => keeps_modify fun s h => h
  split
  · exact keeps_bind (announce_keeps seated_tolerant _) fun _ => keeps_modify fun s h => h
  · exact keeps_pure

/-- **The handler** changes no seat, and archives at most games between the players. -/
theorem handler_seated (hP : ∀ winner isCrashed, winner = -1 ∨ winner = 0 ∨ winner = 1 →
      P (.of ⟨playerOf session 0, playerOf session 1⟩ winner isCrashed))
    (completion : Completion) :
    Keeps (Seated session P) (fun _ => True) (handler a completion) := by
  refine keeps_bind keeps_get fun s => ?_
  refine keeps_bind (keeps_modify fun s h => h) fun _ => ?_
  cases completion with
  | aborted => exact keeps_bind (resume_seated _ _) fun _ => gameProcess_seated
  | expired deadline =>
    unfold proceed
    dsimp only
    split
    · refine keeps_bind playRound_seated fun isGameOver => ?_
      split
      · exact terminal_seated hP _ _
      · exact keeps_bind (keeps_modify fun s h => h) fun _ => gameProcess_seated
    · exact terminal_seated hP _ _

end Handler

/-! ## What a step does to a seat -/

/-- The weak pointer of an account after a step. -/
def reseat (s : Arena) (id : AccountId) (weak : Option SocketId) : Label → Option SocketId
  | .enter id' socket => if id = id' then some socket else weak
  | .exit id' socket => if id = id' ∧ s.lock weak = some socket then none else weak
  | _ => weak

/-- A call for an account without a seat writes none. -/
theorem session_absent {id : AccountId} (hid : s.info.session.findLKey id = none) (id' : AccountId)
    {f : Option SocketId → Option SocketId} (hf : id' ≠ id → ∀ weak, f weak = weak) :
    s.info.session.findLKey id' = (s.info.session.findLKey id').map fun e => (e.1, f e.2) := by
  cases he : s.info.session.findLKey id' with
  | none => rfl
  | some e =>
    have hne : id' ≠ id := by
      intro h
      rw [h, hid] at he
      cases he
    rw [Option.map_some, hf hne]

theorem session_enter (s : Arena) (id : AccountId) (socket : SocketId) (id' : AccountId) :
    (s.enter id socket).info.session.findLKey id' = (s.info.session.findLKey id').map
      fun e => (e.1, s.reseat id' e.2 (.enter id socket)) := by
  unfold enter GameInfo.enter
  rw [Table.insertLKeyValue_fst]
  cases hid : s.info.session.findLKey id with
  | none =>
    exact session_absent hid id' (f := fun weak => s.reseat id' weak (.enter id socket))
      fun h _ => if_neg h
  | some e =>
    simp only [Option.isSome_some, if_true]
    rw [Table.findLKey_insertLKeyValue, hid]
    by_cases h : id' = id
    · subst h
      simp [hid, reseat]
    · simp [h, reseat]

theorem session_exit (s : Arena) (id : AccountId) (socket : SocketId) (id' : AccountId) :
    (s.exit id socket).info.session.findLKey id' = (s.info.session.findLKey id').map
      fun e => (e.1, s.reseat id' e.2 (.exit id socket)) := by
  unfold exit
  cases hid : s.info.session.findLKey id with
  | none =>
    exact session_absent hid id' (f := fun weak => s.reseat id' weak (.exit id socket))
      fun h _ => if_neg fun hk => h hk.1
  | some e =>
    obtain ⟨side, weak⟩ := e
    dsimp only
    by_cases hk : s.lock weak = some socket
    · rw [if_pos hk]
      show (s.info.session.insertLKeyValue id none).2.findLKey id' = _
      rw [Table.findLKey_insertLKeyValue, hid]
      by_cases h : id' = id
      · subst h
        simp [hid, reseat, hk]
      · simp [h, reseat]
    · rw [if_neg hk]
      by_cases h : id' = id
      · subst h
        simp [hid, reseat, hk]
      · simp [h, reseat]

theorem seated_handle {P : Archive → Prop} {i : Nat}
    (hP : ∀ winner isCrashed, winner = -1 ∨ winner = 0 ∨ winner = 1 →
      P (.of ⟨playerOf s.info.session 0, playerOf s.info.session 1⟩ winner isCrashed))
    (hs : ∀ x ∈ s.archives, P x) (h : s.handle i a = some t) : Seated s.info.session P t := by
  unfold handle at h
  split at h
  · cases h
  rename_i completion hi
  have hk := (handler_seated (a := a) hP completion (s.setClock (s.clock.take i)) ⟨rfl, hs⟩).1
  split at h
  · next heq =>
    cases h
    rwa [heq] at hk
  · next heq =>
    cases h
    rwa [heq] at hk
  · next heq =>
    cases h
    rwa [heq] at hk

theorem session_handle {i : Nat} (h : s.handle i a = some t) : t.info.session = s.info.session :=
  (seated_handle (P := fun _ => True) (fun _ _ _ => trivial) (fun _ _ => trivial) h).1

/-- **What a step does to the seats**: no account and no side comes or goes, and a socket is
changed as `reseat` says. -/
theorem session_step {l : Label} (h : s.step l = some t) (id : AccountId) :
    t.info.session.findLKey id = (s.info.session.findLKey id).map
      fun e => (e.1, s.reseat id e.2 l) := by
  have hsame : ∀ {u : Arena}, u.info.session = s.info.session →
      u.info.session.findLKey id = (s.info.session.findLKey id).map fun e => (e.1, e.2) := by
    intro u hu
    rw [hu]
    simp
  unfold step at h
  split at h
  · cases h
  cases l with
  | enter id' socket =>
    cases h
    exact session_enter s id' socket id
  | exit id' socket =>
    cases h
    exact session_exit s id' socket id
  | action side action =>
    cases h
    refine hsame ?_
    unfold act
    split <;> rfl
  | accept k =>
    unfold accept at h
    obtain ⟨_, h⟩ := Option.ite_none_left_eq_some.mp h
    cases h
    exact hsame rfl
  | handle i a => exact hsame (session_handle h)
  | halt =>
    obtain ⟨_, h⟩ := Option.ite_none_left_eq_some.mp h
    cases h
    exact hsame rfl
  | shut k =>
    cases h
    exact hsame rfl
  | drop k =>
    cases h
    exact hsame rfl
  | free k =>
    cases h
    exact hsame rfl
  | others sessions =>
    cases h
    exact hsame rfl
  | expire =>
    cases h
    exact hsame rfl
  | stop =>
    cases h
    exact hsame rfl

/-! ## The socket entered last -/

/-- The socket of an `Enter` of the account. -/
def Label.entered (id : AccountId) : Label → Option SocketId
  | .enter id' socket => if id' = id then some socket else none
  | _ => none

/-- `Exit` of the account with this very socket. -/
def Label.exits (id : AccountId) (socket : SocketId) : Label → Bool
  | .exit id' socket' => id' = id && socket' = socket
  | _ => false

/-- The socket most recently passed to `Enter` for the account, and what came after it. -/
def lastEntered (id : AccountId) : List Label → Option (SocketId × List Label)
  | [] => none
  | l :: rest => (lastEntered id rest).or ((l.entered id).map fun socket => (socket, rest))

/-- A socket, until `Exit` comes with it. -/
def unlessExited (id : AccountId) (labels : List Label) (weak : Option SocketId) :
    Option SocketId :=
  weak.filter fun socket => !labels.any (·.exits id socket)

@[simp] theorem unlessExited_none (id : AccountId) (labels : List Label) :
    unlessExited id labels none = none := rfl

@[simp] theorem unlessExited_some (id : AccountId) (labels : List Label) (socket : SocketId) :
    unlessExited id labels (some socket) =
      if labels.any (·.exits id socket) then none else some socket := by
  rw [unlessExited, Option.filter_some]
  cases labels.any (·.exits id socket) <;> rfl

/-- A step that is no `Exit` of the account. -/
theorem unlessExited_cons (id : AccountId) {l : Label} (hl : ∀ socket, l.exits id socket = false)
    (rest : List Label) (weak : Option SocketId) :
    unlessExited id (l :: rest) weak = unlessExited id rest weak := by
  cases weak with
  | none => rfl
  | some socket => simp [hl]

/-- The socket of a seat after a run, from the socket before it. -/
def seatAfter (id : AccountId) (labels : List Label) (weak : Option SocketId) : Option SocketId :=
  match lastEntered id labels with
  | some (socket, after) => unlessExited id after (some socket)
  | none => unlessExited id labels weak

theorem seatAfter_nil (id : AccountId) (weak : Option SocketId) : seatAfter id [] weak = weak := by
  cases weak <;> rfl

/-- A caller of `Exit` holds its socket. -/
def live (s : Arena) : Label → Bool
  | .exit _ socket => (s.sockets socket).isSome
  | _ => true

/-- The step before a run is part of it. -/
theorem seatAfter_cons (id : AccountId) {l : Label} (hl : s.live l = true) (rest : List Label)
    (weak : Option SocketId) :
    seatAfter id rest (s.reseat id weak l) = seatAfter id (l :: rest) weak := by
  unfold seatAfter
  rw [lastEntered]
  cases hlast : lastEntered id rest with
  | some last => rfl
  | none =>
    rw [Option.none_or]
    cases l with
    | enter id' socket =>
      by_cases h : id' = id
      · simp [reseat, Label.entered, h]
      · rw [unlessExited_cons id (l := .enter id' socket) fun _ => rfl]
        simp [reseat, Label.entered, h, Ne.symm h]
    | exit id' socket =>
      have hlock : s.lock weak = some socket ↔ weak = some socket := by
        rw [lock, Option.filter_eq_some_iff]
        exact and_iff_left hl
      simp only [reseat, hlock]
      rcases weak with _ | k
      · simp [Label.entered]
      · by_cases h : id = id' ∧ k = socket
        · obtain ⟨rfl, rfl⟩ := h
          simp [Label.entered, Label.exits]
        · have hexits : (Label.exit id' socket).exits id k = false := by
            rw [Label.exits, Bool.and_eq_false_iff, decide_eq_false_iff_not,
              decide_eq_false_iff_not]
            grind
          simp [Label.entered, h, hexits]
    | _ => exact (unlessExited_cons id (fun _ => rfl) rest weak).symm

/-- **The seats after a run.** -/
theorem session_run {labels : List Label}
    (hlive : Meets step (fun s l => s.live l = true) s labels)
    (h : run step s labels = some t) (id : AccountId) :
    t.info.session.findLKey id = (s.info.session.findLKey id).map
      fun e => (e.1, seatAfter id labels e.2) := by
  induction labels generalizing s with
  | nil =>
    cases h
    simp [seatAfter_nil]
  | cons l rest ih =>
    obtain ⟨u, hu, hr⟩ := Option.bind_eq_some_iff.mp h
    obtain ⟨hl, hrest⟩ := (meets_cons_of_some hu).mp hlive
    rw [ih hrest hr, session_step hu id, Option.map_map]
    refine congrArg₂ _ (funext fun e => ?_) rfl
    exact congrArg _ (seatAfter_cons id hl rest e.2)

/-- The socket stored for an account; none too where the pointer is null. -/
def stored (s : Arena) (id : AccountId) : Option SocketId :=
  (s.info.session.findLKey id).bind (·.2)

/-- The seats of a new game. -/
theorem session_make (ids : Sides AccountId) (timer : TimerId) (infos : Sides ByteQueue)
    (id : AccountId) : (GameInfo.make ids timer infos).session.findLKey id =
      if id = ids.left then some (0, none)
      else if id = ids.right then some (1, none)
      else none := by
  have hleft :
      ((Table.empty : Table AccountId Int (Option SocketId)).insert ids.left 0 none).1 = true :=
    Table.insert_fst.mpr ⟨Table.findLKey_empty, Table.findRKey_empty⟩
  change (((Table.empty.insert ids.left 0 none).2.insert ids.right 1 none).2).findLKey id = _
  by_cases hne : ids.right = ids.left
  · have hrefused : (((Table.empty : Table AccountId Int (Option SocketId)).insert ids.left 0
        none).2.insert ids.right 1 none).1 = false := by
      rw [← Bool.not_eq_true, Table.insert_fst, Table.findLKey_insert hleft, if_pos hne]
      exact fun h => nomatch h.1
    rw [Table.insert_of_refused hrefused, Table.findLKey_insert hleft, hne]
    split
    · rfl
    · simp
  · have hright : (((Table.empty : Table AccountId Int (Option SocketId)).insert ids.left 0
        none).2.insert ids.right 1 none).1 = true := by
      rw [Table.insert_fst, Table.findLKey_insert hleft, if_neg hne,
        Table.findRKey_insert_eq_none hleft]
      exact ⟨Table.findLKey_empty, by decide, Table.findRKey_empty⟩
    rw [Table.findLKey_insert hright, Table.findLKey_insert hleft, Table.findLKey_empty]
    split
    · next h => rw [if_neg (h ▸ hne)]
    · rfl

section Run
variable {selfKeyword : String} {ids : Sides AccountId} {timer : TimerId} {infos : Sides ByteQueue}
  {sockets : Sockets} {isOpen : SocketId → Bool} {sessions : Table AccountId Hash GameId}
  {gamepool : Gamepool} {labels : List Label}

/-- The seats of a game after any run. -/
theorem session_of_run
    (hlive : Meets step (fun s l => s.live l = true)
      (start selfKeyword ids timer infos sockets isOpen sessions gamepool) labels)
    (h : run step (start selfKeyword ids timer infos sockets isOpen sessions gamepool) labels =
      some t) (id : AccountId) :
    t.info.session.findLKey id = if id = ids.left then some (0, seatAfter id labels none)
      else if id = ids.right then some (1, seatAfter id labels none) else none := by
  rw [session_run hlive h id]
  change ((GameInfo.make ids timer infos).session.findLKey id).map _ = _
  rw [session_make]
  split
  · rfl
  split
  · rfl
  · rfl

theorem enter_eq (id : AccountId) (socket : SocketId) {e : Int × Option SocketId}
    (h : s.info.session.findLKey id = some e) :
    ∃ info, s.info.enter id socket = some (e.2, info) := by
  unfold GameInfo.enter
  rw [Table.insertLKeyValue_fst, h]
  exact ⟨_, rfl⟩

/-- An id that is not registered changes nothing. -/
theorem enter_exit_absent {id : AccountId} (h : s.info.session.findLKey id = none)
    (socket : SocketId) :
    s.info.enter id socket = none ∧ s.enter id socket = s ∧ s.exit id socket = s := by
  have henter : s.info.enter id socket = none := by
    unfold GameInfo.enter
    rw [Table.insertLKeyValue_fst, h]
    rfl
  refine ⟨henter, ?_, ?_⟩
  · rw [enter, henter]
  · rw [exit, h]

/-- **A late `Exit` spares a newer socket.** In every run of a game the socket stored for a
player is the one passed to the last `Enter`, unless `Exit` with that socket came after it; an
`Enter` returns the socket stored before, and the sides stay. -/
theorem late_exit_spares_newer_socket (selfKeyword : String) (ids : Sides AccountId)
    (timer : TimerId) (infos : Sides ByteQueue) (sockets : Sockets) (isOpen : SocketId → Bool)
    (sessions : Table AccountId Hash GameId) (gamepool : Gamepool) (labels : List Label) (t : Arena)
    (hlive : Meets step (fun s l => s.live l = true)
      (start selfKeyword ids timer infos sockets isOpen sessions gamepool) labels)
    (h : run step (start selfKeyword ids timer infos sockets isOpen sessions gamepool) labels =
      some t) :
    (∀ id, id = ids.left ∨ id = ids.right →
      t.stored id = (match lastEntered id labels with
        | some (socket, after) => if after.any (·.exits id socket) then none else some socket
        | none => none) ∧
      ∀ socket, ∃ info, t.info.enter id socket = some (t.stored id, info)) ∧
    (∀ id, (t.info.session.findLKey id).map (·.1) =
      if id = ids.left then some 0 else if id = ids.right then some 1 else none) ∧
    ∀ id, id ≠ ids.left → id ≠ ids.right → ∀ socket,
      t.info.enter id socket = none ∧ t.enter id socket = t ∧ t.exit id socket = t := by
  refine ⟨fun id hid => ?_, fun id => ?_, fun id hl hr socket => ?_⟩
  · have hseat : ∃ side, t.info.session.findLKey id = some (side, seatAfter id labels none) := by
      rw [session_of_run hlive h id]
      split
      · exact ⟨0, rfl⟩
      · next hl => exact ⟨1, if_pos (hid.resolve_left hl)⟩
    obtain ⟨side, hseat⟩ := hseat
    have hstored : t.stored id = seatAfter id labels none := by
      rw [stored, hseat]
      rfl
    refine ⟨?_, fun socket => ?_⟩
    · rw [hstored, seatAfter]
      cases lastEntered id labels with
      | none => rfl
      | some last => exact unlessExited_some id last.2 last.1
    · obtain ⟨info, hinfo⟩ := enter_eq id socket hseat
      exact ⟨info, by rw [hinfo, hstored]⟩
  · rw [session_of_run hlive h id]
    split
    · rfl
    split
    · rfl
    · rfl
  · refine enter_exit_absent ?_ socket
    rw [session_of_run hlive h id, if_neg hl, if_neg hr]

/-- The player connects again before the old connection is gone. -/
def comeBack : List Label := [.accept 1, .enter 1 1, .accept 3, .enter 1 3, .exit 1 1]

theorem late_exit_spares_newer_socket_comeBack :
    ∃ t, run step waiting comeBack = some t ∧ t.stored 1 = some 3 ∧ t.stored 2 = none := by
  obtain ⟨t, ht⟩ := Option.isSome_iff_exists.mp
    (by decide +kernel : (run step waiting comeBack).isSome = true)
  have hseats := (late_exit_spares_newer_socket _ _ _ _ _ _ _ _ comeBack t (by decide +kernel) ht).1
  exact ⟨t, ht, (hseats 1 (.inl rfl)).1, (hseats 2 (.inr rfl)).1⟩

end Run
end Arena
end DrgbServer.Battle
