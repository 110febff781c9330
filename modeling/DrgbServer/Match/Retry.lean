import DrgbServer.Match.DuplicatedAccess

/-! # A match that no battle server has taken

`TransferMatch` fails and the match stays at the front of `match_queue`, but the thread
waits for two players in `wait_queue` before it looks at the matches again. It is not
stuck (`retried`) as long as two players were left waiting when the transfer failed and
no `Exit` takes one of the last two away before the next round. -/
namespace DrgbServer.Match
open DrgbServer.Utils DrgbServer.Network DrgbServer.Lib DrgbServer.Lib.Procedure
open DrgbServer.Lib.Transition

namespace Server
variable {ar : Arith} {s t : Server}

/-- The thread is blocked in `matchmaker_cv.wait` while there is a match. -/
def Stuck (s : Server) : Prop :=
  s.pc = .waiting ∧ s.mm.matchmaker.size < 2 ∧ s.mm.matchmaker.matchQueue ≠ []

/-- An `Exit` between two rounds with a match left over leaves two players waiting. -/
def spares (s : Server) (accountId : AccountId) : Bool :=
  match s.pc with
  | .idle | .waiting =>
    s.mm.matchmaker.matchQueue.isEmpty || decide (2 ≤ (s.mm.matchmaker.exit accountId).size)
  | _ => true

/-- The condition on a step. -/
def attended (s : Server) : Label → Bool
  -- a transfer that fails leaves two players waiting
  | .transfer battleServer => match s.pc with
    | .finding [] done =>
      !done.all (·.2.isSome) || decide (0 < battleServer) || decide (2 ≤ s.mm.matchmaker.size)
    | _ => true
  | .testOrigin k => match s.rx k with
    | .found accountId origin => (s.mm.sockets origin).isNone || s.spares accountId
    | _ => true
  | .leaveQueue k => match s.rx k with
    | .failed accountId => s.spares accountId
    | _ => true
  | .packet k _ packet => match s.rx k with
    | .waiting accountId =>
      decide (MyMatch.headerOf (ByteQueue.ofVector packet) ≠ some reqPausematch) ||
        s.spares accountId
    | _ => true
  | _ => true

/-- The run invariant: between two rounds a match is left over only with two players
waiting. -/
def Spare (s : Server) : Prop :=
  s.pc = .idle ∨ s.pc = .waiting →
    s.mm.matchmaker.matchQueue = [] ∨ 2 ≤ s.mm.matchmaker.size

theorem Spare.not_stuck (h : s.Spare) : ¬ s.Stuck := by
  rintro ⟨hpc, hsize, hmatch⟩
  rcases h (.inr hpc) with hempty | htwo
  · exact hmatch hempty
  · exact absurd hsize (not_lt.mpr htwo)

theorem start_spare : start.Spare := fun _ => .inl rfl

/-- A step of another thread that leaves the matchmaker alone. -/
theorem Spare.frame (h : s.Spare) (hpc : t.pc = s.pc)
    (hm : t.mm.matchmaker = s.mm.matchmaker) : t.Spare := by
  unfold Spare at h ⊢
  rw [hpc, hm]
  exact h

/-- A step of the thread that does not end a round. -/
theorem spare_of_ne (hi : t.pc ≠ .idle) (hw : t.pc ≠ .waiting) : t.Spare := by
  rintro (hpc | hpc)
  · exact absurd hpc hi
  · exact absurd hpc hw

theorem spare_exit {accountId : AccountId} (hs : s.spares accountId = true)
    (hpc : t.pc = s.pc) (hm : t.mm.matchmaker = s.mm.matchmaker.exit accountId) : t.Spare := by
  intro ht
  rw [hpc] at ht
  rw [hm]
  have hs' : (s.mm.matchmaker.matchQueue.isEmpty ||
      decide (2 ≤ (s.mm.matchmaker.exit accountId).size)) = true := by
    rcases ht with ht | ht
    · rwa [spares, ht] at hs
    · rwa [spares, ht] at hs
  rcases Bool.or_eq_true_iff.mp hs' with hempty | htwo
  · exact .inl (List.isEmpty_iff.mp hempty)
  · exact .inr (of_decide_eq_true htwo)

/-! ## Steps -/

theorem served_spare (h : s.Spare) {k : SocketId} {a : AccountId} {answers : MyMatch.Answers}
    {packet : ByteQueue}
    (hok : MyMatch.headerOf packet ≠ some reqPausematch ∨ s.spares a = true) :
    (s.served ar k a answers packet).Spare := by
  rcases clientProcess_cases ar k a answers packet s.mm with
    ⟨r, _, _, _, hm⟩ | ⟨hpause, _, hm⟩ | ⟨_, _, hm⟩
  · intro hpc
    have hm' : (s.served ar k a answers packet).mm.matchmaker =
      s.mm.matchmaker.enter ar a r.win r.draw r.loose answers.visited := hm
    rw [hm', MyMatchMaker.matchQueue_enter]
    rcases h hpc with hempty | htwo
    · exact .inl hempty
    · exact .inr (htwo.trans (MyMatchMaker.size_le_enter ar _ _ _ _ _ _))
  · exact spare_exit (hok.resolve_left fun hne => hne hpause) rfl hm
  · exact h.frame rfl hm

theorem packet_spare (h : s.Spare) {k : SocketId} {answers : MyMatch.Answers}
    {packet : List Byte} (hok : s.attended (.packet k answers packet) = true)
    (hr : s.packet ar k answers packet = some t) : t.Spare := by
  obtain ⟨a, hrx, rfl⟩ := packet_cases hr
  simp only [attended, hrx, Bool.or_eq_true, decide_eq_true_eq] at hok
  exact served_spare h hok

theorem testOrigin_spare (h : s.Spare) {k : SocketId}
    (hok : s.attended (.testOrigin k) = true) (hr : s.testOrigin k = some t) : t.Spare := by
  obtain ⟨a, origin, hrx, hcase⟩ := testOrigin_cases hr
  simp only [attended, hrx, Bool.or_eq_true] at hok
  rcases hcase with ⟨halive, rfl⟩ | ⟨-, rfl⟩
  · refine spare_exit (hok.resolve_left fun hnone => ?_) rfl rfl
    rw [Option.isNone_iff_eq_none.mp hnone] at halive
    cases halive
  · exact h.frame rfl rfl

theorem leaveQueue_spare {k : SocketId}
    (hok : s.attended (.leaveQueue k) = true) (hr : s.leaveQueue k = some t) : t.Spare := by
  obtain ⟨a, hrx, rfl⟩ := leaveQueue_cases hr
  simp only [attended, hrx] at hok
  exact spare_exit hok rfl rfl

theorem inform_spare (h : s.Spare) {k : SocketId} {answers : MyMatch.Answers}
    (hr : s.inform k answers = some t) : t.Spare := by
  obtain ⟨_, hm⟩ := MyMatch.inform_framed k answers s.mm
  obtain ⟨_, -, ⟨_, u, he, rfl⟩ | ⟨stop, u, he, rfl⟩⟩ := inform_cases hr
  · rw [he] at hm
    exact h.frame rfl hm
  · rw [he] at hm
    exact h.frame rfl hm

theorem identified_spare (h : s.Spare) (k : SocketId)
    (found : Except Exn (Option (AccountId × Hash))) : (s.identified k found).Spare := by
  unfold identified
  split <;> exact h.frame rfl rfl

theorem authPacket_spare (h : s.Spare) {k : SocketId} {answers : MyMatch.Answers}
    {packet : List Byte} (hr : s.authPacket k answers packet = some t) : t.Spare := by
  obtain ⟨-, rfl⟩ := authPacket_cases hr
  exact identified_spare h k _

theorem getMatch_spare (hr : s.getMatch = some t) : t.Spare := by
  obtain ⟨-, ⟨-, rfl⟩ | ⟨hno, rfl⟩⟩ := getMatch_cases hr
  · exact spare_of_ne nofun nofun
  · intro _
    -- the loop has ended because the queue is empty
    refine .inl ?_
    simpa [MyMatchMaker.isThereMatch] using hno

theorem transfer_spare {battleServer : Seed} (hok : s.attended (.transfer battleServer) = true)
    (hr : s.transfer battleServer = some t) : t.Spare := by
  obtain ⟨done, hpc, hcase⟩ := transfer_cases hr
  simp only [attended, hpc, Bool.or_eq_true, decide_eq_true_eq, Bool.not_eq_true'] at hok
  rcases hcase with ⟨hall, rfl⟩ | ⟨-, rfl⟩
  · rw [hall] at hok
    by_cases hb : battleServer ≤ 0
    · intro _
      refine .inr ((hok.resolve_left ?_))
      rintro (hf | hpos)
      · cases hf
      · exact absurd hpos (not_lt.mpr hb)
    · refine spare_of_ne ?_ ?_
      · simp [hb]
      · simp [hb]
  · exact spare_of_ne nofun nofun

/-- The other steps of the handlers and of the sockets. -/
theorem handlers_frame {l : Label} (hr : s.act ar l = some t) (hl : match l with
    | .accept | .authError _ | .findSession _ | .closeOrigin _ | .updateSession _
    | .insertSession _ | .arm _ | .fragment _ | .undecrypted _ | .error _ | .findOwn _
    | .eraseOwn _ | .finish _ | .close _ | .disconnect _ | .free _ => True
    | _ => False) : t.pc = s.pc ∧ t.mm.matchmaker = s.mm.matchmaker := by
  cases l with
  | accept | close | disconnect =>
    cases hr
    exact ⟨rfl, rfl⟩
  | authError k =>
    obtain ⟨-, rfl⟩ := authError_cases hr
    exact ⟨rfl, rfl⟩
  | findSession k =>
    obtain ⟨_, _, -, ⟨_, _, -, rfl⟩ | ⟨-, rfl⟩⟩ := findSession_cases hr <;> exact ⟨rfl, rfl⟩
  | closeOrigin k =>
    obtain ⟨_, _, -, rfl⟩ := closeOrigin_cases hr
    exact ⟨rfl, rfl⟩
  | updateSession k =>
    obtain ⟨_, -, rfl⟩ := updateSession_cases hr
    exact ⟨rfl, rfl⟩
  | insertSession k =>
    obtain ⟨_, _, -, rfl⟩ := insertSession_cases hr
    exact ⟨rfl, rfl⟩
  | arm k =>
    rcases arm_cases hr with ⟨-, rfl⟩ | ⟨_, -, rfl⟩ <;> exact ⟨rfl, rfl⟩
  | fragment k =>
    rcases fragment_cases hr with ⟨-, rfl⟩ | ⟨_, -, rfl⟩ <;> exact ⟨rfl, rfl⟩
  | undecrypted k =>
    obtain ⟨rfl, -⟩ := undecrypted_cases hr
    exact ⟨rfl, rfl⟩
  | error k =>
    obtain ⟨_, -, rfl⟩ := error_cases hr
    exact ⟨rfl, rfl⟩
  | findOwn k =>
    obtain ⟨_, -, ⟨_, _, -, rfl⟩ | ⟨-, rfl⟩⟩ := findOwn_cases hr <;> exact ⟨rfl, rfl⟩
  | eraseOwn k =>
    obtain ⟨_, -, rfl⟩ := eraseOwn_cases hr
    exact ⟨rfl, rfl⟩
  | finish k =>
    obtain ⟨-, rfl⟩ := finish_cases hr
    exact ⟨rfl, rfl⟩
  | free k =>
    obtain ⟨_, -, -, rfl⟩ := free_cases hr
    exact ⟨rfl, rfl⟩
  | _ => exact hl.elim

/-- The other steps of the thread are inside a round. -/
theorem maker_spare (h : s.Spare) {l : Label} (hr : s.act ar l = some t) (hl : match l with
    | .wait | .wake | .process | .find | .lock | .check _ | .tell | .part | .giveBack _
    | .popMatch => True
    | _ => False) : t.Spare := by
  cases l with
  | wait =>
    obtain ⟨hpc, rfl⟩ := wait_cases hr
    exact fun _ => h (.inl hpc)
  | wake =>
    obtain ⟨-, -, rfl⟩ := wake_cases hr
    exact spare_of_ne (by simp) (by simp)
  | process =>
    obtain ⟨-, rfl⟩ := process_cases hr
    exact spare_of_ne (by simp) (by simp)
  | find =>
    obtain ⟨_, _, _, -, ⟨_, _, -, rfl⟩ | ⟨-, rfl⟩⟩ := find_cases hr
    all_goals exact spare_of_ne (by simp) (by simp)
  | lock =>
    obtain ⟨_, _, _, _, -, ⟨-, rfl⟩ | ⟨-, rfl⟩⟩ := lock_cases hr
    all_goals exact spare_of_ne (by simp) (by simp)
  | check ok =>
    obtain ⟨_, _, _, _, -, ⟨-, rfl⟩ | ⟨-, rfl⟩⟩ := check_cases hr
    all_goals exact spare_of_ne (by simp) (by simp)
  | tell =>
    obtain ⟨_, _, _, _, -, rfl⟩ := tell_cases hr
    exact spare_of_ne (by simp) (by simp)
  | part =>
    obtain ⟨_, _, _, -, rfl⟩ := part_cases hr
    exact spare_of_ne (by simp) (by simp)
  | giveBack visited =>
    rcases giveBack_cases hr with ⟨_, _, _, -, rfl⟩ | ⟨_, _, -, rfl⟩
    all_goals exact spare_of_ne (by simp) (by simp)
  | popMatch =>
    obtain ⟨-, rfl⟩ := popMatch_cases hr
    exact spare_of_ne (by simp) (by simp)
  | _ => exact hl.elim

theorem act_spare (h : s.Spare) {l : Label} (hok : s.attended l = true)
    (hr : s.act ar l = some t) : t.Spare := by
  cases l with
  | authPacket k answers packet => exact authPacket_spare h hr
  | testOrigin k => exact testOrigin_spare h hok hr
  | inform k answers => exact inform_spare h hr
  | packet k answers packet => exact packet_spare h hok hr
  | leaveQueue k => exact leaveQueue_spare hok hr
  | getMatch => exact getMatch_spare hr
  | transfer battleServer => exact transfer_spare hok hr
  | wait | wake | process | find | lock | check | tell | part | giveBack | popMatch =>
    exact maker_spare h hr trivial
  | accept | authError | findSession | closeOrigin | updateSession | insertSession | arm
  | fragment | undecrypted | error | findOwn | eraseOwn | finish | close | disconnect | free =>
    obtain ⟨hpc, hm⟩ := handlers_frame hr trivial
    exact h.frame hpc hm

/-- **A match left over is retried**: the thread is not blocked while there is one, in
any state of a run whose steps meet the condition. -/
theorem retried (ar : Arith) (labels : List Label)
    (hok : Meets (step ar) (fun s l => s.attended l = true) start labels) {s : Server}
    (hr : run (step ar) start labels = some s) : ¬ s.Stuck :=
  (run_invariant (I := Spare) (fun _ _ _ h hl hs => act_spare h hl (step_act hs)) start_spare
    hok hr).not_stuck

/-- Answers with which a cookie is that of the account. -/
def answersFor (accountId : AccountId) : MyMatch.Answers :=
  { MyMatch.plain with cookieInfo := fun _ => some (accountId, MyMatch.selfKeyword) }

/-- An account logs in with a cookie of its own and asks for a match. -/
def queueUp (k : SocketId) (accountId : AccountId) (b : Byte) : List Label :=
  [.accept, .arm k, .authPacket k (answersFor accountId) (List.replicate 32 b), .findSession k,
    .insertSession k, .inform k MyMatch.plain, .arm k, .packet k MyMatch.plain [reqStartmatch],
    .arm k]

/-- One round of the thread up to the transfer of its first match. -/
def firstMatch : List Label :=
  [.wait, .wake, .process, .getMatch, .find, .lock, .check true, .find, .lock, .check true]

/-- A battle server takes the match, and the thread waits for the next players. -/
theorem retried_transferred :
    ∃ s, run (step Lobby.exact) start (queueUp 0 1 0 ++ queueUp 1 2 1 ++ firstMatch ++
        [.transfer 3, .tell, .part, .tell, .part, .popMatch, .getMatch, .wait]) = some s ∧
      s.pc = .waiting ∧ ¬ s.Stuck := by
  have h : ∃ s, run (step Lobby.exact) start (queueUp 0 1 0 ++ queueUp 1 2 1 ++ firstMatch ++
      [.transfer 3, .tell, .part, .tell, .part, .popMatch, .getMatch, .wait]) = some s ∧
      s.pc = .waiting := exists_run_of_any (by decide +kernel)
  obtain ⟨s, hr, hpc⟩ := h
  exact ⟨s, hr, hpc, retried Lobby.exact _ (by decide +kernel) hr⟩

/-- No battle server takes the match of the only two players. -/
theorem stuck_no_server :
    ∃ s, run (step Lobby.exact) start
        (queueUp 0 1 0 ++ queueUp 1 2 1 ++ firstMatch ++ [.transfer 0, .wait]) = some s ∧
      s.Stuck := by
  have h : ∃ s, run (step Lobby.exact) start
      (queueUp 0 1 0 ++ queueUp 1 2 1 ++ firstMatch ++ [.transfer 0, .wait]) = some s ∧
      (s.pc = .waiting ∧ s.mm.matchmaker.size < 2 ∧ s.mm.matchmaker.matchQueue ≠ []) :=
    exists_run_of_any (by decide +kernel)
  exact h

end Server
end DrgbServer.Match
