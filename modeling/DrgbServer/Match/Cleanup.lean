import DrgbServer.Match.Queueing
import DrgbServer.Match.Sessions

/-! # What a socket leaves behind

The error branch of `ClientProcess` is the only place that takes a socket's account off
the queue and its session out of the table. A socket reaches it as long as every
`StartRecv` for the account finds it open, so that a receive is outstanding when it is
closed. Then nothing of a socket is left when its handlers have finished
(`cleans_up`), and a session leads to a socket that exists. -/
namespace DrgbServer.Match
open DrgbServer.Utils DrgbServer.Network DrgbServer.Lib DrgbServer.Lib.Procedure
open DrgbServer.Lib.Transition

/-- The account a socket can be registered for: its error branch has still to look. -/
def Rx.active : Rx → Option AccountId
  | .informing accountId | .arming accountId | .waiting accountId | .failed accountId
  | .leaving accountId | .erasing accountId => some accountId
  | .none | .authArming | .authWaiting | .entering _ _ | .found _ _ | .superseding _ _
  | .updating _ | .inserting _ _ | .closing => Option.none

/-- The account a socket can have queued: its error branch has still to call `Exit`. -/
def Rx.pending : Rx → Option AccountId
  | .informing accountId | .arming accountId | .waiting accountId | .failed accountId =>
    some accountId
  | .none | .authArming | .authWaiting | .entering _ _ | .found _ _ | .superseding _ _
  | .updating _ | .inserting _ _ | .leaving _ | .erasing _ | .closing => Option.none

theorem Rx.active_of_pending {r : Rx} {accountId : AccountId} (h : r.pending = some accountId) :
    r.active = some accountId := by
  cases r <;> first | exact h | cases h

namespace Server
variable {ar : Arith} {s t : Server}

/-- `Close` has been called on the socket, and no handler of it is left. -/
def Finished (s : Server) (k : SocketId) : Prop :=
  k < s.next ∧ s.rx k = .none ∧ (s.mm.sockets k).all (·.initiateClose) = true

instance (k : SocketId) : DecidablePred (Finished · k) :=
  fun s => inferInstanceAs (Decidable (_ ∧ _ ∧ (s.mm.sockets k).all (·.initiateClose) = true))

/-- A finished socket has no session and no element in `wait_queue`, and `MatchMake`
locks only sockets that exist. -/
structure Clean (s : Server) : Prop where
  sessions : ∀ k, s.Finished k → ∀ accountId cookie,
    s.mm.sessions.findLKey accountId ≠ some (cookie, k)
  queue : ∀ k, s.Finished k → ∀ e ∈ s.mm.matchmaker.waitQueue, s.entered e ≠ some k
  locking : ∀ e k todo done, s.pc = .locking e k todo done → (s.mm.sockets k).isSome
  running : s.pc ≠ .crashed

/-- An element for an account that waits has the ratio of the waiting one. -/
def agrees (ar : Arith) (s : Server) (e : QueueElement) : Bool :=
  s.mm.matchmaker.waitQueue.all fun w => w.id != e.id || decide (w.ratio ar = e.ratio ar)

/-- Nothing is left to clean up for a socket of the account. -/
def released (s : Server) (k : SocketId) (accountId : AccountId) : Bool :=
  (s.mm.sessions.findLKey accountId).all (·.2 != k) &&
    s.mm.matchmaker.waitQueue.all fun e => s.entered e != some k

/-- The condition on a step. -/
def tidy (ar : Arith) (s : Server) : Label → Bool
  -- the database answers a client that has just got its session
  | .inform k answers => match s.rx k with
    | .informing accountId =>
      (answers.connection && answers.info.isOk && answers.achieves.isOk) || s.released k accountId
    | _ => true
  -- `StartRecv` for an account finds the socket open
  | .arm k => match s.rx k with
    | .arming accountId => s.mm.sockets.accepts k || s.released k accountId
    | _ => true
  -- what a client with a session sends decrypts
  | .undecrypted k => match s.rx k with
    | .arming accountId | .waiting accountId => s.released k accountId
    | _ => true
  | .packet k answers packet => match s.rx k with
    | .waiting accountId =>
      (brings s.mm.matchmaker accountId answers (ByteQueue.ofVector packet)).all (agrees ar s)
    | _ => true
  -- an element goes back into the queue while its socket is there to take it out
  | .giveBack _ => match s.pc with
    | .returning ((e, some k) :: _) => agrees ar s e && (s.rx k).pending == some e.id
    | _ => true
  -- a socket is not freed between `FindLKey` and `lock`
  | .free k => match s.pc with
    | .locking _ k' _ _ => k' != k
    | _ => true
  | _ => true

/-- The run invariant. -/
structure TidyInv (ar : Arith) (s : Server) : Prop where
  sessions : ∀ accountId cookie k, s.mm.sessions.findLKey accountId = some (cookie, k) →
    (s.rx k).active = some accountId
  queue : ∀ e ∈ s.mm.matchmaker.waitQueue, ∀ k, s.entered e = some k →
    (s.rx k).pending = some e.id
  lobby : Lobby.Inv ar ⟨s.mm.matchmaker, []⟩
  alive : ∀ k, s.rx k ≠ .none → (s.mm.sockets k).isSome
  fresh : ∀ k, s.next ≤ k → s.rx k = .none
  locking : ∀ e k todo done, s.pc = .locking e k todo done → (s.mm.sockets k).isSome
  running : s.pc ≠ .crashed

theorem start_tidyInv (ar : Arith) : TidyInv ar start where
  sessions := by intro accountId cookie k h; simp [start] at h
  queue := by intro e he; simp [start, MyMatchMaker.start] at he
  lobby := Lobby.start_inv ar
  alive := by intro k h; simp [start] at h
  fresh := by intro k _; rfl
  locking := by intro e k todo done h; cases h
  running := by intro h; cases h

theorem TidyInv.clean (h : TidyInv ar s) : s.Clean where
  sessions := by
    rintro k ⟨_, hrx, _⟩ accountId cookie hs
    have ha := h.sessions accountId cookie k hs
    rw [hrx] at ha
    cases ha
  queue := by
    rintro k ⟨_, hrx, _⟩ e he hmem
    have hp := h.queue e he k hmem
    rw [hrx] at hp
    cases hp
  locking := h.locking
  running := h.running

/-! ## Updates of single parts -/

/-- A handler goes on to a state that answers for what is left of its socket. -/
theorem TidyInv.setRx (h : TidyInv ar s) {k : SocketId} {r : Rx} (hk : s.rx k ≠ .none)
    (ha : ∀ accountId cookie, s.mm.sessions.findLKey accountId = some (cookie, k) →
      r.active = some accountId)
    (hp : ∀ e ∈ s.mm.matchmaker.waitQueue, s.entered e = some k → r.pending = some e.id) :
    TidyInv ar (s.setRx k r) where
  sessions := by
    intro accountId cookie j hj
    by_cases hjk : j = k
    · subst hjk
      rw [setRx_rx_self]
      exact ha accountId cookie hj
    · rw [setRx_rx_other s r hjk]
      exact h.sessions accountId cookie j hj
  queue := by
    intro e he j hj
    by_cases hjk : j = k
    · subst hjk
      rw [setRx_rx_self]
      exact hp e he hj
    · rw [setRx_rx_other s r hjk]
      exact h.queue e he j hj
  lobby := h.lobby
  alive := by
    intro j hj
    by_cases hjk : j = k
    · subst hjk
      exact h.alive j hk
    · rw [setRx_rx_other s r hjk] at hj
      exact h.alive j hj
  fresh := by
    intro j hj
    have hjk : j ≠ k := by
      rintro rfl
      exact hk (h.fresh j hj)
    rw [setRx_rx_other s r hjk]
    exact h.fresh j hj
  locking := h.locking
  running := h.running

/-- The next state of the handler answers for no less. -/
theorem TidyInv.setRx_keep (h : TidyInv ar s) {k : SocketId} {r : Rx} (hk : s.rx k ≠ .none)
    (ha : ∀ a, (s.rx k).active = some a → r.active = some a)
    (hp : ∀ a, (s.rx k).pending = some a → r.pending = some a) : TidyInv ar (s.setRx k r) :=
  h.setRx hk (fun accountId cookie hs => ha _ (h.sessions accountId cookie k hs))
    fun e he hs => hp _ (h.queue e he k hs)

/-- A handler without a session has nothing to answer for. -/
theorem TidyInv.setRx_early (h : TidyInv ar s) {k : SocketId} (r : Rx) (hk : s.rx k ≠ .none)
    (ha : (s.rx k).active = none) : TidyInv ar (s.setRx k r) := by
  refine h.setRx_keep hk ?_ ?_
  · intro a hact
    rw [ha] at hact
    cases hact
  · intro a hpen
    rw [Rx.active_of_pending hpen] at ha
    cases ha

theorem TidyInv.setRx_released (h : TidyInv ar s) {k : SocketId} (r : Rx) {a : AccountId}
    (ha : (s.rx k).active = some a) (hr : s.released k a = true) : TidyInv ar (s.setRx k r) := by
  have hk : s.rx k ≠ .none := by
    intro hn
    rw [hn] at ha
    cases ha
  obtain ⟨hs, hq⟩ := Bool.and_eq_true_iff.mp hr
  refine h.setRx hk ?_ ?_
  · intro a' cookie hs'
    have haa := h.sessions a' cookie k hs'
    rw [ha] at haa
    cases haa
    rw [hs'] at hs
    simp at hs
  · intro e he hent
    have := List.all_eq_true.mp hq e he
    simp [hent] at this

/-- Sockets change, but none goes. -/
theorem TidyInv.setSockets (h : TidyInv ar s) {ss : Sockets}
    (hs : ∀ k, (ss k).isSome = (s.mm.sockets k).isSome) : TidyInv ar (s.setSockets ss) where
  sessions := h.sessions
  queue := h.queue
  lobby := h.lobby
  alive k hk := (hs k).trans (h.alive k hk)
  fresh := h.fresh
  locking e k todo done hpc := (hs k).trans (h.locking e k todo done hpc)
  running := h.running

theorem TidyInv.modify (h : TidyInv ar s) (k : SocketId) (f : Socket → Socket) :
    TidyInv ar (s.setSockets (s.mm.sockets.modify k f)) :=
  h.setSockets fun j => s.mm.sockets.isSome_modify k j f

theorem TidyInv.setSessions (h : TidyInv ar s) {sessions : Table AccountId Hash SocketId}
    (hs : ∀ accountId cookie k, sessions.findLKey accountId = some (cookie, k) →
      (s.rx k).active = some accountId) : TidyInv ar (s.setSessions sessions) where
  sessions := hs
  queue := h.queue
  lobby := h.lobby
  alive := h.alive
  fresh := h.fresh
  locking := h.locking
  running := h.running

theorem TidyInv.erase (h : TidyInv ar s) (accountId : AccountId) :
    TidyInv ar (s.setSessions (s.mm.sessions.eraseLKey accountId).2) := by
  refine h.setSessions fun a cookie k hs => ?_
  rw [Table.findLKey_eraseLKey] at hs
  split at hs
  · cases hs
  · exact h.sessions a cookie k hs

theorem TidyInv.setPc (h : TidyInv ar s) {pc : MakerPc}
    (hl : ∀ e k todo done, pc = .locking e k todo done → (s.mm.sockets k).isSome)
    (hc : pc ≠ .crashed) : TidyInv ar { s with pc := pc } where
  sessions := h.sessions
  queue := h.queue
  lobby := h.lobby
  alive := h.alive
  fresh := h.fresh
  locking := hl
  running := hc

/-- An operation of the matchmaker, which may give an element to another socket. -/
theorem TidyInv.setMaker (h : TidyInv ar s) {mm : MyMatchMaker}
    {entered : QueueElement → Option SocketId} (hl : Lobby.Inv ar ⟨mm, []⟩)
    (hq : ∀ e ∈ mm.waitQueue, ∀ k, entered e = some k → (s.rx k).pending = some e.id) :
    TidyInv ar { s.setMaker mm with entered := entered } where
  sessions := h.sessions
  queue := hq
  lobby := hl
  alive := h.alive
  fresh := h.fresh
  locking := h.locking
  running := h.running

/-- What is recorded beside changes. -/
theorem TidyInv.aside (h : TidyInv ar s) (terminated : Bool)
    (wants : SocketId → Option AccountId) :
    TidyInv ar { s with terminated := terminated, wants := wants } :=
  ⟨h.sessions, h.queue, h.lobby, h.alive, h.fresh, h.locking, h.running⟩

/-- `Exit` of an account. -/
theorem TidyInv.exit (h : TidyInv ar s) (accountId : AccountId) :
    TidyInv ar (s.setMaker (s.mm.matchmaker.exit accountId)) := by
  refine h.setMaker (Lobby.step_inv _ (.exit accountId) _ h.lobby nofun rfl) ?_
  intro e he k hk
  exact h.queue e (List.mem_of_mem_eraseP he) k hk

/-- After `Exit` the account does not wait. -/
theorem TidyInv.forall_ne_exit (h : TidyInv ar s) (accountId : AccountId) :
    ∀ e ∈ (s.mm.matchmaker.exit accountId).waitQueue, e.id ≠ accountId := by
  refine Lobby.forall_ne_eraseP ?_
  have hn := List.nodup_iff_count_le_one.mp h.lobby.unique.1 accountId
  rwa [List.count, List.countP_map] at hn

theorem agrees_iff {e : QueueElement} : agrees ar s e = true ↔
    ∀ w ∈ s.mm.matchmaker.waitQueue, w.id = e.id → w.ratio ar = e.ratio ar := by
  simp only [agrees, List.all_eq_true, Bool.or_eq_true, bne_iff_ne, decide_eq_true_eq]
  refine forall₂_congr fun w _ => ?_
  rw [imp_iff_not_or]

/-- An element of a handler that has still to call `Exit` goes into the queue, if it
is let in. -/
theorem TidyInv.enter (h : TidyInv ar s) {op : Op} {returned : List QueueElement} {u : Lobby}
    {e : QueueElement} {k : SocketId}
    (hop : Lobby.step ar ⟨s.mm.matchmaker, returned⟩ op = some u)
    (hb : ∀ e', Lobby.brings ⟨s.mm.matchmaker, returned⟩ op = some e' → e' = e)
    (hin : Lobby.Enters e.id op) (hag : agrees ar s e = true)
    (hk : (s.rx k).pending = some e.id) :
    TidyInv ar { s.setMaker u.mm with entered := Function.update s.entered e (some k) } := by
  have hl : Lobby.Inv ar ⟨s.mm.matchmaker, returned⟩ := ⟨h.lobby.unique, h.lobby.sorted⟩
  have hu : u.Inv ar := by
    refine Lobby.step_inv _ op u hl ?_ hop
    intro e' he'
    rw [hb e' he']
    exact agrees_iff.mp hag
  have hmem : ∀ w ∈ u.mm.waitQueue, w = e ∨ w ∈ s.mm.matchmaker.waitQueue := by
    intro w hw
    rcases Lobby.step_cases hop with ⟨e', he', hwt, _⟩ | ⟨_, hwt, _⟩ | ⟨_, rfl, _⟩ | ⟨rfl, _⟩
    · rw [hwt] at hw
      exact hb e' he' ▸ OrderedSet.mem_of_mem_insert _ hw
    · rw [hwt] at hw
      exact .inr hw
    · exact hin.elim
    · exact hin.elim
  refine h.setMaker ⟨hu.unique, hu.sorted⟩ ?_
  intro w hw j hj
  by_cases hwe : w = e
  · subst hwe
    rw [Function.update_self] at hj
    cases hj
    exact hk
  · rw [Function.update_of_ne hwe] at hj
    exact h.queue w ((hmem w hw).resolve_left hwe) j hj

/-- A request or an authentication leaves the sessions and the set of sockets alone. -/
theorem TidyInv.framed (h : TidyInv ar s) {mm : MyMatch} (hf : MyMatch.Framed s.mm mm)
    (hm : mm.matchmaker = s.mm.matchmaker) : TidyInv ar { s with mm := mm } where
  sessions := by
    rw [hf.sessions]
    exact h.sessions
  queue := by
    rw [hm]
    exact h.queue
  lobby := by
    rw [hm]
    exact h.lobby
  alive k hk := (hf.alive k).trans (h.alive k hk)
  fresh := h.fresh
  locking e k todo done hpc := (hf.alive k).trans (h.locking e k todo done hpc)
  running := h.running

/-! ## `AuthenticateProcess` -/

theorem accept_tidyInv (h : TidyInv ar s) : TidyInv ar s.accept := by
  -- nothing is known about the new socket yet
  have hother : ∀ k, s.rx k ≠ .none → s.accept.rx k = s.rx k := by
    intro k hk
    have hne : k ≠ s.next := by
      rintro rfl
      exact hk (h.fresh s.next (le_refl _))
    exact Function.update_of_ne hne _ _
  have halive : ∀ k, (s.mm.sockets k).isSome → (s.accept.mm.sockets k).isSome := by
    intro k hk
    by_cases hne : k = s.next
    · simp [accept, Server.setSockets, hne]
    · simpa [accept, Server.setSockets, hne] using hk
  refine ⟨?_, ?_, h.lobby, ?_, ?_, ?_, h.running⟩
  · intro accountId cookie k hk
    have hact := h.sessions accountId cookie k hk
    rwa [hother k fun hn => by rw [hn] at hact; cases hact]
  · intro e he k hk
    have hpen := h.queue e he k hk
    rwa [hother k fun hn => by rw [hn] at hpen; cases hpen]
  · intro k hk
    by_cases hne : k = s.next
    · simp [accept, Server.setSockets, hne]
    · refine halive k (h.alive k ?_)
      rwa [show s.accept.rx k = s.rx k from Function.update_of_ne hne _ _] at hk
  · intro k hk
    have hlt : s.next < k := hk
    exact (Function.update_of_ne hlt.ne' _ _).trans (h.fresh k hlt.le)
  · intro e k todo done hpc
    exact halive k (h.locking e k todo done hpc)

theorem identified_tidyInv (h : TidyInv ar s) {k : SocketId} (hk : s.rx k ≠ .none)
    (ha : (s.rx k).active = none) (found : Except Exn (Option (AccountId × Hash))) :
    TidyInv ar (s.identified k found) := by
  unfold identified
  split
  · exact (h.setRx_early _ hk ha).aside _ _
  · have hf := MyMatch.refuse_framed k s.mm
    exact (h.framed hf.1 hf.2).setRx_early _ hk ha
  · exact h.setRx_early _ hk ha

theorem authPacket_tidyInv (h : TidyInv ar s) {k : SocketId} {answers : MyMatch.Answers}
    {packet : List Byte} (hr : s.authPacket k answers packet = some t) : TidyInv ar t := by
  obtain ⟨hrx, rfl⟩ := authPacket_cases hr
  exact identified_tidyInv h (by rw [hrx]; exact nofun) (by rw [hrx]; rfl) _

theorem authError_tidyInv (h : TidyInv ar s) {k : SocketId} (hr : s.authError k = some t) :
    TidyInv ar t := by
  obtain ⟨hrx, rfl⟩ := authError_cases hr
  exact (h.modify k _).setRx_early _ (by rw [setSockets_rx, hrx]; exact nofun)
    (by rw [setSockets_rx, hrx]; rfl)

theorem findSession_tidyInv (h : TidyInv ar s) {k : SocketId} (hr : s.findSession k = some t) :
    TidyInv ar t := by
  obtain ⟨accountId, cookie, hrx, hcase⟩ := findSession_cases hr
  have hk : s.rx k ≠ .none := by rw [hrx]; exact nofun
  have ha : (s.rx k).active = none := by rw [hrx]; rfl
  rcases hcase with ⟨_, _, -, rfl⟩ | ⟨-, rfl⟩ <;> exact h.setRx_early _ hk ha

theorem testOrigin_tidyInv (h : TidyInv ar s) {k : SocketId} (hr : s.testOrigin k = some t) :
    TidyInv ar t := by
  obtain ⟨accountId, origin, hrx, hcase⟩ := testOrigin_cases hr
  have hk : s.rx k ≠ .none := by rw [hrx]; exact nofun
  have ha : (s.rx k).active = none := by rw [hrx]; rfl
  rcases hcase with ⟨-, rfl⟩ | ⟨-, rfl⟩
  · exact (h.exit _).setRx_early _ hk ha
  · exact h.setRx_early _ hk ha

theorem closeOrigin_tidyInv (h : TidyInv ar s) {k : SocketId} (hr : s.closeOrigin k = some t) :
    TidyInv ar t := by
  obtain ⟨_, _, hrx, rfl⟩ := closeOrigin_cases hr
  have hk : s.rx k ≠ .none := by rw [hrx]; exact nofun
  have ha : (s.rx k).active = none := by rw [hrx]; rfl
  exact ((h.modify _ _).modify _ _).setRx_early _ hk ha

theorem updateSession_tidyInv (h : TidyInv ar s) {k : SocketId}
    (hr : s.updateSession k = some t) : TidyInv ar t := by
  obtain ⟨a, hrx, rfl⟩ := updateSession_cases hr
  have h' := h.setRx_early (.informing a) (by rw [hrx]; exact nofun) (by rw [hrx]; rfl)
  refine h'.setSessions fun a' cookie j hs => ?_
  rw [Table.findLKey_insertLKeyValue] at hs
  split at hs
  · rename_i ha
    obtain ⟨_, _, heq⟩ := Option.map_eq_some_iff.mp hs
    cases heq
    rw [setRx_rx_self, ha]
    rfl
  · exact h'.sessions a' cookie j hs

theorem insertSession_tidyInv (h : TidyInv ar s) {k : SocketId}
    (hr : s.insertSession k = some t) : TidyInv ar t := by
  obtain ⟨a, cookie, hrx, rfl⟩ := insertSession_cases hr
  have h' := h.setRx_early (.informing a) (by rw [hrx]; exact nofun) (by rw [hrx]; rfl)
  refine h'.setSessions fun a' cookie' j hs => ?_
  rcases Table.findLKey_of_insert hs with ⟨rfl, rfl, rfl⟩ | hs
  · rw [setRx_rx_self]
    rfl
  · exact h'.sessions a' cookie' j hs

theorem inform_tidyInv (h : TidyInv ar s) {k : SocketId} {answers : MyMatch.Answers}
    (hok : tidy ar s (.inform k answers) = true) (hr : s.inform k answers = some t) :
    TidyInv ar t := by
  obtain ⟨a, hrx, hcase⟩ := inform_cases hr
  simp only [tidy, hrx, Bool.or_eq_true, Bool.and_eq_true] at hok
  obtain ⟨hf, hm⟩ := MyMatch.inform_framed k answers s.mm
  have hact : (s.rx k).active = some a := by rw [hrx]; rfl
  have hk : s.rx k ≠ .none := by rw [hrx]; exact nofun
  rcases hcase with ⟨_, u, he, rfl⟩ | ⟨stop, u, he, rfl⟩
  · rw [he] at hf hm
    refine ((h.framed hf hm).modify k _).setRx_keep hk ?_ ?_
    · intro a' ha'
      exact (show (s.rx k).active = some a' from ha') ▸ hact.symm
    · intro a' ha'
      exact (Rx.active_of_pending (r := s.rx k) ha') ▸ hact.symm
  · rw [he] at hf hm
    rcases hok with ⟨⟨hc, hi⟩, hach⟩ | hrel
    · -- with a database that answers nothing is thrown
      cases hinfo : answers.info with
      | error _ => rw [hinfo] at hi; cases hi
      | ok info => cases hachieves : answers.achieves with
        | error _ => rw [hachieves] at hach; cases hach
        | ok achieves =>
          rw [MyMatch.exec_inform hc hinfo hachieves] at he
          cases he
    · refine ((h.setRx_released .none hact hrel).framed ?_ hm).aside _ _
      exact hf

theorem arm_tidyInv (h : TidyInv ar s) {k : SocketId} (hok : tidy ar s (.arm k) = true)
    (hr : s.arm k = some t) : TidyInv ar t := by
  rcases arm_cases hr with ⟨hrx, rfl⟩ | ⟨a, hrx, rfl⟩
  · exact h.setRx_early _ (by rw [hrx]; exact nofun) (by rw [hrx]; rfl)
  · simp only [tidy, hrx, Bool.or_eq_true] at hok
    rcases hok with hacc | hrel
    · rw [if_pos hacc]
      refine h.setRx_keep (by rw [hrx]; exact nofun) ?_ ?_
      · rw [hrx]
        exact fun _ ha => ha
      · rw [hrx]
        exact fun _ ha => ha
    · exact h.setRx_released _ (by rw [hrx]; rfl) hrel

theorem fragment_tidyInv (h : TidyInv ar s) {k : SocketId} (hr : s.fragment k = some t) :
    TidyInv ar t := by
  rcases fragment_cases hr with ⟨hrx, rfl⟩ | ⟨a, hrx, rfl⟩
  · exact h.setRx_early _ (by rw [hrx]; exact nofun) (by rw [hrx]; rfl)
  · refine h.setRx_keep (by rw [hrx]; exact nofun) ?_ ?_
    · rw [hrx]
      exact fun _ ha => ha
    · rw [hrx]
      exact fun _ ha => ha

theorem undecrypted_tidyInv (h : TidyInv ar s) {k : SocketId}
    (hok : tidy ar s (.undecrypted k) = true) (hr : s.undecrypted k = some t) : TidyInv ar t := by
  obtain ⟨rfl, hrx | ⟨a, hrx⟩ | ⟨-, hrx | ⟨a, hrx⟩⟩⟩ := undecrypted_cases hr
  · exact (h.setRx_early _ (by rw [hrx]; exact nofun) (by rw [hrx]; rfl)).aside _ _
  · simp only [tidy, hrx] at hok
    exact (h.setRx_released _ (by rw [hrx]; rfl) hok).aside _ _
  · exact (h.setRx_early _ (by rw [hrx]; exact nofun) (by rw [hrx]; rfl)).aside _ _
  · simp only [tidy, hrx] at hok
    exact (h.setRx_released _ (by rw [hrx]; rfl) hok).aside _ _

/-! ## `ClientProcess` -/

theorem served_tidyInv (h : TidyInv ar s) {k : SocketId} {a : AccountId}
    {answers : MyMatch.Answers} {packet : ByteQueue} (hrx : s.rx k = .waiting a)
    (hok : (brings s.mm.matchmaker a answers packet).all (agrees ar s) = true) :
    TidyInv ar (s.served ar k a answers packet) := by
  obtain ⟨hsessions, halive, haccepts⟩ := MyMatch.clientProcess_framed ar k a answers packet s.mm
  -- the handler goes on to `StartRecv` and keeps its account
  have h' : TidyInv ar (s.setRx k (.arming a)) := by
    refine h.setRx_keep (by rw [hrx]; exact nofun) ?_ ?_
    · rw [hrx]
      exact fun _ ha => ha
    · rw [hrx]
      exact fun _ ha => ha
  unfold served
  rcases clientProcess_cases ar k a answers packet s.mm with
    ⟨r, hpos, _, hb, hm⟩ | ⟨_, hb, hm⟩ | ⟨_, hb, hm⟩
  · rw [hb]
    rw [hb, Option.all_some] at hok
    have hop : Lobby.step ar ⟨s.mm.matchmaker, []⟩ (.enter a r.win r.draw r.loose answers.visited) =
      some _ := rfl
    have hbr : Lobby.brings ⟨s.mm.matchmaker, []⟩ (.enter a r.win r.draw r.loose answers.visited) =
      some _ := if_neg (not_le.mpr hpos)
    have hen := h'.enter (k := k) hop (fun e' he' => Option.some.inj (he'.symm.trans hbr)) rfl hok
      (by rw [setRx_rx_self]; rfl)
    exact (hen.framed ⟨hsessions, halive, haccepts⟩ hm).aside _ _
  · rw [hb]
    exact ((h'.exit a).framed ⟨hsessions, halive, haccepts⟩ hm).aside _ _
  · rw [hb]
    exact (h'.framed ⟨hsessions, halive, haccepts⟩ hm).aside _ _

theorem packet_tidyInv (h : TidyInv ar s) {k : SocketId} {answers : MyMatch.Answers}
    {packet : List Byte} (hok : tidy ar s (.packet k answers packet) = true)
    (hr : s.packet ar k answers packet = some t) : TidyInv ar t := by
  obtain ⟨a, hrx, rfl⟩ := packet_cases hr
  simp only [tidy, hrx] at hok
  exact served_tidyInv h hrx hok

theorem error_tidyInv (h : TidyInv ar s) {k : SocketId} (hr : s.error k = some t) :
    TidyInv ar t := by
  obtain ⟨a, hrx, rfl⟩ := error_cases hr
  refine h.setRx_keep (by rw [hrx]; exact nofun) ?_ ?_
  · rw [hrx]
    exact fun _ ha => ha
  · rw [hrx]
    exact fun _ ha => ha

theorem leaveQueue_tidyInv (h : TidyInv ar s) {k : SocketId} (hr : s.leaveQueue k = some t) :
    TidyInv ar t := by
  obtain ⟨a, hrx, rfl⟩ := leaveQueue_cases hr
  have h' := h.exit a
  refine h'.setRx (by rw [setMaker_rx, hrx]; exact nofun) ?_ ?_
  · intro a' cookie hs
    have hact := h.sessions a' cookie k hs
    rw [hrx] at hact
    exact hact
  · -- what the socket brought in had this account, and it is gone
    intro e he hent
    have hpen := h'.queue e he k hent
    rw [setMaker_rx, hrx] at hpen
    cases hpen
    exact absurd rfl (h.forall_ne_exit _ e he)

theorem findOwn_tidyInv (h : TidyInv ar s) {k : SocketId} (hr : s.findOwn k = some t) :
    TidyInv ar t := by
  obtain ⟨a, hrx, hcase⟩ := findOwn_cases hr
  have hk : s.rx k ≠ .none := by rw [hrx]; exact nofun
  have hq : ∀ e ∈ s.mm.matchmaker.waitQueue, s.entered e ≠ some k := by
    intro e he hent
    have hpen := h.queue e he k hent
    rw [hrx] at hpen
    cases hpen
  have hs : ∀ a' cookie, s.mm.sessions.findLKey a' = some (cookie, k) → a' = a := by
    intro a' cookie hs
    have hact := h.sessions a' cookie k hs
    rw [hrx] at hact
    cases hact
    rfl
  rcases hcase with ⟨cookie, k', hfind, rfl⟩ | ⟨hfind, rfl⟩
  · refine h.setRx hk ?_ fun e he hent => absurd hent (hq e he)
    intro a' cookie' hs'
    obtain rfl := hs a' cookie' hs'
    rw [hfind] at hs'
    cases hs'
    rw [if_pos rfl]
    rfl
  · refine h.setRx hk ?_ fun e he hent => absurd hent (hq e he)
    intro a' cookie' hs'
    obtain rfl := hs a' cookie' hs'
    rw [hfind] at hs'
    cases hs'

theorem eraseOwn_tidyInv (h : TidyInv ar s) {k : SocketId} (hr : s.eraseOwn k = some t) :
    TidyInv ar t := by
  obtain ⟨a, hrx, rfl⟩ := eraseOwn_cases hr
  refine (h.erase a).setRx (by rw [setSessions_rx, hrx]; exact nofun) ?_ ?_
  · intro a' cookie hs
    have hact := (h.erase a).sessions a' cookie k hs
    rw [setSessions_rx, hrx] at hact
    cases hact
    -- the entry of the account is the one erased
    simp [Server.setSessions, Table.findLKey_eraseLKey] at hs
  · intro e he hent
    have hpen := h.queue e he k hent
    rw [hrx] at hpen
    cases hpen

theorem finish_tidyInv (h : TidyInv ar s) {k : SocketId} (hr : s.finish k = some t) :
    TidyInv ar t := by
  obtain ⟨hrx, rfl⟩ := finish_cases hr
  exact (h.modify k _).setRx_early _ (by rw [setSockets_rx, hrx]; exact nofun)
    (by rw [setSockets_rx, hrx]; rfl)

theorem free_tidyInv (h : TidyInv ar s) {k : SocketId} (hok : tidy ar s (.free k) = true)
    (hr : s.free k = some t) : TidyInv ar t := by
  obtain ⟨c, -, hfree, rfl⟩ := free_cases hr
  refine ⟨h.sessions, h.queue, h.lobby, ?_, h.fresh, ?_, h.running⟩
  · intro j hj
    have hjk : j ≠ k := by
      rintro rfl
      exact hj hfree.2.1
    have := h.alive j hj
    simpa [Server.setSockets, hjk] using this
  · intro e j todo done hpc
    have hjk : j ≠ k := by
      simpa [tidy, show s.pc = .locking e j todo done from hpc] using hok
    have := h.locking e j todo done hpc
    simpa [Server.setSockets, hjk] using this

/-! ## `MatchMake` -/

theorem wait_tidyInv (h : TidyInv ar s) (hr : s.wait = some t) : TidyInv ar t := by
  obtain ⟨-, rfl⟩ := wait_cases hr
  exact h.setPc nofun nofun

theorem wake_tidyInv (h : TidyInv ar s) (hr : s.wake = some t) : TidyInv ar t := by
  obtain ⟨-, -, rfl⟩ := wake_cases hr
  exact h.setPc nofun nofun

theorem process_tidyInv (h : TidyInv ar s) (hr : s.process ar = some t) : TidyInv ar t := by
  obtain ⟨-, rfl⟩ := process_cases hr
  have hl := Lobby.step_inv _ .process _ h.lobby nofun rfl
  have hm := h.setMaker hl fun e he =>
    h.queue e ((MyMatchMaker.pairUp_sublist ar _ _).subset he)
  have hpc : TidyInv ar { s.setMaker (s.mm.matchmaker.process ar) with pc := .looping } :=
    hm.setPc nofun nofun
  exact hpc.aside _ _

theorem getMatch_tidyInv (h : TidyInv ar s) (hr : s.getMatch = some t) : TidyInv ar t := by
  obtain ⟨-, ⟨-, rfl⟩ | ⟨-, rfl⟩⟩ := getMatch_cases hr <;> exact h.setPc nofun nofun

/-- The socket of a session exists. -/
theorem TidyInv.isSome_of_session (h : TidyInv ar s) {accountId : AccountId} {cookie : Hash}
    {k : SocketId} (hs : s.mm.sessions.findLKey accountId = some (cookie, k)) :
    (s.mm.sockets k).isSome := by
  refine h.alive k fun hn => ?_
  have hact := h.sessions accountId cookie k hs
  rw [hn] at hact
  cases hact

theorem find_tidyInv (h : TidyInv ar s) (hr : s.find = some t) : TidyInv ar t := by
  obtain ⟨_, _, _, -, ⟨_, _, hs, rfl⟩ | ⟨-, rfl⟩⟩ := find_cases hr
  · refine h.setPc ?_ nofun
    intro e k todo done hpc
    cases hpc
    exact h.isSome_of_session hs
  · exact h.setPc nofun nofun

theorem lock_tidyInv (h : TidyInv ar s) (hr : s.lock = some t) : TidyInv ar t := by
  obtain ⟨_, _, _, _, hpc, ⟨-, rfl⟩ | ⟨hnone, -⟩⟩ := lock_cases hr
  · exact (h.modify _ _).setPc nofun nofun
  · exact absurd (h.locking _ _ _ _ hpc) hnone

theorem check_tidyInv (h : TidyInv ar s) {ok : Bool} (hr : s.check ok = some t) :
    TidyInv ar t := by
  obtain ⟨_, _, _, _, -, ⟨-, rfl⟩ | ⟨-, rfl⟩⟩ := check_cases hr
  · exact h.setPc nofun nofun
  · exact (h.modify _ _).setPc nofun nofun

theorem transfer_tidyInv (h : TidyInv ar s) {battleServer : Seed}
    (hr : s.transfer battleServer = some t) : TidyInv ar t := by
  obtain ⟨done, -, ⟨-, rfl⟩ | ⟨-, rfl⟩⟩ := transfer_cases hr
  · by_cases hb : battleServer ≤ 0
    · rw [if_pos hb]
      exact h.setPc nofun nofun
    · rw [if_neg hb]
      exact h.setPc nofun nofun
  · exact h.setPc nofun nofun

theorem tell_tidyInv (h : TidyInv ar s) (hr : s.tell = some t) : TidyInv ar t := by
  obtain ⟨_, _, _, _, -, rfl⟩ := tell_cases hr
  exact ((h.modify _ _).erase _).setPc nofun nofun

theorem part_tidyInv (h : TidyInv ar s) (hr : s.part = some t) : TidyInv ar t := by
  obtain ⟨_, _, _, -, rfl⟩ := part_cases hr
  exact (h.modify _ _).setPc nofun nofun

theorem giveBack_tidyInv (h : TidyInv ar s) {visited : List Nat}
    (hok : tidy ar s (.giveBack visited) = true) (hr : s.giveBack ar visited = some t) :
    TidyInv ar t := by
  rcases giveBack_cases hr with ⟨e, k, done, hpc, rfl⟩ | ⟨_, _, -, rfl⟩
  · simp only [tidy, hpc, Bool.and_eq_true, beq_iff_eq] at hok
    have hop : Lobby.step ar ⟨s.mm.matchmaker, [e]⟩ (.reenter e visited) = some _ :=
      if_pos List.mem_cons_self
    have hbr : ∀ e', Lobby.brings ⟨s.mm.matchmaker, [e]⟩ (.reenter e visited) = some e' →
        e' = e := by
      intro e' he'
      simp only [Lobby.brings] at he'
      split at he'
      · cases he'
      · cases he'
        rfl
    exact (h.enter hop hbr rfl hok.1 hok.2).setPc (by simp) (by simp)
  · exact (h.erase _).setPc (by simp) (by simp)

theorem popMatch_tidyInv (h : TidyInv ar s) (hr : s.popMatch = some t) : TidyInv ar t := by
  have hm := h.setMaker (Lobby.step_inv _ .popMatch _ h.lobby nofun rfl) h.queue
  obtain ⟨-, rfl⟩ := popMatch_cases hr
  exact hm.setPc nofun nofun

/-! ## Runs -/

theorem act_tidyInv (h : TidyInv ar s) {l : Label} (hok : tidy ar s l = true)
    (hr : s.act ar l = some t) : TidyInv ar t := by
  cases l with
  | accept =>
    cases hr
    exact accept_tidyInv h
  | authPacket k answers packet => exact authPacket_tidyInv h hr
  | authError k => exact authError_tidyInv h hr
  | findSession k => exact findSession_tidyInv h hr
  | testOrigin k => exact testOrigin_tidyInv h hr
  | closeOrigin k => exact closeOrigin_tidyInv h hr
  | updateSession k => exact updateSession_tidyInv h hr
  | insertSession k => exact insertSession_tidyInv h hr
  | inform k answers => exact inform_tidyInv h hok hr
  | arm k => exact arm_tidyInv h hok hr
  | fragment k => exact fragment_tidyInv h hr
  | undecrypted k => exact undecrypted_tidyInv h hok hr
  | packet k answers packet => exact packet_tidyInv h hok hr
  | error k => exact error_tidyInv h hr
  | leaveQueue k => exact leaveQueue_tidyInv h hr
  | findOwn k => exact findOwn_tidyInv h hr
  | eraseOwn k => exact eraseOwn_tidyInv h hr
  | finish k => exact finish_tidyInv h hr
  | close k =>
    cases hr
    exact h.modify k _
  | disconnect k =>
    cases hr
    exact h.modify k _
  | free k => exact free_tidyInv h hok hr
  | wait => exact wait_tidyInv h hr
  | wake => exact wake_tidyInv h hr
  | process => exact process_tidyInv h hr
  | getMatch => exact getMatch_tidyInv h hr
  | find => exact find_tidyInv h hr
  | lock => exact lock_tidyInv h hr
  | check ok => exact check_tidyInv h hr
  | transfer battleServer => exact transfer_tidyInv h hr
  | tell => exact tell_tidyInv h hr
  | part => exact part_tidyInv h hr
  | giveBack visited => exact giveBack_tidyInv h hok hr
  | popMatch => exact popMatch_tidyInv h hr

theorem step_act {l : Label} (hr : s.step ar l = some t) : s.act ar l = some t := by
  unfold step at hr
  split at hr
  · cases hr
  · exact hr

/-- **A socket that is closed and has no handler left behind is cleaned up**, in every
state of a run whose steps meet the condition, and `MatchMake` locks no expired
pointer. -/
theorem cleans_up (ar : Arith) (labels : List Label)
    (hok : Meets (step ar) (fun s l => tidy ar s l = true) start labels) {s : Server}
    (hr : run (step ar) start labels = some s) : s.Clean :=
  (run_invariant (I := TidyInv ar) (fun _ _ _ h hl hs => act_tidyInv h hl (step_act hs))
    (start_tidyInv ar) hok hr).clean

/-- A new socket logs in with a cookie that no session has. -/
def login (k : SocketId) : List Label :=
  [.accept, .arm k, .authPacket k MyMatch.plain (List.replicate 32 0), .findSession k,
    .insertSession k, .inform k MyMatch.plain, .arm k]

/-- The connection of a socket with a session goes down. -/
def hangUp (k : SocketId) : List Label :=
  [.disconnect k, .error k, .leaveQueue k, .findOwn k, .eraseOwn k, .finish k]

/-- A client asks for a match and goes away. -/
theorem cleans_up_hangUp :
    ∃ s, run (step Lobby.exact) start
        (login 0 ++ .packet 0 MyMatch.plain [reqStartmatch] :: .arm 0 :: hangUp 0) = some s ∧
      s.Finished 0 ∧ s.Clean := by
  have h : ∃ s, run (step Lobby.exact) start
      (login 0 ++ .packet 0 MyMatch.plain [reqStartmatch] :: .arm 0 :: hangUp 0) = some s ∧
      s.Finished 0 := exists_run_of_any (by decide +kernel)
  obtain ⟨s, hr, hf⟩ := h
  exact ⟨s, hr, hf, cleans_up Lobby.exact _ (by decide +kernel) hr⟩

/-- The answers of a server without a database connection. -/
def unconnected : MyMatch.Answers := { MyMatch.plain with connection := false }

/-- `REQ_STARTMATCH` without a database connection: the socket is closed, `StartRecv`
registers nothing, and the session stays. -/
theorem not_clean_unconnected :
    ∃ s, run (step Lobby.exact) start
        (login 0 ++ [.packet 0 unconnected [reqStartmatch], .arm 0]) = some s ∧ ¬ s.Clean := by
  have h : ∃ s, run (step Lobby.exact) start
      (login 0 ++ [.packet 0 unconnected [reqStartmatch], .arm 0]) = some s ∧ s.Finished 0 ∧
      (s.mm.sessions.findLKey 1).map (·.2) = some 0 := exists_run_of_any (by decide +kernel)
  obtain ⟨s, hr, hf, hs⟩ := h
  obtain ⟨⟨cookie, k⟩, hfind, rfl⟩ := Option.map_eq_some_iff.mp hs
  exact ⟨s, hr, fun hc => hc.sessions _ hf 1 cookie hfind⟩

end Server
end DrgbServer.Match
