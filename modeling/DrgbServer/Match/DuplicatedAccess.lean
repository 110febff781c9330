import DrgbServer.Match.Cleanup

/-! # Requests for a match under duplicated access

`Exit` takes an account off the queue, whichever of its sockets calls for it: the error
branch and `REQ_PAUSEMATCH` of a socket that has been superseded, and a login that
supersedes one. `request_kept` says that a socket with a session loses its request for
a match in no other way: it waits as long as every `Exit` of its account is for the
socket that is registered. -/
namespace DrgbServer.Match
open DrgbServer.Utils DrgbServer.Network DrgbServer.Lib DrgbServer.Lib.Procedure
open DrgbServer.Lib.Transition

/-- The socket is authenticated at most in part and has no session yet. -/
def Rx.early : Rx → Bool
  | .authArming | .authWaiting | .entering _ _ | .found _ _ | .superseding _ _ | .updating _
  | .inserting _ _ => true
  | .none | .informing _ | .arming _ | .waiting _ | .failed _ | .leaving _ | .erasing _
  | .closing => false

theorem Rx.early_of_active {r : Rx} {accountId : AccountId} (h : r.active = some accountId) :
    r.early = false := by
  cases r <;> first | rfl | cases h

/-- The receive of the socket has failed and its error branch runs. -/
def Rx.ended : Rx → Bool
  | .failed _ | .leaving _ | .erasing _ | .closing => true
  | .none | .authArming | .authWaiting | .entering _ _ | .found _ _ | .superseding _ _
  | .updating _ | .inserting _ _ | .informing _ | .arming _ | .waiting _ => false

theorem Rx.early_of_ended {r : Rx} (h : r.ended = true) : r.early = false := by
  cases r <;> first | rfl | cases h

/-- The handler is about to close `k`. -/
def Rx.supersedes (k : SocketId) : Rx → Bool
  | .superseding _ origin => origin == k
  | _ => false

namespace Server
variable {ar : Arith} {s t : Server}

/-- The socket is closed or its closing has begun: by its peer, by its own error branch
or by a login that supersedes it. -/
def closing (s : Server) (k : SocketId) : Bool :=
  !s.mm.sockets.accepts k || (s.rx k).ended ||
    (List.range s.next).any fun j => (s.rx j).supersedes k

theorem closing_eq_true {k : SocketId} : s.closing k = true ↔ s.mm.sockets.accepts k = false ∨
    (s.rx k).ended = true ∨ ∃ j < s.next, (s.rx j).supersedes k = true := by
  simp [closing, or_assoc]

/-- **No request is lost**: an account whose registered socket has asked for a match and
neither withdrawn its request, nor begun to close, nor been matched, waits. -/
def RequestKept (s : Server) : Prop :=
  ∀ accountId cookie k, s.mm.sessions.findLKey accountId = some (cookie, k) →
    (s.wants k).isSome → s.closing k = false →
      ∃ e ∈ s.mm.matchmaker.waitQueue, e.id = accountId

/-- An `Exit` of the account for `k` meets no request of another socket. -/
def undisturbed (s : Server) (accountId : AccountId) (k : SocketId) : Bool :=
  (s.mm.sessions.findLKey accountId).all fun p =>
    p.2 == k || (s.wants p.2).isNone || s.closing p.2

/-- The condition on a packet of the account. -/
def considered (s : Server) (k : SocketId) (accountId : AccountId) (answers : MyMatch.Answers)
    (packet : ByteQueue) : Bool :=
  if MyMatch.headerOf packet = some reqPausematch then s.undisturbed accountId k
  -- the account is a valid one, and what its record fails with closes the socket
  else if MyMatch.headerOf packet = some reqStartmatch then
    decide (0 < accountId) && (!answers.connection ||
      match answers.info with
      | .ok _ => true
      | .error e => e.isPqxx)
  else true

/-- The condition on a step. -/
def considerate (s : Server) : Label → Bool
  | .testOrigin k => match s.rx k with
    | .found accountId origin =>
      (s.mm.sockets origin).isNone || s.undisturbed accountId origin
    | _ => true
  | .leaveQueue k => match s.rx k with
    | .failed accountId => s.undisturbed accountId k
    | _ => true
  | .packet k answers packet => match s.rx k with
    | .waiting accountId => s.considered k accountId answers (ByteQueue.ofVector packet)
    | _ => true
  | _ => true

/-- The run invariant. -/
structure KeptInv (s : Server) : Prop where
  kept : s.RequestKept
  /-- a socket without a session is registered nowhere and has asked for nothing -/
  early : ∀ k, (s.rx k).early = true ∨ s.next ≤ k →
    s.wants k = none ∧ ∀ accountId cookie, s.mm.sessions.findLKey accountId ≠ some (cookie, k)
  /-- a socket is registered for the account it serves -/
  serves : ∀ accountId cookie k, s.mm.sessions.findLKey accountId = some (cookie, k) →
    ∀ a, (s.rx k).active = some a → a = accountId
  /-- a socket is registered for the account it has asked for -/
  asks : ∀ accountId cookie k, s.mm.sessions.findLKey accountId = some (cookie, k) →
    ∀ a, s.wants k = some a → a = accountId
  fresh : ∀ k, s.next ≤ k → s.rx k = .none

theorem start_keptInv : KeptInv start where
  kept := by
    intro accountId cookie k h
    simp [start] at h
  early := by
    intro k _
    refine ⟨rfl, fun accountId cookie h => ?_⟩
    simp [start] at h
  serves := by
    intro accountId cookie k h
    simp [start] at h
  asks := by
    intro accountId cookie k h
    simp [start] at h
  fresh := by
    intro k _
    rfl

/-! ## Steps that neither register a socket nor add a request -/

/-- What such a step does. -/
structure Onward (s t : Server) : Prop where
  next : s.next ≤ t.next
  sessions : ∀ accountId cookie k, t.mm.sessions.findLKey accountId = some (cookie, k) →
    s.mm.sessions.findLKey accountId = some (cookie, k)
  wants : ∀ k a, t.wants k = some a → s.wants k = some a
  active : ∀ k a, (t.rx k).active = some a → (s.rx k).active = some a
  early : ∀ k, (t.rx k).early = true → (s.rx k).early = true ∨ s.next ≤ k
  fresh : ∀ k, t.next ≤ k → t.rx k = .none
  closing : ∀ k < s.next, s.closing k = true → t.closing k = true

/-- It keeps the invariant if it takes no account off the queue that a request stands
for. -/
theorem KeptInv.onward (h : KeptInv s) (ho : Onward s t)
    (hq : ∀ accountId cookie k, t.mm.sessions.findLKey accountId = some (cookie, k) →
      (t.wants k).isSome → t.closing k = false →
      (∃ e ∈ s.mm.matchmaker.waitQueue, e.id = accountId) →
        ∃ e ∈ t.mm.matchmaker.waitQueue, e.id = accountId) : KeptInv t where
  kept := by
    intro accountId cookie k hs hw hc
    have hs' := ho.sessions accountId cookie k hs
    have hw' : (s.wants k).isSome := by
      obtain ⟨a, ha⟩ := Option.isSome_iff_exists.mp hw
      rw [ho.wants k a ha]
      rfl
    -- a registered socket has been accepted
    have hk : k < s.next := by
      by_contra hk
      exact (h.early k (.inr (not_lt.mp hk))).2 accountId cookie hs'
    have hc' : s.closing k = false := by
      by_contra hc'
      rw [ho.closing k hk (Bool.not_eq_false _ ▸ hc')] at hc
      cases hc
    exact hq accountId cookie k hs hw hc (h.kept accountId cookie k hs' hw' hc')
  early := by
    intro k hk
    have hk' : (s.rx k).early = true ∨ s.next ≤ k := by
      rcases hk with hk | hk
      · exact ho.early k hk
      · exact .inr (ho.next.trans hk)
    obtain ⟨hw, hs⟩ := h.early k hk'
    refine ⟨?_, fun accountId cookie h' => hs accountId cookie (ho.sessions _ _ _ h')⟩
    rw [Option.eq_none_iff_forall_ne_some] at hw ⊢
    exact fun a ha => hw a (ho.wants k a ha)
  serves := by
    intro accountId cookie k hs a ha
    exact h.serves accountId cookie k (ho.sessions _ _ _ hs) a (ho.active k a ha)
  asks := by
    intro accountId cookie k hs a ha
    exact h.asks accountId cookie k (ho.sessions _ _ _ hs) a (ho.wants k a ha)
  fresh := ho.fresh

theorem KeptInv.onward_queue (h : KeptInv s) (ho : Onward s t)
    (hq : ∀ e ∈ s.mm.matchmaker.waitQueue, e ∈ t.mm.matchmaker.waitQueue) : KeptInv t := by
  refine h.onward ho ?_
  rintro accountId cookie k _ _ _ ⟨e, he, hid⟩
  exact ⟨e, hq e he, hid⟩

theorem onward_refl (h : KeptInv s) : Onward s s where
  next := le_refl _
  sessions := fun _ _ _ hs => hs
  wants := fun _ _ hw => hw
  active := fun _ _ ha => ha
  early := fun _ he => .inl he
  fresh := h.fresh
  closing := fun _ _ hc => hc

/-- A socket that closes still does when a handler goes on. -/
theorem closing_setRx {k j : SocketId} {r : Rx}
    (hend : (s.rx k).ended = true → r.ended = true ∨ s.mm.sockets.accepts k = false)
    (hsup : (s.rx k).supersedes j = true →
      r.supersedes j = true ∨ s.mm.sockets.accepts j = false)
    (hj : s.closing j = true) : (s.setRx k r).closing j = true := by
  rw [closing_eq_true] at hj ⊢
  rcases hj with hacc | hended | ⟨i, hi, hsupers⟩
  · exact .inl hacc
  · by_cases hjk : j = k
    · subst hjk
      rcases hend hended with hended | hacc
      · exact .inr (.inl ((setRx_rx_self s j r).symm ▸ hended))
      · exact .inl hacc
    · exact .inr (.inl ((setRx_rx_other s r hjk).symm ▸ hended))
  · by_cases hik : i = k
    · subst hik
      rcases hsup hsupers with hsupers | hacc
      · exact .inr (.inr ⟨i, hi, (setRx_rx_self s i r).symm ▸ hsupers⟩)
      · exact .inl hacc
    · exact .inr (.inr ⟨i, hi, (setRx_rx_other s r hik).symm ▸ hsupers⟩)

/-- A handler goes on. -/
theorem KeptInv.setRx (h : KeptInv s) {k : SocketId} {r : Rx} (hk : s.rx k ≠ .none)
    (ha : ∀ a, r.active = some a → (s.rx k).active = some a)
    (he : r.early = true → (s.rx k).early = true)
    (hend : (s.rx k).ended = true → r.ended = true ∨ s.mm.sockets.accepts k = false)
    (hsup : ∀ j, (s.rx k).supersedes j = true →
      r.supersedes j = true ∨ s.mm.sockets.accepts j = false) : KeptInv (s.setRx k r) := by
  refine h.onward_queue { onward_refl h with active := ?_, early := ?_, fresh := ?_, closing := ?_ }
    fun _ he => he
  · intro j a hj
    by_cases hjk : j = k
    · subst hjk
      rw [setRx_rx_self] at hj
      exact ha a hj
    · rwa [setRx_rx_other s r hjk] at hj
  · intro j hj
    by_cases hjk : j = k
    · subst hjk
      rw [setRx_rx_self] at hj
      exact .inl (he hj)
    · rw [setRx_rx_other s r hjk] at hj
      exact .inl hj
  · intro j hj
    have hjk : j ≠ k := by
      rintro rfl
      exact hk (h.fresh j hj)
    rw [setRx_rx_other s r hjk]
    exact h.fresh j hj
  · intro j _ hj
    exact closing_setRx hend (hsup j) hj

/-- A handler goes on that closes nothing. -/
theorem KeptInv.setRx_quiet (h : KeptInv s) {k : SocketId} {q r : Rx} (hq : s.rx k = q)
    (hk : q ≠ .none) (ha : ∀ a, r.active = some a → q.active = some a)
    (he : r.early = true → q.early = true) (hend : q.ended = false)
    (hsup : ∀ j, q.supersedes j = false) : KeptInv (s.setRx k r) := by
  subst hq
  refine h.setRx hk ha he ?_ ?_
  · rw [hend]
    exact nofun
  · intro j hj
    rw [hsup j] at hj
    cases hj

/-- Sockets change, but none opens. -/
theorem KeptInv.setSockets (h : KeptInv s) {ss : Sockets}
    (hs : ∀ k, ss.accepts k = true → s.mm.sockets.accepts k = true) :
    KeptInv (s.setSockets ss) := by
  refine h.onward_queue { onward_refl h with closing := ?_ } fun _ he => he
  intro k _ hk
  rw [closing_eq_true] at hk ⊢
  rcases hk with hacc | hrest
  · refine .inl ?_
    by_contra hacc'
    rw [hs k (Bool.not_eq_false _ ▸ hacc')] at hacc
    cases hacc
  · exact .inr hrest

theorem KeptInv.modify (h : KeptInv s) (k : SocketId) {f : Socket → Socket}
    (hf : ∀ c, (f c).accepts = true → c.accepts = true) :
    KeptInv (s.setSockets (s.mm.sockets.modify k f)) :=
  h.setSockets fun _ hj => Sockets.accepts_of_modify hf hj

theorem KeptInv.shut (h : KeptInv s) (k : SocketId) : KeptInv (s.shut k) :=
  h.modify k fun c hc => by simp [Socket.accepts, Socket.close] at hc

theorem KeptInv.send (h : KeptInv s) (k : SocketId) (q : ByteQueue) :
    KeptInv (s.setSockets (s.mm.sockets.modify k (·.send q))) :=
  h.modify k fun c hc => (c.accepts_send q).symm.trans hc

theorem KeptInv.erase (h : KeptInv s) (accountId : AccountId) :
    KeptInv (s.setSessions (s.mm.sessions.eraseLKey accountId).2) := by
  refine h.onward_queue { onward_refl h with sessions := ?_ } fun _ he => he
  intro a cookie k hs
  have hs' : (s.mm.sessions.eraseLKey accountId).2.findLKey a = some (cookie, k) := hs
  rw [Table.findLKey_eraseLKey] at hs'
  split at hs'
  · cases hs'
  · exact hs'

/-- `Exit` of an account without a request that stands. -/
theorem KeptInv.exit (h : KeptInv s) (accountId : AccountId)
    (hno : ∀ cookie k, s.mm.sessions.findLKey accountId = some (cookie, k) →
      (s.wants k).isSome → s.closing k = true) :
    KeptInv (s.setMaker (s.mm.matchmaker.exit accountId)) := by
  refine h.onward { onward_refl h with } ?_
  rintro a cookie k hs hw hc ⟨e, he, rfl⟩
  by_cases ha : e.id = accountId
  · rw [ha] at hs
    have hc' : s.closing k = false := hc
    rw [hno cookie k hs hw] at hc'
    cases hc'
  · refine ⟨e, (List.mem_eraseP_of_neg ?_).mpr he, rfl⟩
    simpa using ha

theorem KeptInv.enter (h : KeptInv s) {mm : MyMatchMaker}
    (hq : ∀ e ∈ s.mm.matchmaker.waitQueue, e ∈ mm.waitQueue) : KeptInv (s.setMaker mm) :=
  h.onward_queue { onward_refl h with } hq

theorem KeptInv.framed (h : KeptInv s) {mm : MyMatch} (hf : MyMatch.Framed s.mm mm)
    (hm : mm.matchmaker = s.mm.matchmaker) : KeptInv { s with mm := mm } := by
  have hs := h.setSockets hf.accepts
  refine ⟨?_, ?_, ?_, ?_, h.fresh⟩
  · have hk := hs.kept
    unfold RequestKept at hk ⊢
    rw [hf.sessions, hm]
    exact hk
  · rw [hf.sessions]
    exact h.early
  · rw [hf.sessions]
    exact h.serves
  · rw [hf.sessions]
    exact h.asks

/-- What the other thread and the record beside it do. -/
theorem KeptInv.aside (h : KeptInv s) (pc : MakerPc) (terminated : Bool)
    (entered : QueueElement → Option SocketId) :
    KeptInv { s with pc := pc, terminated := terminated, entered := entered } :=
  ⟨h.kept, h.early, h.serves, h.asks, h.fresh⟩

/-! ## `AuthenticateProcess` -/

theorem accept_keptInv (h : KeptInv s) : KeptInv s.accept := by
  have hother : ∀ k, k ≠ s.next → s.accept.rx k = s.rx k :=
    fun k hk => Function.update_of_ne hk _ _
  refine h.onward_queue ⟨Nat.le_succ _, fun _ _ _ hs => hs, fun _ _ hw => hw, ?_, ?_, ?_, ?_⟩
    fun _ he => he
  · intro k a ha
    by_cases hk : k = s.next
    · subst hk
      rw [show s.accept.rx s.next = .authArming from Function.update_self _ _ _] at ha
      cases ha
    · rwa [hother k hk] at ha
  · intro k he
    by_cases hk : k = s.next
    · exact .inr hk.ge
    · exact .inl (hother k hk ▸ he)
  · intro k hk
    have hlt : s.next < k := hk
    rw [hother k hlt.ne']
    exact h.fresh k hlt.le
  · intro k hk hc
    rw [closing_eq_true] at hc ⊢
    rcases hc with hacc | hended | ⟨j, hj, hsup⟩
    · refine .inl ?_
      simpa [accept, Server.setSockets, Sockets.accepts, hk.ne] using hacc
    · exact .inr (.inl (hother k hk.ne ▸ hended))
    · exact .inr (.inr ⟨j, hj.trans (Nat.lt_succ_self _), hother j hj.ne ▸ hsup⟩)

theorem identified_keptInv (h : KeptInv s) {k : SocketId} (hrx : s.rx k = .authWaiting)
    (found : Except Exn (Option (AccountId × Hash))) : KeptInv (s.identified k found) := by
  unfold identified
  split
  · have h' : KeptInv (s.setRx k .none) :=
      h.setRx_quiet hrx nofun nofun (fun _ => rfl) rfl fun _ => rfl
    exact h'.aside _ _ _
  · have hf := MyMatch.refuse_framed k s.mm
    exact (h.framed hf.1 hf.2).setRx_quiet hrx nofun nofun (fun _ => rfl) rfl fun _ => rfl
  · exact h.setRx_quiet hrx nofun nofun (fun _ => rfl) rfl fun _ => rfl

theorem authPacket_keptInv (h : KeptInv s) {k : SocketId} {answers : MyMatch.Answers}
    {packet : List Byte} (hr : s.authPacket k answers packet = some t) : KeptInv t := by
  obtain ⟨hrx, rfl⟩ := authPacket_cases hr
  exact identified_keptInv h hrx _

theorem authError_keptInv (h : KeptInv s) {k : SocketId} (hr : s.authError k = some t) :
    KeptInv t := by
  obtain ⟨hrx, rfl⟩ := authError_cases hr
  exact (h.shut k).setRx_quiet hrx nofun nofun (fun _ => rfl) rfl fun _ => rfl

theorem findSession_keptInv (h : KeptInv s) {k : SocketId} (hr : s.findSession k = some t) :
    KeptInv t := by
  obtain ⟨_, _, hrx, ⟨_, _, -, rfl⟩ | ⟨-, rfl⟩⟩ := findSession_cases hr
  · exact h.setRx_quiet hrx nofun nofun (fun _ => rfl) rfl fun _ => rfl
  · exact h.setRx_quiet hrx nofun nofun (fun _ => rfl) rfl fun _ => rfl

/-- A handler that runs belongs to a socket that has been accepted. -/
theorem KeptInv.lt_next (h : KeptInv s) {k : SocketId} (hk : s.rx k ≠ .none) : k < s.next := by
  by_contra hlt
  exact hk (h.fresh k (not_lt.mp hlt))

theorem undisturbed_iff {accountId : AccountId} {k : SocketId} :
    s.undisturbed accountId k = true ↔ ∀ cookie j,
      s.mm.sessions.findLKey accountId = some (cookie, j) →
        j = k ∨ s.wants j = none ∨ s.closing j = true := by
  unfold undisturbed
  cases s.mm.sessions.findLKey accountId with
  | none => simp
  | some p => simp [or_assoc, Prod.ext_iff]

theorem testOrigin_keptInv (h : KeptInv s) {k : SocketId}
    (hok : s.considerate (.testOrigin k) = true) (hr : s.testOrigin k = some t) : KeptInv t := by
  obtain ⟨a, origin, hrx, hcase⟩ := testOrigin_cases hr
  have hk : k < s.next := h.lt_next (by rw [hrx]; exact nofun)
  simp only [considerate, hrx, Bool.or_eq_true] at hok
  rcases hcase with ⟨halive, rfl⟩ | ⟨-, rfl⟩
  · have hun : s.undisturbed a origin = true := by
      refine hok.resolve_left fun hnone => ?_
      rw [Option.isNone_iff_eq_none.mp hnone] at halive
      cases halive
    have h' : KeptInv (s.setRx k (.superseding a origin)) :=
      h.setRx_quiet hrx nofun nofun (fun _ => rfl) rfl fun _ => rfl
    refine h'.exit a ?_
    intro cookie j hs hw
    rcases undisturbed_iff.mp hun cookie j hs with rfl | hnone | hclosing
    · -- the handler that calls for `Exit` is about to close the socket
      refine closing_eq_true.mpr (.inr (.inr ⟨k, hk, ?_⟩))
      rw [setRx_rx_self]
      exact beq_self_eq_true j
    · rw [setRx_wants, hnone] at hw
      cases hw
    · refine closing_setRx ?_ ?_ hclosing
      · rw [hrx]
        exact nofun
      · rw [hrx]
        exact nofun
  · exact h.setRx_quiet hrx nofun nofun (fun _ => rfl) rfl fun _ => rfl

theorem closeOrigin_keptInv (h : KeptInv s) {k : SocketId} (hr : s.closeOrigin k = some t) :
    KeptInv t := by
  obtain ⟨a, origin, hrx, rfl⟩ := closeOrigin_cases hr
  have h' := (h.send origin (code errDuplicatedAccess)).shut origin
  have hacc : ((s.mm.sockets.modify origin (·.send (code errDuplicatedAccess))).modify origin
    (·.close)).accepts origin = false := Sockets.not_accepts_close _ origin
  refine h'.setRx (by rw [shut_rx, setSockets_rx, hrx]; exact nofun) nofun ?_ ?_ ?_
  · intro _
    rw [shut_rx, setSockets_rx, hrx]
    rfl
  · rw [shut_rx, setSockets_rx, hrx]
    exact nofun
  · intro j hj
    rw [shut_rx, setSockets_rx, hrx] at hj
    obtain rfl := beq_iff_eq.mp hj
    exact .inr hacc

/-- A socket gets its session. -/
theorem KeptInv.register (h : KeptInv s) {k : SocketId} {a : AccountId}
    {sessions : Table AccountId Hash SocketId} (he : (s.rx k).early = true)
    (hsup : ∀ j, (s.rx k).supersedes j = false)
    (hs : ∀ a' cookie j, sessions.findLKey a' = some (cookie, j) →
      (a' = a ∧ j = k) ∨ s.mm.sessions.findLKey a' = some (cookie, j)) :
    KeptInv ((s.setSessions sessions).setRx k (.informing a)) := by
  obtain ⟨hw, hreg⟩ := h.early k (.inl he)
  have hk : k < s.next := h.lt_next fun hn => by rw [hn] at he; cases he
  have hend : (s.rx k).ended = false := by
    cases hrx : s.rx k <;> first | rfl | (rw [hrx] at he; cases he)
  refine ⟨?_, ?_, ?_, ?_, ?_⟩
  · intro a' cookie j hs' hw' hc
    rcases hs a' cookie j hs' with ⟨_, rfl⟩ | hold
    · -- it has asked for nothing yet
      rw [setRx_wants, show (s.setSessions sessions).wants = s.wants from rfl, hw] at hw'
      cases hw'
    · refine h.kept a' cookie j hold hw' ?_
      by_contra hc'
      have hmono : ((s.setSessions sessions).setRx k (.informing a)).closing j = true := by
        refine closing_setRx (s := s.setSessions sessions) ?_ ?_ (Bool.not_eq_false _ ▸ hc')
        · rw [setSessions_rx, hend]
          exact nofun
        · rw [setSessions_rx, hsup j]
          exact nofun
      rw [hmono] at hc
      cases hc
  · intro j hj
    have hjk : j ≠ k := by
      rintro rfl
      rcases hj with hj | hj
      · rw [setRx_rx_self] at hj
        cases hj
      · exact absurd hk (not_lt.mpr hj)
    rw [setRx_rx_other _ _ hjk] at hj
    obtain ⟨hwj, hregj⟩ := h.early j hj
    refine ⟨hwj, fun a' cookie hs' => ?_⟩
    rcases hs a' cookie j hs' with ⟨_, hjk'⟩ | hold
    · exact hjk hjk'
    · exact hregj a' cookie hold
  · intro a' cookie j hs' b hb
    rcases hs a' cookie j hs' with ⟨rfl, rfl⟩ | hold
    · rw [setRx_rx_self] at hb
      cases hb
      rfl
    · have hjk : j ≠ k := by
        rintro rfl
        exact hreg a' cookie hold
      rw [setRx_rx_other _ _ hjk] at hb
      exact h.serves a' cookie j hold b hb
  · intro a' cookie j hs' b hb
    rcases hs a' cookie j hs' with ⟨_, rfl⟩ | hold
    · rw [setRx_wants, show (s.setSessions sessions).wants = s.wants from rfl, hw] at hb
      cases hb
    · exact h.asks a' cookie j hold b hb
  · intro j hj
    have hjk : j ≠ k := by
      rintro rfl
      exact absurd hk (not_lt.mpr hj)
    rw [setRx_rx_other _ _ hjk]
    exact h.fresh j hj

theorem updateSession_keptInv (h : KeptInv s) {k : SocketId} (hr : s.updateSession k = some t) :
    KeptInv t := by
  obtain ⟨a, hrx, rfl⟩ := updateSession_cases hr
  refine h.register (by rw [hrx]; rfl) (by rw [hrx]; exact fun _ => rfl) ?_
  intro a' cookie j hs
  rw [Table.findLKey_insertLKeyValue] at hs
  split at hs
  · rename_i ha
    obtain ⟨_, _, heq⟩ := Option.map_eq_some_iff.mp hs
    cases heq
    exact .inl ⟨ha, rfl⟩
  · exact .inr hs

theorem insertSession_keptInv (h : KeptInv s) {k : SocketId} (hr : s.insertSession k = some t) :
    KeptInv t := by
  obtain ⟨a, cookie, hrx, rfl⟩ := insertSession_cases hr
  refine h.register (by rw [hrx]; rfl) (by rw [hrx]; exact fun _ => rfl) ?_
  intro a' cookie' j hs
  rcases Table.findLKey_of_insert hs with ⟨ha, _, hj⟩ | hs
  · exact .inl ⟨ha, hj⟩
  · exact .inr hs

theorem inform_keptInv (h : KeptInv s) {k : SocketId} {answers : MyMatch.Answers}
    (hr : s.inform k answers = some t) : KeptInv t := by
  obtain ⟨a, hrx, hcase⟩ := inform_cases hr
  obtain ⟨hf, hm⟩ := MyMatch.inform_framed k answers s.mm
  rcases hcase with ⟨_, u, he, rfl⟩ | ⟨stop, u, he, rfl⟩
  · rw [he] at hf hm
    exact ((h.framed hf hm).modify k fun c hc => (c.accepts_fillTTL _).symm.trans hc).setRx_quiet
      hrx nofun (fun _ ha => ha) nofun rfl fun _ => rfl
  · rw [he] at hf hm
    have h' : KeptInv ({ s with mm := u }.setRx k .none) :=
      (h.framed hf hm).setRx_quiet hrx nofun nofun nofun rfl fun _ => rfl
    exact h'.aside _ _ _

theorem arm_keptInv (h : KeptInv s) {k : SocketId} (hr : s.arm k = some t) : KeptInv t := by
  rcases arm_cases hr with ⟨hrx, rfl⟩ | ⟨a, hrx, rfl⟩
  · split
    · exact h.setRx_quiet hrx nofun nofun (fun _ => rfl) rfl fun _ => rfl
    · exact h.setRx_quiet hrx nofun nofun nofun rfl fun _ => rfl
  · split
    · exact h.setRx_quiet hrx nofun (fun _ ha => ha) nofun rfl fun _ => rfl
    · exact h.setRx_quiet hrx nofun nofun nofun rfl fun _ => rfl

theorem fragment_keptInv (h : KeptInv s) {k : SocketId} (hr : s.fragment k = some t) :
    KeptInv t := by
  rcases fragment_cases hr with ⟨hrx, rfl⟩ | ⟨a, hrx, rfl⟩
  · exact h.setRx_quiet hrx nofun nofun (fun _ => rfl) rfl fun _ => rfl
  · exact h.setRx_quiet hrx nofun (fun _ ha => ha) nofun rfl fun _ => rfl

theorem undecrypted_keptInv (h : KeptInv s) {k : SocketId} (hr : s.undecrypted k = some t) :
    KeptInv t := by
  have hquiet : ∀ q, s.rx k = q → q ≠ .none → q.ended = false →
      (∀ j, q.supersedes j = false) → KeptInv (s.setRx k .none) :=
    fun q hrx hk hend hsup => h.setRx_quiet hrx hk nofun nofun hend hsup
  obtain ⟨rfl, hrx | ⟨a, hrx⟩ | ⟨-, hrx | ⟨a, hrx⟩⟩⟩ := undecrypted_cases hr
  all_goals exact (hquiet _ hrx nofun rfl fun _ => rfl).aside _ _ _

/-! ## `ClientProcess` -/

/-- A socket asks for a match: it waits, or it closes. -/
theorem KeptInv.ask (h : KeptInv s) {k : SocketId} {a : AccountId}
    (ha : (s.rx k).active = some a)
    (hq : s.closing k = true ∨ ∃ e ∈ s.mm.matchmaker.waitQueue, e.id = a) :
    KeptInv { s with wants := Function.update s.wants k (some a) } := by
  have hk : k < s.next := h.lt_next fun hn => by rw [hn] at ha; cases ha
  refine ⟨?_, ?_, h.serves, ?_, h.fresh⟩
  · intro a' cookie j hs hw hc
    have hc' : s.closing j = false := hc
    by_cases hjk : j = k
    · subst hjk
      obtain rfl := h.serves a' cookie j hs a ha
      rw [hc'] at hq
      exact hq.resolve_left nofun
    · simp only [Function.update_of_ne hjk] at hw
      exact h.kept a' cookie j hs hw hc'
  · intro j hj
    have hjk : j ≠ k := by
      rintro rfl
      rcases hj with hj | hj
      · have hearly : (s.rx j).early = true := hj
        rw [Rx.early_of_active ha] at hearly
        cases hearly
      · exact absurd hk (not_lt.mpr hj)
    simp only [Function.update_of_ne hjk]
    exact h.early j hj
  · intro a' cookie j hs b hb
    by_cases hjk : j = k
    · subst hjk
      simp only [Function.update_self] at hb
      cases hb
      exact h.serves a' cookie j hs a ha
    · simp only [Function.update_of_ne hjk] at hb
      exact h.asks a' cookie j hs b hb

/-- A socket withdraws its request. -/
theorem KeptInv.withdraw (h : KeptInv s) (k : SocketId) :
    KeptInv { s with wants := Function.update s.wants k none } := by
  refine h.onward_queue { onward_refl h with wants := ?_ } fun _ he => he
  intro j a hj
  by_cases hjk : j = k
  · subst hjk
    simp at hj
  · simpa [hjk] using hj

section Packets
variable {k : SocketId} {a : AccountId} {answers : MyMatch.Answers} {packet : ByteQueue}

theorem arming_keptInv (h : KeptInv s) (hrx : s.rx k = .waiting a) :
    KeptInv (s.setRx k (.arming a)) :=
  h.setRx_quiet hrx nofun (fun _ ha => ha) nofun rfl fun _ => rfl

theorem arming_active : ((s.setRx k (.arming a)).rx k).active = some a := by
  rw [setRx_rx_self]
  rfl

theorem served_pause_keptInv (h : KeptInv s) (hrx : s.rx k = .waiting a)
    (hpause : MyMatch.headerOf packet = some reqPausematch) (hok : s.undisturbed a k = true) :
    KeptInv (s.served ar k a answers packet) := by
  have hwish : wish a packet (s.wants k) = none := by
    rw [wish, hpause, if_neg (by decide), if_pos rfl]
  rw [served, MyMatch.exec_clientProcess_pause ar hpause, hwish]
  have hexit := ((arming_keptInv h hrx).withdraw k).exit a ?_
  · exact hexit.aside _ _ _
  intro cookie j hs hw
  rcases undisturbed_iff.mp hok cookie j hs with rfl | hnone | hclosing
  · simp at hw
  · by_cases hjk : j = k
    · simp [hjk] at hw
    · simp [hjk, hnone] at hw
  · refine closing_setRx ?_ ?_ hclosing
    · rw [hrx]
      exact nofun
    · rw [hrx]
      exact nofun

/-- A request that does not reach the queue closes the socket. -/
theorem served_start_failed_keptInv (h : KeptInv s) (hrx : s.rx k = .waiting a)
    (hstart : MyMatch.headerOf packet = some reqStartmatch) {e : Exn}
    (hf : (answers.connection = false ∧ e = .brokenConnection) ∨
      (answers.connection = true ∧ answers.info = .error e)) (he : e.isPqxx = true) :
    KeptInv (s.served ar k a answers packet) := by
  have hwish : wish a packet (s.wants k) = some a := if_pos hstart
  obtain ⟨hsessions, halive, haccepts⟩ := MyMatch.clientProcess_framed ar k a answers packet s.mm
  rw [served, hwish]
  rw [MyMatch.exec_clientProcess_start_failed ar hstart hf] at hsessions halive haccepts ⊢
  have hm : (exec (MyMatch.failed k e) s.mm).2.matchmaker = s.mm.matchmaker := by
    rw [MyMatch.failed, if_pos he]
    rfl
  have hframed := (arming_keptInv h hrx).framed ⟨hsessions, halive, haccepts⟩ hm
  have hask := hframed.ask (k := k) (a := a) arming_active
    (.inl (closing_eq_true.mpr (.inl (MyMatch.failed_closes he s.mm))))
  exact hask.aside _ _ _

theorem served_start_keptInv (h : KeptInv s) (hrx : s.rx k = .waiting a)
    (hstart : MyMatch.headerOf packet = some reqStartmatch) (hpos : 0 < a)
    (hc : answers.connection = true) {r : Record} (hi : answers.info = .ok r) :
    KeptInv (s.served ar k a answers packet) := by
  have hwish : wish a packet (s.wants k) = some a := if_pos hstart
  rw [served, hwish, MyMatch.exec_clientProcess_start ar hstart hc hi]
  have henter := (arming_keptInv h hrx).enter fun e he =>
    MyMatchMaker.mem_enter_of_mem ar he a r.win r.draw r.loose answers.visited
  have hq := MyMatchMaker.exists_mem_enter ar s.mm.matchmaker hpos r.win r.draw r.loose
    answers.visited
  exact (henter.ask arming_active (.inr hq)).aside _ _ _

theorem served_keptInv (h : KeptInv s) (hrx : s.rx k = .waiting a)
    (hok : s.considered k a answers packet = true) : KeptInv (s.served ar k a answers packet) := by
  unfold considered at hok
  by_cases hpause : MyMatch.headerOf packet = some reqPausematch
  · rw [if_pos hpause] at hok
    exact served_pause_keptInv h hrx hpause hok
  rw [if_neg hpause] at hok
  by_cases hstart : MyMatch.headerOf packet = some reqStartmatch
  · rw [if_pos hstart, Bool.and_eq_true, decide_eq_true_eq] at hok
    obtain ⟨hpos, hdb⟩ := hok
    cases hc : answers.connection with
    | false => exact served_start_failed_keptInv h hrx hstart (.inl ⟨hc, rfl⟩) rfl
    | true => cases hi : answers.info with
      | error e =>
        rw [hc, hi] at hdb
        exact served_start_failed_keptInv h hrx hstart (.inr ⟨hc, hi⟩) hdb
      | ok r => exact served_start_keptInv h hrx hstart hpos hc hi
  · have hwish : wish a packet (s.wants k) = s.wants k := by
      rw [wish, if_neg hstart, if_neg hpause]
    obtain ⟨hsessions, halive, haccepts⟩ := MyMatch.clientProcess_framed ar k a answers packet s.mm
    rw [served, hwish, Function.update_eq_self]
    exact ((arming_keptInv h hrx).framed ⟨hsessions, halive, haccepts⟩
      (MyMatch.clientProcess_matchmaker ar hstart hpause s.mm)).aside _ _ _

end Packets

theorem packet_keptInv (h : KeptInv s) {k : SocketId} {answers : MyMatch.Answers}
    {packet : List Byte} (hok : s.considerate (.packet k answers packet) = true)
    (hr : s.packet ar k answers packet = some t) : KeptInv t := by
  obtain ⟨a, hrx, rfl⟩ := packet_cases hr
  simp only [considerate, hrx] at hok
  exact served_keptInv h hrx hok

theorem error_keptInv (h : KeptInv s) {k : SocketId} (hr : s.error k = some t) : KeptInv t := by
  obtain ⟨a, hrx, rfl⟩ := error_cases hr
  exact h.setRx_quiet hrx nofun (fun _ ha => ha) nofun rfl fun _ => rfl

theorem leaveQueue_keptInv (h : KeptInv s) {k : SocketId}
    (hok : s.considerate (.leaveQueue k) = true) (hr : s.leaveQueue k = some t) : KeptInv t := by
  obtain ⟨a, hrx, rfl⟩ := leaveQueue_cases hr
  simp only [considerate, hrx] at hok
  have h' : KeptInv (s.setRx k (.leaving a)) := by
    refine h.setRx (by rw [hrx]; exact nofun) ?_ nofun (fun _ => .inl rfl) ?_
    · rw [hrx]
      exact fun _ ha => ha
    · rw [hrx]
      exact nofun
  refine h'.exit a ?_
  intro cookie j hs hw
  rcases undisturbed_iff.mp hok cookie j hs with rfl | hnone | hclosing
  · refine closing_eq_true.mpr (.inr (.inl ?_))
    rw [setRx_rx_self]
    rfl
  · rw [setRx_wants, hnone] at hw
    cases hw
  · refine closing_setRx (fun _ => .inl rfl) ?_ hclosing
    rw [hrx]
    exact nofun

/-- The error branch of a socket goes on. -/
theorem KeptInv.setRx_ended (h : KeptInv s) {k : SocketId} {q r : Rx} (hq : s.rx k = q)
    (hk : q ≠ .none) (ha : ∀ a, r.active = some a → q.active = some a)
    (hr : r.ended = true) (hsup : ∀ j, q.supersedes j = false) : KeptInv (s.setRx k r) := by
  subst hq
  refine h.setRx hk ha ?_ (fun _ => .inl hr) ?_
  · rw [Rx.early_of_ended hr]
    exact nofun
  · intro j hj
    rw [hsup j] at hj
    cases hj

theorem findOwn_keptInv (h : KeptInv s) {k : SocketId} (hr : s.findOwn k = some t) :
    KeptInv t := by
  obtain ⟨a, hrx, ⟨_, _, -, rfl⟩ | ⟨-, rfl⟩⟩ := findOwn_cases hr
  · split
    · exact h.setRx_ended hrx nofun (fun _ ha => ha) rfl fun _ => rfl
    · exact h.setRx_ended hrx nofun nofun rfl fun _ => rfl
  · exact h.setRx_ended hrx nofun nofun rfl fun _ => rfl

theorem eraseOwn_keptInv (h : KeptInv s) {k : SocketId} (hr : s.eraseOwn k = some t) :
    KeptInv t := by
  obtain ⟨a, hrx, rfl⟩ := eraseOwn_cases hr
  exact (h.erase a).setRx_ended hrx nofun nofun rfl fun _ => rfl

theorem finish_keptInv (h : KeptInv s) {k : SocketId} (hr : s.finish k = some t) :
    KeptInv t := by
  obtain ⟨hrx, rfl⟩ := finish_cases hr
  refine (h.shut k).setRx (by rw [shut_rx, hrx]; exact nofun) nofun nofun ?_ ?_
  · exact fun _ => .inr (Sockets.not_accepts_close _ k)
  · rw [shut_rx, hrx]
    exact nofun

theorem free_keptInv (h : KeptInv s) {k : SocketId} (hr : s.free k = some t) : KeptInv t := by
  obtain ⟨c, -, -, rfl⟩ := free_cases hr
  refine h.setSockets fun j hj => ?_
  by_cases hjk : j = k
  · simp [Sockets.accepts, hjk] at hj
  · simpa [Sockets.accepts, hjk] using hj

/-! ## `MatchMake` -/

theorem wait_keptInv (h : KeptInv s) (hr : s.wait = some t) : KeptInv t := by
  obtain ⟨-, rfl⟩ := wait_cases hr
  exact h.aside _ _ _

theorem wake_keptInv (h : KeptInv s) (hr : s.wake = some t) : KeptInv t := by
  obtain ⟨-, -, rfl⟩ := wake_cases hr
  exact h.aside _ _ _

theorem process_keptInv (h : KeptInv s) (hr : s.process ar = some t) : KeptInv t := by
  obtain ⟨-, rfl⟩ := process_cases hr
  refine h.onward { onward_refl h with wants := ?_ } ?_
  · intro k a ha
    exact (Option.filter_eq_some_iff.mp ha).1
  · rintro a cookie k hs hw _ ⟨e, he, rfl⟩
    obtain ⟨b, hb⟩ := Option.isSome_iff_exists.mp hw
    obtain ⟨hb, hno⟩ := Option.filter_eq_some_iff.mp hb
    obtain rfl := h.asks e.id cookie k hs b hb
    -- who is matched has no request any more, so the element stays
    have hmem := (MyMatchMaker.pairUp_perm ar s.mm.matchmaker.waitQueue
      s.mm.matchmaker.counts).mem_iff.mpr he
    rcases List.mem_append.mp hmem with hmatched | hkept
    · rw [List.any_eq_true.mpr ⟨e, hmatched, beq_self_eq_true e.id⟩] at hno
      cases hno
    · exact ⟨e, hkept, rfl⟩

theorem getMatch_keptInv (h : KeptInv s) (hr : s.getMatch = some t) : KeptInv t := by
  obtain ⟨-, ⟨-, rfl⟩ | ⟨-, rfl⟩⟩ := getMatch_cases hr <;> exact h.aside _ _ _

theorem find_keptInv (h : KeptInv s) (hr : s.find = some t) : KeptInv t := by
  obtain ⟨_, _, _, -, ⟨_, _, -, rfl⟩ | ⟨-, rfl⟩⟩ := find_cases hr <;> exact h.aside _ _ _

theorem lock_keptInv (h : KeptInv s) (hr : s.lock = some t) : KeptInv t := by
  obtain ⟨_, _, _, _, -, ⟨-, rfl⟩ | ⟨-, rfl⟩⟩ := lock_cases hr
  · exact (h.send _ _).aside _ _ _
  · exact h.aside _ _ _

theorem check_keptInv (h : KeptInv s) {ok : Bool} (hr : s.check ok = some t) : KeptInv t := by
  obtain ⟨_, _, _, _, -, ⟨-, rfl⟩ | ⟨-, rfl⟩⟩ := check_cases hr
  · exact h.aside _ _ _
  · exact (h.shut _).aside _ _ _

theorem transfer_keptInv (h : KeptInv s) {battleServer : Seed}
    (hr : s.transfer battleServer = some t) : KeptInv t := by
  obtain ⟨_, -, ⟨-, rfl⟩ | ⟨-, rfl⟩⟩ := transfer_cases hr <;> exact h.aside _ _ _

theorem tell_keptInv (h : KeptInv s) (hr : s.tell = some t) : KeptInv t := by
  obtain ⟨_, _, _, _, -, rfl⟩ := tell_cases hr
  exact ((h.send _ _).erase _).aside _ _ _

theorem part_keptInv (h : KeptInv s) (hr : s.part = some t) : KeptInv t := by
  obtain ⟨_, _, _, -, rfl⟩ := part_cases hr
  exact (h.shut _).aside _ _ _

theorem giveBack_keptInv (h : KeptInv s) {visited : List Nat}
    (hr : s.giveBack ar visited = some t) : KeptInv t := by
  rcases giveBack_cases hr with ⟨_, _, _, -, rfl⟩ | ⟨_, _, -, rfl⟩
  · exact (h.enter fun e he => MyMatchMaker.mem_enterElem_of_mem ar he _ visited).aside _ _ _
  · exact (h.erase _).aside _ _ _

theorem popMatch_keptInv (h : KeptInv s) (hr : s.popMatch = some t) : KeptInv t := by
  have hm : KeptInv (s.setMaker s.mm.matchmaker.popMatch) := h.enter fun _ he => he
  obtain ⟨-, rfl⟩ := popMatch_cases hr
  exact hm.aside _ _ _

/-! ## Runs -/

theorem act_keptInv (h : KeptInv s) {l : Label} (hok : s.considerate l = true)
    (hr : s.act ar l = some t) : KeptInv t := by
  cases l with
  | accept =>
    cases hr
    exact accept_keptInv h
  | authPacket k answers packet => exact authPacket_keptInv h hr
  | authError k => exact authError_keptInv h hr
  | findSession k => exact findSession_keptInv h hr
  | testOrigin k => exact testOrigin_keptInv h hok hr
  | closeOrigin k => exact closeOrigin_keptInv h hr
  | updateSession k => exact updateSession_keptInv h hr
  | insertSession k => exact insertSession_keptInv h hr
  | inform k answers => exact inform_keptInv h hr
  | arm k => exact arm_keptInv h hr
  | fragment k => exact fragment_keptInv h hr
  | undecrypted k => exact undecrypted_keptInv h hr
  | packet k answers packet => exact packet_keptInv h hok hr
  | error k => exact error_keptInv h hr
  | leaveQueue k => exact leaveQueue_keptInv h hok hr
  | findOwn k => exact findOwn_keptInv h hr
  | eraseOwn k => exact eraseOwn_keptInv h hr
  | finish k => exact finish_keptInv h hr
  | close k =>
    cases hr
    exact h.shut k
  | disconnect k =>
    cases hr
    exact h.modify k fun c hc => by simp [Socket.accepts] at hc
  | free k => exact free_keptInv h hr
  | wait => exact wait_keptInv h hr
  | wake => exact wake_keptInv h hr
  | process => exact process_keptInv h hr
  | getMatch => exact getMatch_keptInv h hr
  | find => exact find_keptInv h hr
  | lock => exact lock_keptInv h hr
  | check ok => exact check_keptInv h hr
  | transfer battleServer => exact transfer_keptInv h hr
  | tell => exact tell_keptInv h hr
  | part => exact part_keptInv h hr
  | giveBack visited => exact giveBack_keptInv h hr
  | popMatch => exact popMatch_keptInv h hr

/-- **No request for a match is lost** in any state of a run whose steps meet the
condition: every `Exit` of an account is for the socket registered for it, or for one
beside a registered socket that has no request or closes. -/
theorem request_kept (ar : Arith) (labels : List Label)
    (hok : Meets (step ar) (fun s l => s.considerate l = true) start labels) {s : Server}
    (hr : run (step ar) start labels = some s) : s.RequestKept :=
  (run_invariant (I := KeptInv) (fun _ _ _ h hl hs => act_keptInv h hl (step_act hs))
    start_keptInv hok hr).kept

/-- A second socket logs in with the cookie of a session. -/
def loginAgain (k : SocketId) : List Label :=
  [.accept, .arm k, .authPacket k MyMatch.plain (List.replicate 32 0), .findSession k,
    .testOrigin k, .closeOrigin k, .updateSession k, .inform k MyMatch.plain, .arm k]

/-- The request of a socket that has superseded another. The older one finishes first. -/
theorem request_kept_again :
    ∃ s, run (step Lobby.exact) start (login 0 ++ loginAgain 1 ++
        [.error 0, .leaveQueue 0, .findOwn 0, .finish 0,
          .packet 1 MyMatch.plain [reqStartmatch], .arm 1]) = some s ∧
      (s.wants 1 = some 1 ∧ s.closing 1 = false) ∧ s.RequestKept := by
  have h : ∃ s, run (step Lobby.exact) start (login 0 ++ loginAgain 1 ++
      [.error 0, .leaveQueue 0, .findOwn 0, .finish 0,
        .packet 1 MyMatch.plain [reqStartmatch], .arm 1]) = some s ∧
      (s.wants 1 = some 1 ∧ s.closing 1 = false) := exists_run_of_any (by decide +kernel)
  obtain ⟨s, hr, hw⟩ := h
  exact ⟨s, hr, hw, request_kept Lobby.exact _ (by decide +kernel) hr⟩

/-- The error branch of the older socket runs late, after the request of the new one. -/
theorem request_lost_late_error :
    ∃ s, run (step Lobby.exact) start (login 0 ++ loginAgain 1 ++
        [.packet 1 MyMatch.plain [reqStartmatch], .arm 1, .error 0, .leaveQueue 0]) = some s ∧
      ¬ s.RequestKept := by
  have h : ∃ s, run (step Lobby.exact) start (login 0 ++ loginAgain 1 ++
      [.packet 1 MyMatch.plain [reqStartmatch], .arm 1, .error 0, .leaveQueue 0]) = some s ∧
      (s.mm.sessions.findLKey 1).map (·.2) = some 1 ∧ (s.wants 1).isSome = true ∧
      s.closing 1 = false ∧ s.mm.matchmaker.waitQueue = [] :=
    exists_run_of_any (by decide +kernel)
  obtain ⟨s, hr, hs, hw, hc, hq⟩ := h
  obtain ⟨⟨cookie, k⟩, hfind, rfl⟩ := Option.map_eq_some_iff.mp hs
  refine ⟨s, hr, fun hkept => ?_⟩
  obtain ⟨e, he, _⟩ := hkept 1 cookie 1 hfind hw hc
  rw [hq] at he
  cases he

end Server
end DrgbServer.Match
