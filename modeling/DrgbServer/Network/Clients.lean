import DrgbServer.Lib.Transition

/-! # `MyServerSocket`: the list of clients

A server socket with the accept handler of `MyServer::Start`. The accept handler creates the
client, starts its `Prepare` and registers it with `AddClient`; `Prepare`, the key exchange
and `Close` complete in callbacks of other threads, before or after that. The clean-up
handler, installed by `AddClient`, takes the client off the list; it needs `mtx_client`, as
does `safe_loop`, which `CloseSocket` uses to close all clients.

The servers use websockets, whose `isReadable` is false until the handshake is done and again
once the other side has closed; a TCP socket is readable until it is closed. `run_accurate` says
when the list is that of the open clients, `safe_iff` when closing the server does not ask
for a lock its own thread holds. -/
namespace DrgbServer.Network
open DrgbServer.Lib.Transition

/-! ## One client -/

structure Client where
  /-- `isReadable()` -/
  readable : Bool
  /-- the connection stands: it was neither given up nor closed -/
  opened : Bool := true
  initiateClose : Bool := false
  /-- `AddClient` has installed the clean-up handler -/
  cleanHandler : Bool := false
  /-- the operation started by `Prepare` is pending -/
  preparing : Bool := true
  /-- in `KeyExchange`, before `StartRecv` -/
  starting : Bool := false
  /-- the receive of the key exchange is pending -/
  exchanging : Bool := false
  /-- the timer of the key exchange runs -/
  timer : Bool := false
  /-- the receive of an accepted client is pending -/
  established : Bool := false
  /-- a callback is about to call `Close` -/
  closeDue : Bool := false
  /-- the operation started by `DoClose` is pending -/
  closing : Bool := false
  /-- in `RemoveClient`, before `mtx_client` -/
  cleaning : Bool := false
  /-- how often the clean-up handler was called -/
  cleaned : Nat := 0
deriving DecidableEq

namespace Client

/-- How a key exchange ends: with a key, with a refusal, or with an error of the read. -/
inductive Outcome where
  | agreed
  | refused
  | lost
deriving DecidableEq

inductive Label where
  /-- `Prepare` completes and calls the accept handler; `keyOk` is the result of `GetPublicKey` -/
  | prepared (ok keyOk : Bool)
  | startRecv
  | exchanged (outcome : Outcome)
  /-- the read of an accepted client fails -/
  | lost
  | timeout
  /-- some thread calls `Close` -/
  | close
  /-- a callback calls the `Close` that is due -/
  | closeNext
  /-- the operation of `DoClose` is done -/
  | closed
deriving DecidableEq

/-- A client as the accept handler creates it. -/
def accepted (websocket : Bool) : Client := { readable := !websocket }

def cleanUp (c : Client) : Client :=
  if c.cleanHandler then { c with cleaning := true, cleaned := c.cleaned + 1 } else c

def close (c : Client) : Client :=
  if c.initiateClose then c
  else if c.readable then { c with initiateClose := true, timer := false, closing := true }
  else cleanUp { c with initiateClose := true, timer := false, opened := false }

/-- A read has failed: the handler and `Recv_Handle` close the client. -/
def lose (c : Client) (websocket : Bool) : Client :=
  { c with readable := c.readable && !websocket, opened := false, closeDue := true }

/-- `KeyExchange` up to its `StartRecv`; `AcceptProcess` closes a client whose exchange fails. -/
def keyExchange (c : Client) (keyOk : Bool) : Client :=
  if !keyOk || !c.readable then { c with closeDue := true }
  else { c with timer := !c.initiateClose, starting := true }

/-- The accept handler of `MyServer::Start`: a failed `Prepare` is passed by. -/
def acceptHandle (c : Client) (websocket ok keyOk : Bool) : Client :=
  if ok then
    keyExchange { c with preparing := false, readable := c.readable || websocket } keyOk
  else { c with preparing := false, opened := false }

def finishExchange (c : Client) (websocket : Bool) : Outcome → Client
  | .agreed =>
    { c with exchanging := false, timer := false, established := c.readable && !c.initiateClose }
  | .refused => { c with exchanging := false, timer := false, closeDue := true }
  | .lost => lose { c with exchanging := false, timer := false } websocket

def step (websocket : Bool) (c : Client) : Label → Option Client
  | .prepared ok keyOk => if c.preparing then some (c.acceptHandle websocket ok keyOk) else none
  | .startRecv =>
    if c.starting then
      some { c with starting := false, exchanging := c.readable && !c.initiateClose }
    else none
  | .exchanged outcome => if c.exchanging then some (c.finishExchange websocket outcome) else none
  | .lost => if c.established then some (lose { c with established := false } websocket) else none
  | .timeout => if c.timer then some { c with timer := false, closeDue := true } else none
  | .close => some c.close
  | .closeNext => if c.closeDue then some (close { c with closeDue := false }) else none
  | .closed =>
    if c.closing then
      some (cleanUp { c with closing := false, readable := false, opened := false })
    else none

/-- No operation of the client is pending. -/
def quiet (c : Client) : Bool :=
  c.cleanHandler && !c.preparing && !c.starting && !c.exchanging && !c.timer && !c.closeDue &&
    !c.closing && !c.cleaning

/-- The clean-up handler has not taken the client off the list. -/
def listed (c : Client) : Bool := c.cleanHandler && (c.cleaned == 0 || c.cleaning)

/-- The condition on a step: `Prepare` fails for clients only that are being closed, and the
clean-up handler is installed when it is due. -/
def regular (c : Client) : Label → Bool
  | .prepared false _ => c.initiateClose
  | .close | .closeNext => c.initiateClose || c.readable || c.cleanHandler
  | .closed => c.cleanHandler
  | _ => true

variable {c d : Client} {websocket : Bool}

/-! ### What a step can do -/

theorem close_of_initiated (hi : c.initiateClose = true) : c.close = c := by
  simp [close, hi]

theorem close_of_readable (hi : c.initiateClose = false) (hr : c.readable = true) :
    c.close = { c with initiateClose := true, timer := false, closing := true } := by
  simp [close, hi, hr]

theorem close_of_unreadable (hi : c.initiateClose = false) (hr : c.readable = false) :
    c.close = cleanUp { c with initiateClose := true, timer := false, opened := false } := by
  simp [close, hi, hr]

theorem cleanHandler_cleanUp (c : Client) : c.cleanUp.cleanHandler = c.cleanHandler := by
  unfold cleanUp
  split <;> rfl

theorem cleanHandler_close (c : Client) : c.close.cleanHandler = c.cleanHandler := by
  unfold close
  split
  · rfl
  split
  · rfl
  · exact cleanHandler_cleanUp _

/-- Neither closed nor cleaned up in between. -/
structure Still (c d : Client) : Prop where
  initiateClose : d.initiateClose = c.initiateClose
  closing : d.closing = c.closing
  cleaning : d.cleaning = c.cleaning
  cleaned : d.cleaned = c.cleaned
  cleanHandler : d.cleanHandler = c.cleanHandler

/-- A step calls `Close`, ends the operation of `DoClose`, leaves the connection as it is, or
gives it up: with a `Close` due, unless it is `Prepare` that has failed. -/
theorem step_cases {l : Label} (hs : c.step websocket l = some d) :
    ((l = .close ∨ l = .closeNext) ∧ ∃ due, d = close { c with closeDue := due }) ∨
    (l = .closed ∧ c.closing = true ∧
      d = cleanUp { c with closing := false, readable := false, opened := false }) ∨
    (Still c d ∧ (websocket = false → d.readable = c.readable) ∧
      ((d.opened = c.opened ∧ (c.closeDue = true → d.closeDue = true)) ∨
        (d.opened = false ∧ (d.closeDue = true ∨ ∃ keyOk, l = .prepared false keyOk)))) := by
  cases l with
  | close =>
    cases hs
    exact .inl ⟨.inl rfl, c.closeDue, rfl⟩
  | closeNext =>
    obtain ⟨_, hs⟩ := Option.ite_none_right_eq_some.mp hs
    cases hs
    exact .inl ⟨.inr rfl, false, rfl⟩
  | closed =>
    obtain ⟨hc, hs⟩ := Option.ite_none_right_eq_some.mp hs
    cases hs
    exact .inr (.inl ⟨rfl, hc, rfl⟩)
  | prepared ok keyOk =>
    obtain ⟨_, hs⟩ := Option.ite_none_right_eq_some.mp hs
    cases hs
    cases ok with
    | false =>
      exact .inr (.inr ⟨⟨rfl, rfl, rfl, rfl, rfl⟩, fun _ => rfl, .inr ⟨rfl, .inr ⟨keyOk, rfl⟩⟩⟩)
    | true =>
      have hr : websocket = false → (c.readable || websocket) = c.readable := by
        intro hw
        simp [hw]
      simp only [acceptHandle, keyExchange, if_true]
      split
      · exact .inr (.inr ⟨⟨rfl, rfl, rfl, rfl, rfl⟩, hr, .inl ⟨rfl, fun _ => rfl⟩⟩)
      · exact .inr (.inr ⟨⟨rfl, rfl, rfl, rfl, rfl⟩, hr, .inl ⟨rfl, id⟩⟩)
  | startRecv =>
    obtain ⟨_, hs⟩ := Option.ite_none_right_eq_some.mp hs
    cases hs
    exact .inr (.inr ⟨⟨rfl, rfl, rfl, rfl, rfl⟩, fun _ => rfl, .inl ⟨rfl, id⟩⟩)
  | exchanged outcome =>
    obtain ⟨_, hs⟩ := Option.ite_none_right_eq_some.mp hs
    cases hs
    cases outcome with
    | agreed => exact .inr (.inr ⟨⟨rfl, rfl, rfl, rfl, rfl⟩, fun _ => rfl, .inl ⟨rfl, id⟩⟩)
    | refused =>
      exact .inr (.inr ⟨⟨rfl, rfl, rfl, rfl, rfl⟩, fun _ => rfl, .inl ⟨rfl, fun _ => rfl⟩⟩)
    | lost =>
      refine .inr (.inr ⟨⟨rfl, rfl, rfl, rfl, rfl⟩, fun hw => ?_, .inr ⟨rfl, .inl rfl⟩⟩)
      simp [finishExchange, lose, hw]
  | lost =>
    obtain ⟨_, hs⟩ := Option.ite_none_right_eq_some.mp hs
    cases hs
    refine .inr (.inr ⟨⟨rfl, rfl, rfl, rfl, rfl⟩, fun hw => ?_, .inr ⟨rfl, .inl rfl⟩⟩)
    simp [lose, hw]
  | timeout =>
    obtain ⟨_, hs⟩ := Option.ite_none_right_eq_some.mp hs
    cases hs
    exact .inr (.inr ⟨⟨rfl, rfl, rfl, rfl, rfl⟩, fun _ => rfl, .inl ⟨rfl, fun _ => rfl⟩⟩)

/-- The handler, once installed, stays. -/
theorem step_cleanHandler {l : Label} (hs : c.step websocket l = some d) :
    d.cleanHandler = c.cleanHandler := by
  rcases step_cases hs with ⟨-, due, rfl⟩ | ⟨-, -, rfl⟩ | ⟨hk, -⟩
  · exact cleanHandler_close _
  · exact cleanHandler_cleanUp _
  · exact hk.cleanHandler

/-! ### Closed once, cleaned up once -/

/-- What holds of every client in a run that meets the condition. -/
structure Tidy (c : Client) : Prop where
  fresh : c.initiateClose = false → c.cleaned = 0 ∧ c.closing = false
  settled : c.initiateClose = true → c.closing = true ∨ c.cleaned = 1
  closing : c.closing = true → c.cleaned = 0
  cleaning : c.cleaning = true → c.cleaned = 1
  cleaned : c.cleaned ≠ 0 → c.cleaned = 1 ∧ c.opened = false
  installed : c.cleaned ≠ 0 → c.cleanHandler = true
  opened : c.opened = false → c.initiateClose = true ∨ c.closeDue = true

theorem accepted_tidy (websocket : Bool) : (accepted websocket).Tidy where
  fresh _ := ⟨rfl, rfl⟩
  settled h := by cases h
  closing h := by cases h
  cleaning h := by cases h
  cleaned h := absurd rfl h
  installed h := absurd rfl h
  opened h := by cases h

/-- A step that neither closes nor cleans up. -/
theorem Tidy.still (h : c.Tidy) (hk : Still c d)
    (ho : d.opened = false → c.initiateClose = true ∨ d.closeDue = true)
    (hf : c.opened = false → d.opened = false) : d.Tidy where
  fresh h' := by rw [hk.cleaned, hk.closing]; exact h.fresh (hk.initiateClose ▸ h')
  settled h' := by rw [hk.cleaned, hk.closing]; exact h.settled (hk.initiateClose ▸ h')
  closing h' := by rw [hk.cleaned]; exact h.closing (hk.closing ▸ h')
  cleaning h' := by rw [hk.cleaned]; exact h.cleaning (hk.cleaning ▸ h')
  cleaned h' := by
    rw [hk.cleaned] at h' ⊢
    obtain ⟨h1, h2⟩ := h.cleaned h'
    exact ⟨h1, hf h2⟩
  installed h' := by rw [hk.cleanHandler]; exact h.installed (hk.cleaned ▸ h')
  opened h' := by rw [hk.initiateClose]; exact ho h'

/-- `AddClient`. -/
theorem Tidy.added (h : c.Tidy) (hn : c.cleaned = 0) : Tidy { c with cleanHandler := true } :=
  ⟨h.fresh, h.settled, h.closing, h.cleaning, h.cleaned, fun h' => absurd hn h', h.opened⟩

/-- The clean-up handler is called: for the first time, and on a client that is given up. -/
theorem tidy_cleanUp (hh : c.cleanHandler = true) (hn : c.cleaned = 0)
    (hi : c.initiateClose = true) (hc : c.closing = false) (ho : c.opened = false) :
    c.cleanUp.Tidy := by
  have he : c.cleanUp = { c with cleaning := true, cleaned := 1 } := by simp [cleanUp, hh, hn]
  rw [he]
  refine ⟨fun h' => ?_, fun _ => .inr rfl, fun h' => ?_, fun _ => rfl, fun _ => ⟨rfl, ho⟩,
    fun _ => hh, fun _ => .inl hi⟩
  · exact absurd (hi.symm.trans h') (by decide)
  · exact absurd (hc.symm.trans h') (by decide)

/-- `Close`, by a callback that has no further one due or by another thread. -/
theorem Tidy.close (h : c.Tidy) (due : Bool)
    (hr : (c.initiateClose || c.readable || c.cleanHandler) = true) :
    (Client.close { c with closeDue := due }).Tidy := by
  rcases Bool.eq_false_or_eq_true c.initiateClose with hi | hi
  · rw [close_of_initiated (c := { c with closeDue := due }) hi]
    exact h.still ⟨rfl, rfl, rfl, rfl, rfl⟩ (fun _ => .inl hi) id
  obtain ⟨hn, hc⟩ := h.fresh hi
  rcases Bool.eq_false_or_eq_true c.readable with hread | hread
  · rw [close_of_readable (c := { c with closeDue := due }) hi hread]
    refine ⟨fun h' => ?_, fun _ => .inl rfl, fun _ => hn, fun h' => ?_, fun h' => absurd hn h',
      fun h' => absurd hn h', fun _ => .inl rfl⟩
    · cases h'
    · exact absurd (hn.symm.trans (h.cleaning h')) (by decide)
  · have hh : c.cleanHandler = true := by simpa [hi, hread] using hr
    rw [close_of_unreadable (c := { c with closeDue := due }) hi hread]
    exact tidy_cleanUp hh hn rfl hc rfl

theorem Tidy.closed (h : c.Tidy) (hc : c.closing = true) (hh : c.cleanHandler = true) :
    (cleanUp { c with closing := false, readable := false, opened := false }).Tidy := by
  refine tidy_cleanUp hh (h.closing hc) ?_ rfl rfl
  rcases Bool.eq_false_or_eq_true c.initiateClose with hi | hi
  · exact hi
  · exact absurd ((h.fresh hi).2.symm.trans hc) (by decide)

/-- **One step of a client** that meets the condition. -/
theorem step_tidy {l : Label} (h : c.Tidy) (hr : c.regular l = true)
    (hs : c.step websocket l = some d) : d.Tidy := by
  rcases step_cases hs with ⟨rfl | rfl, due, rfl⟩ | ⟨rfl, hc, rfl⟩ | ⟨hk, -, ⟨ho, hd⟩ | ⟨ho, hd⟩⟩
  · exact h.close due hr
  · exact h.close due hr
  · exact h.closed hc hr
  · refine h.still hk (fun hf => ?_) fun hf => ho.trans hf
    exact (h.opened (ho ▸ hf)).imp_right hd
  · refine h.still hk (fun _ => ?_) fun _ => ho
    rcases hd with hd | ⟨keyOk, rfl⟩
    · exact .inr hd
    · exact .inl hr

/-! ### What stays on the list -/

theorem listed_cleanUp (hn : c.cleaned = 0) : c.cleanUp.listed = c.listed := by
  unfold cleanUp listed
  split
  · simp [hn]
  · rfl

theorem listed_close (h : c.Tidy) (due : Bool) :
    (Client.close { c with closeDue := due }).listed = c.listed := by
  rcases Bool.eq_false_or_eq_true c.initiateClose with hi | hi
  · rw [close_of_initiated (c := { c with closeDue := due }) hi]
    rfl
  rcases Bool.eq_false_or_eq_true c.readable with hread | hread
  · rw [close_of_readable (c := { c with closeDue := due }) hi hread]
    rfl
  · rw [close_of_unreadable (c := { c with closeDue := due }) hi hread]
    exact listed_cleanUp (h.fresh hi).1

/-- No step of a client takes it off the list or puts it on; that is for `AddClient` and
`RemoveClient`. -/
theorem step_listed {l : Label} (h : c.Tidy) (hs : c.step websocket l = some d) :
    d.listed = c.listed := by
  rcases step_cases hs with ⟨-, due, rfl⟩ | ⟨-, hc, rfl⟩ | ⟨hk, -⟩
  · exact listed_close h due
  · have hn : c.cleaned = 0 := h.closing hc
    exact listed_cleanUp hn
  · rw [listed, listed, hk.cleanHandler, hk.cleaned, hk.cleaning]

/-! ### TCP -/

/-- A TCP socket is readable until it is closed. -/
structure Upright (c : Client) : Prop where
  readable : c.initiateClose = false → c.readable = true
  closing : c.closing = true → c.initiateClose = true

theorem Upright.close (h : c.Upright) (due : Bool) :
    (Client.close { c with closeDue := due }).Upright := by
  rcases Bool.eq_false_or_eq_true c.initiateClose with hi | hi
  · rw [close_of_initiated (c := { c with closeDue := due }) hi]
    exact ⟨h.readable, h.closing⟩
  · rw [close_of_readable (c := { c with closeDue := due }) hi (h.readable hi)]
    exact ⟨nofun, fun _ => rfl⟩

theorem step_upright {l : Label} (h : c.Upright) (hs : c.step false l = some d) : d.Upright := by
  rcases step_cases hs with ⟨-, due, rfl⟩ | ⟨-, hc, rfl⟩ | ⟨hk, hr, -⟩
  · exact h.close due
  · have hi := h.closing hc
    unfold cleanUp
    split
    · exact ⟨fun h' => absurd (hi.symm.trans h') (by decide), fun _ => hi⟩
    · exact ⟨fun h' => absurd (hi.symm.trans h') (by decide), fun _ => hi⟩
  · refine ⟨fun h' => ?_, fun h' => ?_⟩
    · rw [hr rfl]
      exact h.readable (hk.initiateClose ▸ h')
    · rw [hk.initiateClose]
      exact h.closing (hk.closing ▸ h')

/-! ### Quiet clients -/

/-- A client with nothing pending is on the list if and only if it is open. -/
theorem Tidy.listed_iff (h : c.Tidy) (hq : c.quiet = true) : c.listed = true ↔ c.opened = true := by
  simp only [quiet, Bool.and_eq_true, Bool.not_eq_true'] at hq
  obtain ⟨⟨⟨⟨⟨⟨⟨hh, _⟩, _⟩, _⟩, _⟩, hd⟩, hc⟩, hg⟩ := hq
  have hl : c.listed = true ↔ c.cleaned = 0 := by simp [listed, hh, hg]
  rw [hl]
  constructor
  · intro hn
    by_contra ho
    rw [Bool.not_eq_true] at ho
    rcases h.opened ho with hi | hdue
    · rcases h.settled hi with h1 | h1
      · rw [hc] at h1; cases h1
      · omega
    · rw [hd] at hdue; cases hdue
  · intro ho
    by_contra hn
    rw [(h.cleaned hn).2] at ho
    cases ho

end Client

/-! ## The server socket -/

structure ServerSocket where
  websocket : Bool
  /-- the accepted sockets, by number -/
  infos : List Client := []
  /-- the vector `clients` -/
  clients : List Nat := []
  /-- `safe_loop` holds `mtx_client`; what its iterator has still to visit -/
  looping : Option (List Nat) := none
  /-- a thread has asked for `mtx_client` while it held it -/
  relocked : Bool := false

namespace ServerSocket

inductive Label where
  /-- the accept handler up to `GetClient` -/
  | accept
  | client (i : Nat) (l : Client.Label)
  | addClient (i : Nat)
  | removeClient (i : Nat)
  /-- `safe_loop`, from `CloseSocket`: the lock is taken -/
  | loopBegin
  /-- `Close` of the next client -/
  | loopNext
  | loopEnd
deriving DecidableEq

def setClient (s : ServerSocket) (i : Nat) (c : Client) : ServerSocket :=
  { s with infos := s.infos.set i c }

def clientStep (s : ServerSocket) (i : Nat) (l : Client.Label) : Option ServerSocket :=
  s.infos[i]?.bind fun c => (c.step s.websocket l).map fun d => s.setClient i d

def addClient (s : ServerSocket) (i : Nat) : Option ServerSocket :=
  s.infos[i]?.bind fun c =>
    if s.looping.isSome || c.cleanHandler then none
    else some { s.setClient i { c with cleanHandler := true } with clients := s.clients ++ [i] }

def removeClient (s : ServerSocket) (i : Nat) : Option ServerSocket :=
  s.infos[i]?.bind fun c =>
    if s.looping.isSome || !c.cleaning then none
    else some { s.setClient i { c with cleaning := false } with clients := s.clients.erase i }

/-- `Close` runs the clean-up handler itself when the client is not readable. -/
def relocks (c : Client) : Bool := !c.initiateClose && !c.readable && c.cleanHandler

def loopNext (s : ServerSocket) : Option ServerSocket :=
  match s.looping with
  | some (i :: rest) =>
    if s.relocked then none
    else s.infos[i]?.map fun c =>
      { s.setClient i c.close with looping := some rest, relocked := relocks c }
  | _ => none

def step (s : ServerSocket) : Label → Option ServerSocket
  | .accept => some { s with infos := s.infos ++ [Client.accepted s.websocket] }
  | .client i l => s.clientStep i l
  | .addClient i => s.addClient i
  | .removeClient i => s.removeClient i
  | .loopBegin => if s.looping.isSome then none else some { s with looping := some s.clients }
  | .loopNext => s.loopNext
  | .loopEnd =>
    if s.looping = some [] && !s.relocked then some { s with looping := none } else none

def start (websocket : Bool) : ServerSocket := { websocket }

/-! ## The lock -/

/-- Every client on the list has the clean-up handler, and nothing is taken off the list while
`safe_loop` goes through it. -/
structure Locked (s : ServerSocket) : Prop where
  installed : ∀ i ∈ s.clients, ∃ c, s.infos[i]? = some c ∧ c.cleanHandler = true
  looping : ∀ rest, s.looping = some rest → rest <:+ s.clients

variable {s t : ServerSocket}

theorem start_locked (websocket : Bool) : (start websocket).Locked where
  installed i hi := by cases hi
  looping rest h := by cases h

/-- Handlers survive the update of one client that keeps its own. -/
theorem installed_setClient {i j : Nat} {c d : Client} (hc : s.infos[i]? = some c)
    (hd : c.cleanHandler = true → d.cleanHandler = true)
    (h : ∃ e, s.infos[j]? = some e ∧ e.cleanHandler = true) :
    ∃ e, (s.setClient i d).infos[j]? = some e ∧ e.cleanHandler = true := by
  obtain ⟨e, he, hh⟩ := h
  have hi : i < s.infos.length := (List.getElem?_eq_some_iff.mp hc).1
  by_cases hj : j = i
  · subst hj
    rw [hc, Option.some.injEq] at he
    exact ⟨d, by simp [setClient, hi], hd (he ▸ hh)⟩
  · exact ⟨e, by simp [setClient, List.getElem?_set_ne (Ne.symm hj), he], hh⟩

/-! What each action can do. -/

theorem clientStep_spec {i : Nat} {l : Client.Label} (hs : s.clientStep i l = some t) :
    ∃ c d, s.infos[i]? = some c ∧ c.step s.websocket l = some d ∧ t = s.setClient i d := by
  obtain ⟨c, hc, hs⟩ := Option.bind_eq_some_iff.mp hs
  obtain ⟨d, hd, rfl⟩ := Option.map_eq_some_iff.mp hs
  exact ⟨c, d, hc, hd, rfl⟩

theorem addClient_spec {i : Nat} (hs : s.addClient i = some t) :
    ∃ c, s.infos[i]? = some c ∧ s.looping = none ∧ c.cleanHandler = false ∧
      t = { s.setClient i { c with cleanHandler := true } with clients := s.clients ++ [i] } := by
  obtain ⟨c, hc, hs⟩ := Option.bind_eq_some_iff.mp hs
  obtain ⟨hn, hs⟩ := Option.ite_none_left_eq_some.mp hs
  simp only [Bool.or_eq_true, not_or, Bool.not_eq_true, Option.isSome_eq_false_iff,
    Option.isNone_iff_eq_none] at hn
  exact ⟨c, hc, hn.1, hn.2, (Option.some.inj hs).symm⟩

theorem removeClient_spec {i : Nat} (hs : s.removeClient i = some t) :
    ∃ c, s.infos[i]? = some c ∧ s.looping = none ∧ c.cleaning = true ∧
      t = { s.setClient i { c with cleaning := false } with clients := s.clients.erase i } := by
  obtain ⟨c, hc, hs⟩ := Option.bind_eq_some_iff.mp hs
  obtain ⟨hn, hs⟩ := Option.ite_none_left_eq_some.mp hs
  simp only [Bool.or_eq_true, not_or, Bool.not_eq_true, Bool.not_eq_true', Bool.not_eq_false,
    Option.isSome_eq_false_iff, Option.isNone_iff_eq_none] at hn
  exact ⟨c, hc, hn.1, hn.2, (Option.some.inj hs).symm⟩

theorem loopBegin_spec (hs : s.step .loopBegin = some t) :
    t = { s with looping := some s.clients } :=
  (Option.some.inj (Option.ite_none_left_eq_some.mp hs).2).symm

theorem loopEnd_spec (hs : s.step .loopEnd = some t) : t = { s with looping := none } :=
  (Option.some.inj (Option.ite_none_right_eq_some.mp hs).2).symm

theorem loopNext_spec (hs : s.loopNext = some t) : ∃ i rest c, s.looping = some (i :: rest) ∧
    s.infos[i]? = some c ∧ s.relocked = false ∧
    t = { s.setClient i c.close with looping := some rest, relocked := relocks c } := by
  unfold loopNext at hs
  split at hs
  · rename_i i rest hl
    obtain ⟨hr, hs⟩ := Option.ite_none_left_eq_some.mp hs
    obtain ⟨c, hc, rfl⟩ := Option.map_eq_some_iff.mp hs
    exact ⟨i, rest, c, hl, hc, by simpa using hr, rfl⟩
  · cases hs

theorem Locked.next (h : s.Locked) {i : Nat} {rest : List Nat} {c : Client}
    (hl : s.looping = some (i :: rest)) (hc : s.infos[i]? = some c) : c.cleanHandler = true := by
  have hi : i ∈ s.clients := (h.looping _ hl).subset List.mem_cons_self
  obtain ⟨d, hd, hh⟩ := h.installed i hi
  rw [hc, Option.some.injEq] at hd
  exact hd ▸ hh

theorem step_locked {l : Label} (h : s.Locked) (hs : s.step l = some t) : t.Locked := by
  cases l with
  | accept =>
    cases hs
    refine ⟨fun i hi => ?_, h.looping⟩
    obtain ⟨c, hc, hh⟩ := h.installed i hi
    refine ⟨c, ?_, hh⟩
    rw [List.getElem?_append_left (List.getElem?_eq_some_iff.mp hc).1]
    exact hc
  | client i l =>
    obtain ⟨c, d, hc, hd, rfl⟩ := clientStep_spec hs
    have hk : c.cleanHandler = true → d.cleanHandler = true := by
      rw [Client.step_cleanHandler hd]; exact id
    exact ⟨fun j hj => installed_setClient hc hk (h.installed j hj), h.looping⟩
  | addClient i =>
    obtain ⟨c, hc, hn, -, rfl⟩ := addClient_spec hs
    refine ⟨fun j hj => ?_, fun rest hl => ?_⟩
    · rcases List.mem_append.mp hj with hj | hj
      · exact installed_setClient hc (fun _ => rfl) (h.installed j hj)
      · rw [List.mem_singleton.mp hj]
        have hi : i < s.infos.length := (List.getElem?_eq_some_iff.mp hc).1
        exact ⟨{ c with cleanHandler := true }, by simp [setClient, hi], rfl⟩
    · exact absurd (hn.symm.trans hl) (by simp)
  | removeClient i =>
    obtain ⟨c, hc, hn, -, rfl⟩ := removeClient_spec hs
    refine ⟨fun j hj => ?_, fun rest hl => ?_⟩
    · exact installed_setClient hc id (h.installed j (List.mem_of_mem_erase hj))
    · exact absurd (hn.symm.trans hl) (by simp)
  | loopBegin =>
    obtain rfl := loopBegin_spec hs
    refine ⟨h.installed, fun rest hl => ?_⟩
    cases hl
    exact List.suffix_rfl
  | loopNext =>
    obtain ⟨i, rest, c, hl, hc, -, rfl⟩ := loopNext_spec hs
    have hk : c.cleanHandler = true → c.close.cleanHandler = true := by
      rw [Client.cleanHandler_close]; exact id
    refine ⟨fun j hj => installed_setClient hc hk (h.installed j hj), fun rest' hl' => ?_⟩
    cases hl'
    exact (List.suffix_cons i rest).trans (h.looping _ hl)
  | loopEnd =>
    obtain rfl := loopEnd_spec hs
    exact ⟨h.installed, fun rest hl => by cases hl⟩

/-- No thread asks for the lock it holds, and the list is not changed under `safe_loop`. -/
def Safe (s : ServerSocket) : Prop :=
  s.relocked = false ∧ ∀ rest, s.looping = some rest → rest <:+ s.clients

/-- The condition on a step: the client that `safe_loop` closes is readable or is being
closed already. -/
def gentle (s : ServerSocket) : Label → Bool
  | .loopNext => s.looping.all fun rest => rest.head?.all fun i =>
    s.infos[i]?.all fun c => c.readable || c.initiateClose
  | _ => true

theorem relocked_step {l : Label} (hl : l ≠ .loopNext) (hs : s.step l = some t) :
    t.relocked = s.relocked := by
  cases l with
  | accept => cases hs; rfl
  | client i l =>
    obtain ⟨c, d, hc, hd, rfl⟩ := clientStep_spec hs
    rfl
  | addClient i =>
    obtain ⟨c, hc, -, -, rfl⟩ := addClient_spec hs
    rfl
  | removeClient i =>
    obtain ⟨c, hc, -, -, rfl⟩ := removeClient_spec hs
    rfl
  | loopBegin =>
    obtain rfl := loopBegin_spec hs
    rfl
  | loopNext => exact absurd rfl hl
  | loopEnd =>
    obtain rfl := loopEnd_spec hs
    rfl

/-- The clients of a server of TCP sockets. -/
theorem step_tcp {l : Label} (hw : s.websocket = false) (hu : ∀ c ∈ s.infos, c.Upright)
    (hs : s.step l = some t) : t.websocket = false ∧ ∀ c ∈ t.infos, c.Upright := by
  have hset : ∀ i d, d.Upright → ∀ c ∈ (s.setClient i d).infos, c.Upright := by
    intro i d hd c hc
    rcases List.mem_or_eq_of_mem_set hc with hc | rfl
    · exact hu c hc
    · exact hd
  cases l with
  | accept =>
    cases hs
    refine ⟨hw, fun c hc => ?_⟩
    rcases List.mem_append.mp hc with hc | hc
    · exact hu c hc
    · rw [List.mem_singleton.mp hc, hw]
      exact ⟨fun _ => rfl, nofun⟩
  | client i l =>
    obtain ⟨c, d, hc, hd, rfl⟩ := clientStep_spec hs
    rw [hw] at hd
    exact ⟨hw, hset i d (Client.step_upright (hu c (List.mem_of_getElem? hc)) hd)⟩
  | addClient i =>
    obtain ⟨c, hc, -, -, rfl⟩ := addClient_spec hs
    have hup := hu c (List.mem_of_getElem? hc)
    exact ⟨hw, hset i _ ⟨hup.readable, hup.closing⟩⟩
  | removeClient i =>
    obtain ⟨c, hc, -, -, rfl⟩ := removeClient_spec hs
    have hup := hu c (List.mem_of_getElem? hc)
    exact ⟨hw, hset i _ ⟨hup.readable, hup.closing⟩⟩
  | loopBegin =>
    obtain rfl := loopBegin_spec hs
    exact ⟨hw, hu⟩
  | loopNext =>
    obtain ⟨i, rest, c, -, hc, -, rfl⟩ := loopNext_spec hs
    exact ⟨hw, hset i _ ((hu c (List.mem_of_getElem? hc)).close c.closeDue)⟩
  | loopEnd =>
    obtain rfl := loopEnd_spec hs
    exact ⟨hw, hu⟩

/-- The next `Close` of `safe_loop` asks for the lock exactly when the condition is not met. -/
theorem Locked.relocked_iff (h : s.Locked) (hs : s.step .loopNext = some t) :
    t.relocked = false ↔ s.gentle .loopNext = true := by
  obtain ⟨i, rest, c, hl, hc, -, rfl⟩ := loopNext_spec hs
  have hh := h.next hl hc
  change relocks c = false ↔ _
  simp only [relocks, gentle, hl, hc, hh, Option.all_some, List.head?_cons]
  cases c.readable <;> cases c.initiateClose <;> decide

/-- **Closing the server.** Along a run no thread ever asks for `mtx_client` while it holds it,
and the list does not change under `safe_loop`, if and only if each client that `safe_loop`
closes is readable or is being closed already. -/
theorem safe_iff (websocket : Bool) (labels : List Label) :
    Always step Safe (start websocket) labels ↔
      Meets step (fun s l => s.gentle l = true) (start websocket) labels := by
  refine always_iff_meets (I := fun s => s.Locked ∧ s.relocked = false) ?_ ?_ ?_ labels
    ⟨start_locked websocket, rfl⟩
  · rintro s ⟨hl, hr⟩
    exact ⟨hr, hl.looping⟩
  · rintro s l t ⟨hl, hr⟩ hok hs
    refine ⟨step_locked hl hs, ?_⟩
    by_cases he : l = .loopNext
    · subst he
      exact (hl.relocked_iff hs).mpr hok
    · rw [relocked_step he hs]
      exact hr
  · rintro s l t ⟨hl, hr⟩ hok hs ht
    by_cases he : l = .loopNext
    · subst he
      exact hok ((hl.relocked_iff hs).mp ht.1)
    · cases l with
      | loopNext => exact he rfl
      | accept => exact hok rfl
      | client i l => exact hok rfl
      | addClient i => exact hok rfl
      | removeClient i => exact hok rfl
      | loopBegin => exact hok rfl
      | loopEnd => exact hok rfl

/-- On TCP sockets closing the server is safe in every run. -/
theorem tcp_safe (labels : List Label) : Always step Safe (start false) labels := by
  have hmeets : Meets step (fun _ _ => True) (start false) labels := meets_true _ _
  refine always_of_meets (I := fun s => s.Locked ∧ s.relocked = false ∧ s.websocket = false ∧
    ∀ c ∈ s.infos, c.Upright) ?_ ?_ ⟨start_locked false, rfl, rfl, ?_⟩ hmeets
  · rintro s ⟨hl, hr, -⟩
    exact ⟨hr, hl.looping⟩
  · rintro s l t ⟨hl, hr, hw, hu⟩ - hs
    obtain ⟨hw', hu'⟩ := step_tcp hw hu hs
    refine ⟨step_locked hl hs, ?_, hw', hu'⟩
    by_cases he : l = .loopNext
    · subst he
      refine (hl.relocked_iff hs).mpr ?_
      obtain ⟨i, rest, c, hloop, hc, -, -⟩ := loopNext_spec hs
      have hup := hu c (List.mem_of_getElem? hc)
      simp only [gentle, hloop, hc, Option.all_some, List.head?_cons, Bool.or_eq_true]
      rcases Bool.eq_false_or_eq_true c.initiateClose with hi | hi
      · exact .inr hi
      · exact .inl (hup.readable hi)
    · rw [relocked_step he hs]
      exact hr
  · intro c hc
    cases hc

/-- A websocket client whose handshake is not done: closing the server, the thread of
`safe_loop` asks for the lock it holds. -/
theorem handshake_relocks :
    ∃ s, run step (start true) [.accept, .addClient 0, .loopBegin, .loopNext] = some s ∧
      ¬ s.Safe := by
  have h : ∃ s, run step (start true) [.accept, .addClient 0, .loopBegin, .loopNext] = some s ∧
      s.relocked = true := exists_run_of_any (by decide +kernel)
  obtain ⟨s, hr, hl⟩ := h
  exact ⟨s, hr, fun hs => absurd (hl.symm.trans hs.1) (by decide)⟩

/-! ## The list of clients -/

/-- No operation is pending. -/
def quiet (s : ServerSocket) : Bool := s.looping.isNone && s.infos.all Client.quiet

/-- When nothing is pending the list has the open clients, each once; no clean-up handler
was ever called twice. -/
def Accurate (s : ServerSocket) : Prop :=
  (s.quiet = true →
    (∀ i, i ∈ s.clients ↔ ∃ c, s.infos[i]? = some c ∧ c.opened = true) ∧ s.clients.Nodup) ∧
  ∀ c ∈ s.infos, c.cleaned ≤ 1

/-- The condition on a step. -/
def regular (s : ServerSocket) : Label → Bool
  | .client i l => s.infos[i]?.all fun c => c.regular l
  | _ => true

/-- The list against what the clients tell. -/
structure Listed (s : ServerSocket) : Prop where
  tidy : ∀ c ∈ s.infos, c.Tidy
  mem : ∀ i, i ∈ s.clients ↔ ∃ c, s.infos[i]? = some c ∧ c.listed = true
  nodup : s.clients.Nodup

theorem start_listed (websocket : Bool) : (start websocket).Listed where
  tidy c hc := by cases hc
  mem i := by simp [start]
  nodup := List.nodup_nil

theorem Listed.accurate (h : s.Listed) : s.Accurate := by
  refine ⟨fun hq => ⟨fun i => ?_, h.nodup⟩, fun c hc => ?_⟩
  · simp only [quiet, Bool.and_eq_true, List.all_eq_true] at hq
    rw [h.mem]
    constructor
    · intro hgiven
      obtain ⟨c, hc, hl⟩ := hgiven
      have hm := List.mem_of_getElem? hc
      exact ⟨c, hc, ((h.tidy c hm).listed_iff (hq.2 c hm)).mp hl⟩
    · intro hgiven
      obtain ⟨c, hc, ho⟩ := hgiven
      have hm := List.mem_of_getElem? hc
      exact ⟨c, hc, ((h.tidy c hm).listed_iff (hq.2 c hm)).mpr ho⟩
  · by_cases hn : c.cleaned = 0
    · omega
    · exact Nat.le_of_eq ((h.tidy c hc).cleaned hn).1

/-- What is listed after the update of one client. -/
theorem listed_setClient {i : Nat} {c d : Client} (hc : s.infos[i]? = some c) (j : Nat) :
    (∃ e, (s.setClient i d).infos[j]? = some e ∧ e.listed = true) ↔
      (j = i ∧ d.listed = true) ∨ (j ≠ i ∧ ∃ e, s.infos[j]? = some e ∧ e.listed = true) := by
  have hi : i < s.infos.length := (List.getElem?_eq_some_iff.mp hc).1
  by_cases hj : j = i
  · subst hj
    simp [setClient, hi]
  · simp [setClient, hj, List.getElem?_set_ne (Ne.symm hj)]

theorem tidy_setClient {i : Nat} {d : Client} (h : s.Listed) (hd : d.Tidy) :
    ∀ e ∈ (s.setClient i d).infos, e.Tidy := by
  intro e he
  rcases List.mem_or_eq_of_mem_set he with he | rfl
  · exact h.tidy e he
  · exact hd

/-- An update that leaves the client where it is. -/
theorem Listed.setClient (h : s.Listed) {i : Nat} {c d : Client} (hc : s.infos[i]? = some c)
    (hd : d.Tidy) (hl : d.listed = c.listed) : (s.setClient i d).Listed where
  tidy := tidy_setClient h hd
  mem j := by
    rw [listed_setClient hc]
    change j ∈ s.clients ↔ _
    rw [h.mem]
    by_cases hj : j = i
    · subst hj
      simp [hc, hl]
    · simp [hj]
  nodup := h.nodup

theorem Listed.mono (h : s.Listed) (hi : t.infos = s.infos) (hc : t.clients = s.clients) :
    t.Listed where
  tidy := by rw [hi]; exact h.tidy
  mem := by rw [hi, hc]; exact h.mem
  nodup := by rw [hc]; exact h.nodup

theorem Listed.accept (h : s.Listed) :
    Listed { s with infos := s.infos ++ [Client.accepted s.websocket] } where
  tidy c hc := by
    rcases List.mem_append.mp hc with hc | hc
    · exact h.tidy c hc
    · rw [List.mem_singleton.mp hc]
      exact Client.accepted_tidy _
  mem i := by
    change i ∈ s.clients ↔ _
    rw [h.mem]
    constructor
    · intro hgiven
      obtain ⟨c, hc, hl⟩ := hgiven
      refine ⟨c, ?_, hl⟩
      rw [List.getElem?_append_left (List.getElem?_eq_some_iff.mp hc).1]
      exact hc
    · intro hgiven
      obtain ⟨c, hc, hl⟩ := hgiven
      by_cases hi : i < s.infos.length
      · rw [List.getElem?_append_left hi] at hc
        exact ⟨c, hc, hl⟩
      · -- the new client is not on the list yet
        have hm : c = Client.accepted s.websocket := by
          rw [List.getElem?_append_right (by omega)] at hc
          exact List.mem_singleton.mp (List.mem_of_getElem? hc)
        rw [hm] at hl
        cases hl
  nodup := h.nodup

theorem Listed.addClient (h : s.Listed) {i : Nat} (hs : s.addClient i = some t) : t.Listed := by
  obtain ⟨c, hc, -, hn, rfl⟩ := addClient_spec hs
  have ht := h.tidy c (List.mem_of_getElem? hc)
  have hnot : i ∉ s.clients := by
    rw [h.mem]
    intro hgiven
    obtain ⟨e, he, hl⟩ := hgiven
    rw [hc, Option.some.injEq] at he
    subst he
    simp [Client.listed, hn] at hl
  have hz : c.cleaned = 0 := by
    by_contra hz
    exact absurd (hn.symm.trans (ht.installed hz)) (by decide)
  refine ⟨tidy_setClient h (ht.added hz), ?_, ?_⟩
  · intro j
    change j ∈ s.clients ++ [i] ↔ _
    rw [List.mem_append, List.mem_singleton, h.mem, listed_setClient hc]
    by_cases hj : j = i
    · simp [hj, Client.listed, hz]
    · simp [hj]
  · change (s.clients ++ [i]).Nodup
    exact List.nodup_append.mpr ⟨h.nodup, List.nodup_singleton i,
      fun x hx y hy hxy => hnot (List.mem_singleton.mp hy ▸ hxy ▸ hx)⟩

theorem Listed.removeClient (h : s.Listed) {i : Nat} (hs : s.removeClient i = some t) :
    t.Listed := by
  obtain ⟨c, hc, -, hn, rfl⟩ := removeClient_spec hs
  have ht := h.tidy c (List.mem_of_getElem? hc)
  have hone := ht.cleaning hn
  have ht' : Client.Tidy { c with cleaning := false } :=
    ⟨ht.fresh, ht.settled, ht.closing, nofun, ht.cleaned, ht.installed, ht.opened⟩
  refine ⟨tidy_setClient h ht', ?_, h.nodup.erase i⟩
  intro j
  change j ∈ s.clients.erase i ↔ _
  rw [h.nodup.mem_erase_iff, h.mem, listed_setClient hc]
  by_cases hj : j = i
  · simp [hj, Client.listed, hone]
  · simp [hj]

theorem Listed.loopNext (h : s.Listed) (hk : s.Locked) (hs : s.loopNext = some t) : t.Listed := by
  obtain ⟨i, rest, c, hl, hc, -, rfl⟩ := loopNext_spec hs
  have ht := h.tidy c (List.mem_of_getElem? hc)
  have hd : c.close.Tidy := ht.close c.closeDue (by simp [hk.next hl hc])
  have hset : (s.setClient i c.close).Listed :=
    h.setClient hc hd (Client.listed_close ht c.closeDue)
  exact hset.mono rfl rfl

theorem step_listed {l : Label} (h : s.Listed) (hk : s.Locked) (hr : s.regular l = true)
    (hs : s.step l = some t) : t.Listed := by
  cases l with
  | accept =>
    cases hs
    exact h.accept
  | client i l =>
    obtain ⟨c, d, hc, hd, rfl⟩ := clientStep_spec hs
    have ht := h.tidy c (List.mem_of_getElem? hc)
    have hreg : c.regular l = true := by simpa [regular, hc] using hr
    exact h.setClient hc (Client.step_tidy ht hreg hd) (Client.step_listed ht hd)
  | addClient i => exact h.addClient hs
  | removeClient i => exact h.removeClient hs
  | loopBegin =>
    obtain rfl := loopBegin_spec hs
    exact h.mono rfl rfl
  | loopNext => exact h.loopNext hk hs
  | loopEnd =>
    obtain rfl := loopEnd_spec hs
    exact h.mono rfl rfl

/-- **The list of clients** is that of the open ones whenever nothing is pending, in the runs in
which `Prepare` fails for clients only that are being closed and every client is registered
before its clean-up handler is due. -/
theorem run_accurate (websocket : Bool) (labels : List Label)
    (h : Meets step (fun s l => s.regular l = true) (start websocket) labels) :
    Always step Accurate (start websocket) labels :=
  always_of_meets (I := fun s => s.Listed ∧ s.Locked) (fun _ h => h.1.accurate)
    (fun _ _ _ h hr hs => ⟨step_listed h.1 h.2 hr hs, step_locked h.2 hs⟩)
    ⟨start_listed websocket, start_locked websocket⟩ h

/-- Two clients: one agrees on a key and stays, the other is refused, and closed twice. -/
def visits : List Label :=
  [.accept, .addClient 0, .client 0 (.prepared true true), .client 0 .startRecv,
    .client 0 (.exchanged .agreed), .accept, .client 1 (.prepared true true), .addClient 1,
    .client 1 .startRecv, .client 1 (.exchanged .refused), .client 1 .closeNext, .client 1 .close,
    .client 1 .closed, .removeClient 1]

theorem run_accurate_visits :
    Always step Accurate (start true) visits ∧
      ∃ s, run step (start true) visits = some s ∧ s.quiet = true ∧ s.clients = [0] := by
  refine ⟨run_accurate true visits (by decide +kernel), ?_⟩
  exact exists_run_of_any (by decide +kernel)

/-- A client whose handshake fails stays on the list. -/
theorem failed_prepare_stays :
    ∃ s, run step (start true) [.accept, .addClient 0, .client 0 (.prepared false true)] = some s ∧
      s.quiet = true ∧ s.clients = [0] ∧ ¬ s.Accurate := by
  have h : ∃ s, run step (start true) [.accept, .addClient 0, .client 0 (.prepared false true)] =
      some s ∧ s.quiet = true ∧ s.clients = [0] ∧ ∀ c ∈ s.infos, c.opened = false :=
    exists_run_of_any (by decide +kernel)
  obtain ⟨s, hr, hq, hc, ho⟩ := h
  refine ⟨s, hr, hq, hc, fun ha => ?_⟩
  obtain ⟨c, hi, hopen⟩ := ((ha.1 hq).1 0).mp (by rw [hc]; exact List.mem_singleton.mpr rfl)
  rw [ho c (List.mem_of_getElem? hi)] at hopen
  cases hopen

end ServerSocket
end DrgbServer.Network
