import DrgbServer.Match.Streams

/-! # The numbers on a stream

A battle server sends plain numbers: its machine id, then a flag and a usage for every transfer.
`SessionStream` reads them in turns, with nothing to tell one from the other. `Recorder` keeps
what is sent on each stream and what its handler stores, and `run_inStep` says that the two stay
in step over every run. -/
namespace DrgbServer.Match
open DrgbServer.Utils DrgbServer.Battle DrgbServer.Lib.Transition

/-- A value a handler stores. -/
inductive Store where
  /-- in `Recent_Success` -/
  | success (value : Int)
  /-- in `streams`, by `InsertLKeyValue` -/
  | usage (id : Seed) (value : Nat)
deriving DecidableEq

/-- The transfers a battle server has served on a stream, in order. -/
def System.events (s : System) (k : StreamId) : List Served :=
  (s.served.filter fun e => e.transfer.stream = k).reverse

/-- A system with the numbers sent and the values stored on each stream. -/
structure Recorder where
  system : System
  sent : StreamId → List Nat
  stored : StreamId → List Store

namespace Recorder

def start (battles : BattleId → MyBattle) : Recorder := ⟨System.start battles, fun _ => [], fun _ => []⟩

/-- What is sent: the machine id on a new stream, the numbers of an answer. -/
def sending (machineId : BattleId → Nat) (r : Recorder) (t : System) : Label → StreamId → List Nat
  | .connect battle => Function.update r.sent r.system.links.length [machineId battle]
  | .serve k _ => Function.update r.sent k (r.sent k ++ (t.served.head?.map (·.outcome.1)).getD [])
  | _ => r.sent

/-- What is stored: the flag, the usage, and the 0 in place of a usage that does not come. -/
def storing (r : Recorder) (t : System) : Label → StreamId → List Store
  | .connect _ => Function.update r.stored r.system.links.length []
  | .storeFlag k => Function.update r.stored k (r.stored k ++ [.success t.recentSuccess])
  | .readUsage k => match r.system.links[k]? with
    | some ⟨_, .holding id, _, msg :: _⟩ =>
      Function.update r.stored k (r.stored k ++ [.usage id msg.usage])
    | _ => r.stored
  | .lost k => match r.system.links[k]? with
    | some ⟨_, .holding _, _, _⟩ =>
      Function.update r.stored k (r.stored k ++ [.success t.recentSuccess])
    | _ => r.stored
  | _ => r.stored

def step (machineId : BattleId → Nat) (r : Recorder) (l : Label) : Option Recorder :=
  (r.system.step machineId l).map fun t => ⟨t, r.sending machineId t l, r.storing t l⟩

end Recorder

/-! ## The pairs -/

/-- The handler is past its loop. -/
def HandlerPc.ended : HandlerPc → Bool
  | .leaving _ | .returned => true
  | _ => false

section Pairs
variable (wire : Nat → Nat)

/-- The numbers of the answers, with counts as they go over the wire. -/
def numbers (es : List Served) : List Nat := es.flatMap fun e => [e.flag, wire e.count]

/-- The stores the answers are for. -/
def stores (id : Seed) (es : List Served) : List Store :=
  es.flatMap fun e => [.success e.flag, .usage id (wire e.count)]

/-- The stores break off inside a pair, and the flag is replaced by 0. -/
def BrokenOff (id : Seed) (es : List Served) (stored : List Store) : Prop :=
  ∃ done e todo, es = done ++ e :: todo ∧
    stored = stores wire id done ++ [.success e.flag, .success 0]

/-- **In step**: the numbers sent on a stream are one machine id and one pair per transfer; the
handler stores them in order, flags of 0 or 1 in `Recent_Success` and counts under its id. -/
structure InStep (machineId : BattleId → Nat) (r : Recorder) (k : StreamId) (link : Link) :
    Prop where
  sent : r.sent k = machineId link.battle :: numbers wire (r.system.events k)
  flags : ∀ e ∈ r.system.events k, e.flag = 0 ∨ e.flag = 1
  stored : r.stored k <+: stores wire (System.serverId machineId link.battle) (r.system.events k) ∨
    link.pc.ended = true ∧
      BrokenOff wire (System.serverId machineId link.battle) (r.system.events k) (r.stored k)
  caughtUp : ∀ id, link.pc = .reading id → link.toMatch = [] →
    r.stored k = stores wire (System.serverId machineId link.battle) (r.system.events k)

@[simp] theorem numbers_nil : numbers wire [] = [] := rfl

@[simp] theorem numbers_cons (e : Served) (es : List Served) :
    numbers wire (e :: es) = e.flag :: wire e.count :: numbers wire es := rfl

@[simp] theorem numbers_append (es fs : List Served) :
    numbers wire (es ++ fs) = numbers wire es ++ numbers wire fs := List.flatMap_append

@[simp] theorem stores_cons (id : Seed) (e : Served) (es : List Served) :
    stores wire id (e :: es) =
      .success e.flag :: .usage id (wire e.count) :: stores wire id es := rfl

@[simp] theorem stores_append (id : Seed) (es fs : List Served) :
    stores wire id (es ++ fs) = stores wire id es ++ stores wire id fs := List.flatMap_append

variable {wire}

theorem eq_nil_of_numbers {es : List Served} (h : numbers wire es = []) : es = [] := by
  cases es with
  | nil => rfl
  | cons e es => cases h

theorem BrokenOff.append {id : Seed} {es : List Served} {stored : List Store}
    (h : BrokenOff wire id es stored) (fs : List Served) : BrokenOff wire id (es ++ fs) stored := by
  obtain ⟨done, e, todo, rfl, hs⟩ := h
  exact ⟨done, e, todo ++ fs, by simp, hs⟩

end Pairs

/-! ## The reader -/

section Reader
variable (machineId : BattleId → Nat)

/-- The counts on the wire: the field of `Usage` has 32 bits. -/
def field (count : Nat) : Nat := count % 2 ^ 32

/-- Where the handler stands in the pairs: what it has stored is for the transfers `done`, and
what it has still to read is for the others. -/
def Reads (link : Link) (es : List Served) (stored : List Store) : Prop :=
  let id := System.serverId machineId link.battle
  let unread := link.toMatch.map fun msg => msg.usage
  match link.pc with
  | .entered => stored = [] ∧ unread = machineId link.battle :: numbers field es
  | .named i => i = id ∧ stored = [] ∧ unread = numbers field es
  | .reading i => i = id ∧ ∃ done todo, es = done ++ todo ∧ stored = stores field id done ∧
      unread = numbers field todo
  | .locking i msg => i = id ∧ ∃ done e todo, es = done ++ e :: todo ∧
      stored = stores field id done ∧ msg.usage = e.flag ∧
      unread = field e.count :: numbers field todo
  | .holding i => i = id ∧ ∃ done e todo, es = done ++ e :: todo ∧
      stored = stores field id done ++ [.success e.flag] ∧
      unread = field e.count :: numbers field todo
  | .leaving _ | .returned => stored <+: stores field id es ∨ BrokenOff field id es stored

variable {machineId} {link : Link} {es : List Served} {stored : List Store}

/-- An answer adds its numbers to what is to be read, wherever the handler stands. -/
theorem Reads.serve (h : Reads machineId link es stored) {e : Served} {answer : List Usage}
    (toBattle : List Transfer) (ha : answer.map (fun msg => msg.usage) = e.outcome.1) :
    Reads machineId { link with toBattle, toMatch := link.toMatch ++ answer } (es ++ [e])
      stored := by
  obtain ⟨battle, pc, old, toMatch⟩ := link
  rw [e.outcome_pair.1] at ha
  have happ : (toMatch ++ answer).map (fun msg => msg.usage) =
      toMatch.map (fun msg => msg.usage) ++ numbers field [e] := by
    rw [List.map_append, ha]
    rfl
  cases pc with
  | entered =>
    obtain ⟨hs, hu⟩ := h
    refine ⟨hs, ?_⟩
    rw [happ, hu]
    simp
  | named i =>
    obtain ⟨hi, hs, hu⟩ := h
    refine ⟨hi, hs, ?_⟩
    rw [happ, hu]
    simp
  | reading i =>
    obtain ⟨hi, done, todo, rfl, hs, hu⟩ := h
    refine ⟨hi, done, todo ++ [e], by simp, hs, ?_⟩
    rw [happ, hu]
    simp
  | locking i msg =>
    obtain ⟨hi, done, e', todo, rfl, hs, hm, hu⟩ := h
    refine ⟨hi, done, e', todo ++ [e], by simp, hs, hm, ?_⟩
    rw [happ, hu]
    simp
  | holding i =>
    obtain ⟨hi, done, e', todo, rfl, hs, hu⟩ := h
    refine ⟨hi, done, e', todo ++ [e], by simp, hs, ?_⟩
    rw [happ, hu]
    simp
  | leaving i =>
    rcases h with h | h
    · exact .inl (h.trans (by simp))
    · exact .inr (h.append [e])
  | returned =>
    rcases h with h | h
    · exact .inl (h.trans (by simp))
    · exact .inr (h.append [e])

/-- What the position of the handler says about what it has stored. -/
theorem Reads.inOrder (h : Reads machineId link es stored) :
    stored <+: stores field (System.serverId machineId link.battle) es ∨
      link.pc.ended = true ∧
        BrokenOff field (System.serverId machineId link.battle) es stored := by
  obtain ⟨battle, pc, toBattle, toMatch⟩ := link
  cases pc with
  | entered =>
    rw [h.1]
    exact .inl List.nil_prefix
  | named i =>
    rw [h.2.1]
    exact .inl List.nil_prefix
  | reading i =>
    obtain ⟨-, done, todo, rfl, rfl, -⟩ := h
    exact .inl (by simp)
  | locking i msg =>
    obtain ⟨-, done, e, todo, rfl, rfl, -⟩ := h
    exact .inl (by simp)
  | holding i =>
    obtain ⟨-, done, e, todo, rfl, rfl, -⟩ := h
    exact .inl (by simp [List.prefix_append_right_inj])
  | leaving i =>
    rcases h with h | h
    · exact .inl h
    · exact .inr ⟨rfl, h⟩
  | returned =>
    rcases h with h | h
    · exact .inl h
    · exact .inr ⟨rfl, h⟩

end Reader

namespace Recorder
variable {machineId : BattleId → Nat} {r : Recorder}

/-- Every stream has carried a machine id and the pairs, and its handler has read a part of it. -/
def Logged (machineId : BattleId → Nat) (r : Recorder) : Prop :=
  ∀ (k : StreamId) (link : Link), r.system.links[k]? = some link →
    r.sent k = machineId link.battle :: numbers field (r.system.events k) ∧
      Reads machineId link (r.system.events k) (r.stored k)

theorem start_logged (battles : BattleId → MyBattle) : Logged machineId (start battles) := by
  intro k link h
  simp [start, System.start] at h

theorem Logged.inStep (h : Logged machineId r) {k : StreamId} {link : Link}
    (hk : r.system.links[k]? = some link) : InStep field machineId r k link := by
  obtain ⟨hsent, hreads⟩ := h k link hk
  refine ⟨hsent, ?_, hreads.inOrder, ?_⟩
  · intro e _
    have hle := e.outcome_pair.2
    omega
  · intro id hpc hm
    rw [Reads, hpc, hm] at hreads
    obtain ⟨-, done, todo, he, hs, hu⟩ := hreads
    have htodo := eq_nil_of_numbers hu.symm
    rw [htodo, List.append_nil] at he
    rw [he]
    exact hs

theorem events_congr {s t : System} (h : t.served = s.served) : t.events = s.events := by
  funext k
  rw [System.events, System.events, h]

/-- A step that touches no link and serves nothing. -/
theorem Logged.congr (h : Logged machineId r) {t : System} (hl : t.links = r.system.links)
    (hv : t.served = r.system.served) : Logged machineId ⟨t, r.sent, r.stored⟩ := by
  unfold Logged
  dsimp only
  rw [hl, events_congr hv]
  exact h

/-- A step of one handler: the others have sent, stored and to read what they had. -/
theorem Logged.setLink (h : Logged machineId r) {t : System} {k : StreamId} {link link' : Link}
    {stored : StreamId → List Store} (hk : r.system.links[k]? = some link)
    (hl : t.links = (r.system.setLink k link').links) (hv : t.served = r.system.served)
    (hb : link'.battle = link.battle) (hs : ∀ j ≠ k, stored j = r.stored j)
    (hr : Reads machineId link' (r.system.events k) (stored k)) :
    Logged machineId ⟨t, r.sent, stored⟩ := by
  intro j x hj
  dsimp only at hj ⊢
  rw [hl] at hj
  rw [events_congr hv]
  rcases System.links_setLink hk hj with ⟨rfl, rfl⟩ | ⟨hne, hj⟩
  · rw [hb]
    exact ⟨(h j link hk).1, hr⟩
  · rw [hs j hne]
    exact h j x hj

/-- A step of one handler that stores nothing. -/
theorem Logged.setLink_quiet (h : Logged machineId r) {t : System} {k : StreamId}
    {link link' : Link} (hk : r.system.links[k]? = some link)
    (hl : t.links = (r.system.setLink k link').links) (hv : t.served = r.system.served)
    (hb : link'.battle = link.battle)
    (hr : Reads machineId link (r.system.events k) (r.stored k) →
      Reads machineId link' (r.system.events k) (r.stored k)) :
    Logged machineId ⟨t, r.sent, r.stored⟩ :=
  h.setLink hk hl hv hb (fun _ _ => rfl) (hr (h k link hk).2)

/-- A step of one handler that stores one more value. -/
theorem Logged.setLink_store (h : Logged machineId r) {t : System} {k : StreamId}
    {link link' : Link} {value : Store} (hk : r.system.links[k]? = some link)
    (hl : t.links = (r.system.setLink k link').links) (hv : t.served = r.system.served)
    (hb : link'.battle = link.battle)
    (hr : Reads machineId link (r.system.events k) (r.stored k) →
      Reads machineId link' (r.system.events k) (r.stored k ++ [value])) :
    Logged machineId ⟨t, r.sent, Function.update r.stored k (r.stored k ++ [value])⟩ := by
  refine h.setLink hk hl hv hb (fun j hj => Function.update_of_ne hj _ _) ?_
  rw [Function.update_self]
  exact hr (h k link hk).2

/-! ## The steps -/

theorem connect_logged (hp : r.system.Placed) (h : Logged machineId r) (battle : BattleId) :
    Logged machineId ⟨r.system.connect machineId battle,
      Function.update r.sent r.system.links.length [machineId battle],
      Function.update r.stored r.system.links.length []⟩ := by
  intro k link hk
  dsimp only at hk ⊢
  have he : (r.system.connect machineId battle).events = r.system.events := rfl
  rw [he]
  rw [System.connect, List.getElem?_append] at hk
  split at hk
  · rename_i hlt
    rw [Function.update_of_ne (Nat.ne_of_lt hlt), Function.update_of_ne (Nat.ne_of_lt hlt)]
    exact h k link hk
  · rename_i hge
    have hlt := (List.getElem?_eq_some_iff.mp hk).1
    rw [List.length_singleton] at hlt
    have hlen : k = r.system.links.length := Nat.le_antisymm (by omega) (by omega)
    subst hlen
    -- nothing was served on a stream that was not there
    have hnone : r.system.events r.system.links.length = [] := by
      rw [System.events, List.reverse_eq_nil_iff, List.filter_eq_nil_iff]
      intro e hm hst
      obtain ⟨x, hx, -⟩ := hp.origin e hm
      rw [of_decide_eq_true hst, List.getElem?_eq_none (le_refl _)] at hx
      cases hx
    rw [Nat.sub_self, List.getElem?_cons_zero] at hk
    cases hk
    rw [Function.update_self, Function.update_self, hnone]
    refine ⟨rfl, ?_⟩
    unfold Reads
    dsimp only
    by_cases hfull : r.system.streams.size ≥ 2 ^ 31 - 2
    · rw [if_pos hfull]
      exact .inl List.nil_prefix
    · rw [if_neg hfull]
      exact ⟨rfl, rfl⟩

theorem readId_logged (h : Logged machineId r) {k : StreamId} {t : System}
    (hs : r.system.readId k = some t) : Logged machineId ⟨t, r.sent, r.stored⟩ := by
  obtain ⟨battle, toBattle, msg, toMatch, hk, rfl⟩ := System.readId_cases hs
  refine h.setLink_quiet hk rfl rfl rfl ?_
  intro hgiven
  obtain ⟨hst, hu⟩ := hgiven
  obtain ⟨hm, hu⟩ := List.cons.inj hu
  have hm : msg.usage = machineId battle := hm
  by_cases hfound : (r.system.streams.findLKey (toInt msg.usage)).isSome = true
  · rw [if_pos hfound]
    exact .inl (by rw [hst]; exact List.nil_prefix)
  · rw [if_neg hfound]
    exact ⟨by rw [hm]; rfl, hst, hu⟩

theorem insert_logged (h : Logged machineId r) {k : StreamId} {t : System}
    (hs : r.system.insert k = some t) : Logged machineId ⟨t, r.sent, r.stored⟩ := by
  obtain ⟨_, _, _, _, hk, rfl⟩ := System.insert_cases hs
  refine h.setLink_quiet hk rfl rfl rfl ?_
  intro hgiven
  obtain ⟨hid, hst, hu⟩ := hgiven
  exact ⟨hid, [], _, rfl, hst, hu⟩

theorem readFlag_logged (h : Logged machineId r) {k : StreamId} {t : System}
    (hs : r.system.readFlag k = some t) : Logged machineId ⟨t, r.sent, r.stored⟩ := by
  obtain ⟨_, _, _, _, _, hk, rfl⟩ := System.readFlag_cases hs
  refine h.setLink_quiet hk rfl rfl rfl ?_
  intro hgiven
  obtain ⟨hid, done, todo, he, hst, hu⟩ := hgiven
  -- the numbers left are those of the next transfer and the rest
  cases todo with
  | nil => cases hu
  | cons e todo =>
    obtain ⟨hm, hu⟩ := List.cons.inj hu
    exact ⟨hid, done, e, todo, he, hst, hm, hu⟩

theorem storeFlag_logged (h : Logged machineId r) {k : StreamId} {t : System}
    (hs : r.system.storeFlag k = some t) :
    Logged machineId
      ⟨t, r.sent, Function.update r.stored k (r.stored k ++ [.success t.recentSuccess])⟩ := by
  obtain ⟨-, _, _, _, _, _, hk, rfl⟩ := System.storeFlag_cases hs
  refine h.setLink_store hk rfl rfl rfl ?_
  intro hgiven
  obtain ⟨hid, done, e, todo, he, hst, hm, hu⟩ := hgiven
  refine ⟨hid, done, e, todo, he, ?_, hu⟩
  have hle := e.outcome_pair.2
  rw [hst, hm, toInt_of_lt (by omega)]

theorem readUsage_logged (h : Logged machineId r) {k : StreamId} {t : System}
    (hs : r.system.readUsage k = some t) :
    Logged machineId ⟨t, r.sent, r.storing t (.readUsage k)⟩ := by
  obtain ⟨battle, id, toBattle, msg, toMatch, hk, rfl⟩ := System.readUsage_cases hs
  simp only [storing, hk]
  refine h.setLink_store hk rfl rfl rfl ?_
  intro hgiven
  obtain ⟨hid, done, e, todo, he, hst, hu⟩ := hgiven
  obtain ⟨hm, hu⟩ := List.cons.inj hu
  have hm : msg.usage = field e.count := hm
  have hid : id = System.serverId machineId battle := hid
  refine ⟨hid, done ++ [e], todo, by rw [he]; simp, ?_, hu⟩
  rw [hst, hm, hid]
  simp [stores]

theorem lost_logged (h : Logged machineId r) {k : StreamId} {t : System}
    (hs : r.system.lost k = some t) : Logged machineId ⟨t, r.sent, r.storing t (.lost k)⟩ := by
  rcases System.lost_cases hs with ⟨_, _, _, hk, rfl⟩ | ⟨_, _, _, _, hk, rfl⟩ |
    ⟨_, _, _, _, hk, rfl⟩
  · simp only [storing, hk]
    refine h.setLink_quiet hk rfl rfl rfl ?_
    intro hgiven
    obtain ⟨hst, -⟩ := hgiven
    exact .inl (by rw [hst]; exact List.nil_prefix)
  · simp only [storing, hk]
    refine h.setLink_quiet hk rfl rfl rfl ?_
    intro hgiven
    obtain ⟨-, done, todo, he, hst, -⟩ := hgiven
    exact .inl (by rw [hst, he]; simp)
  · simp only [storing, hk]
    refine h.setLink_store hk rfl rfl rfl ?_
    intro hgiven
    obtain ⟨-, done, e, todo, he, hst, -⟩ := hgiven
    exact .inr ⟨done, e, todo, he, by rw [hst]; simp⟩

theorem erase_logged (h : Logged machineId r) {k : StreamId} {t : System}
    (hs : r.system.erase k = some t) : Logged machineId ⟨t, r.sent, r.stored⟩ := by
  obtain ⟨_, _, _, _, hk, rfl⟩ := System.erase_cases hs
  exact h.setLink_quiet hk rfl rfl rfl fun hr => hr

theorem write_logged (h : Logged machineId r) {ok : Bool} {t : System}
    (hs : r.system.write ok = some t) : Logged machineId ⟨t, r.sent, r.stored⟩ := by
  obtain ⟨_, _, -, rfl | ⟨_, hk, rfl⟩⟩ := System.write_cases hs
  · exact h.congr rfl rfl
  · exact h.setLink_quiet hk rfl rfl rfl fun hr => hr

theorem drop_logged (h : Logged machineId r) {k : StreamId} {t : System}
    (hs : r.system.drop k = some t) : Logged machineId ⟨t, r.sent, r.stored⟩ := by
  obtain ⟨_, hk, rfl⟩ := System.drop_cases hs
  exact h.setLink_quiet hk rfl rfl rfl fun hr => hr

/-- The transfers served on the streams after one more. -/
theorem events_served {s t : System} {e : Served} (h : t.served = e :: s.served) (k : StreamId) :
    t.events k = if e.transfer.stream = k then s.events k ++ [e] else s.events k := by
  unfold System.events
  rw [h, List.filter_cons]
  by_cases hk : e.transfer.stream = k
  · simp [hk]
  · simp [hk]

theorem serve_logged (hp : r.system.Placed) (h : Logged machineId r) {k : StreamId}
    {answers : Answers} {t : System} (hs : r.system.serve k answers = some t) :
    Logged machineId ⟨t, r.sending machineId t (.serve k answers), r.stored⟩ := by
  obtain ⟨battle, pc, transfer, toBattle, toMatch, hk, rfl⟩ := System.serve_cases hs
  have hst : transfer.stream = k := hp.inFlight k _ hk transfer List.mem_cons_self
  intro j x hj
  dsimp only at hj ⊢
  rw [events_served rfl]
  rcases System.links_setLink hk hj with ⟨rfl, rfl⟩ | ⟨hne, hj⟩
  · obtain ⟨hsent, hreads⟩ := h j _ hk
    rw [if_pos hst]
    refine ⟨?_, hreads.serve toBattle (by simp [Function.comp_def])⟩
    simp only [sending, List.head?_cons, Option.map_some, Option.getD_some, Function.update_self]
    rw [hsent, Served.outcome_pair .. |>.1]
    simp [field]
  · rw [if_neg (by rw [hst]; exact Ne.symm hne)]
    simp only [sending, Function.update_of_ne hne]
    exact h j x hj

theorem step_logged {l : Label} {q : Recorder} (hp : r.system.Placed) (h : Logged machineId r)
    (hs : r.step machineId l = some q) : Logged machineId q := by
  obtain ⟨t, ht, rfl⟩ := Option.map_eq_some_iff.mp hs
  have hcaller (hc : (∃ lpid rpid, r.system.call lpid rpid = some t) ∨ r.system.choose = some t ∨
      r.system.endWait = some t ∨ r.system.check = some t) :
      Logged machineId ⟨t, r.sent, r.stored⟩ :=
    h.congr (System.caller_links hc).1 (System.caller_links hc).2
  cases l with
  | connect battle =>
    cases ht
    exact connect_logged hp h battle
  | readId k => exact readId_logged h ht
  | insert k => exact insert_logged h ht
  | readFlag k => exact readFlag_logged h ht
  | storeFlag k => exact storeFlag_logged h ht
  | readUsage k => exact readUsage_logged h ht
  | lost k => exact lost_logged h ht
  | erase k => exact erase_logged h ht
  | call lpid rpid => exact hcaller (.inl ⟨lpid, rpid, ht⟩)
  | choose => exact hcaller (.inr (.inl ht))
  | write ok => exact write_logged h ht
  | endWait => exact hcaller (.inr (.inr (.inl ht)))
  | check => exact hcaller (.inr (.inr (.inr ht)))
  | serve k answers => exact serve_logged hp h ht
  | battleRuns battle state =>
    cases ht
    exact h.congr rfl rfl
  | drop k => exact drop_logged h ht

/-! ## The usage in `streams` -/

/-- The usage stored last; the `Insert` of a stream stores 0. -/
def lastUsage (stored : List Store) : Nat :=
  stored.foldl (fun usage x => match x with | .usage _ value => value | .success _ => usage) 0

@[simp] theorem lastUsage_success (stored : List Store) (value : Int) :
    lastUsage (stored ++ [.success value]) = lastUsage stored := by
  simp [lastUsage]

@[simp] theorem lastUsage_usage (stored : List Store) (id : Seed) (value : Nat) :
    lastUsage (stored ++ [.usage id value]) = value := by
  simp [lastUsage]

/-- The usages in `streams` are those the handlers of the streams stored last. -/
def Tracks (r : Recorder) : Prop :=
  ∀ id k usage, r.system.streams.findLKey id = some (k, usage) → usage = lastUsage (r.stored k)

/-- Every handler past its `Insert` and not past its `EraseLKey` has its stream in `streams`, with
the usage it stored last. -/
def Kept (r : Recorder) : Prop :=
  ∀ id k, r.system.idOf k = some id →
    r.system.streams.findLKey id = some (k, lastUsage (r.stored k))

/-- No step but `InsertLKeyValue` changes what a handler stored last. -/
theorem lastUsage_storing {l : Label} {t : System} (hl : ∀ k, l ≠ .readUsage k) {j : StreamId}
    (hj : j < r.system.links.length) : lastUsage (r.storing t l j) = lastUsage (r.stored j) := by
  have hupdate (k : StreamId) (value : Int) :
      lastUsage (Function.update r.stored k (r.stored k ++ [.success value]) j) =
        lastUsage (r.stored j) := by
    by_cases hjk : j = k
    · rw [hjk, Function.update_self, lastUsage_success]
    · rw [Function.update_of_ne hjk]
  cases l with
  | connect battle => rw [storing, Function.update_of_ne (Nat.ne_of_lt hj)]
  | storeFlag k => exact hupdate k _
  | readUsage k => exact absurd rfl (hl k)
  | lost k =>
    simp only [storing]
    rcases r.system.links[k]? with _ | ⟨battle, pc, toBattle, toMatch⟩
    · rfl
    · cases pc with
      | holding id => exact hupdate k _
      | _ => rfl
  | _ => rfl

theorem lt_length_of_idOf {s : System} {k : StreamId} {id : Seed} (h : s.idOf k = some id) :
    k < s.links.length := by
  obtain ⟨link, hk, -⟩ := Option.bind_eq_some_iff.mp h
  exact (List.getElem?_eq_some_iff.mp hk).1

theorem readUsage_tracks (ho : r.system.Owned) (hr : r.system.Registered) (h : Tracks r)
    {k : StreamId} {t : System} (hs : r.system.readUsage k = some t) :
    Tracks ⟨t, r.sent, r.storing t (.readUsage k)⟩ := by
  obtain ⟨battle, id, toBattle, msg, toMatch, hk, rfl⟩ := System.readUsage_cases hs
  have hid : r.system.idOf k = some id := System.idOf_of_pc hk
  intro id' j usage hj
  rw [Table.findLKey_insertLKeyValue] at hj
  simp only [storing, hk]
  split at hj
  · rename_i he
    subst he
    obtain ⟨u, hu⟩ := hr id' k hid
    rw [hu] at hj
    cases hj
    rw [Function.update_self, lastUsage_usage]
  · rename_i hne
    have hjk : j ≠ k := by
      rintro rfl
      rw [ho id' j usage hj] at hid
      exact hne (Option.some.inj hid)
    rw [Function.update_of_ne hjk]
    exact h id' j usage hj

theorem step_tracks {l : Label} {q : Recorder} (hg : Logged machineId r) (ho : r.system.Owned)
    (hr : r.system.Registered) (h : Tracks r) (hs : r.step machineId l = some q) : Tracks q := by
  obtain ⟨t, ht, rfl⟩ := Option.map_eq_some_iff.mp hs
  have hold (hl : ∀ k, l ≠ .readUsage k) {id : Seed} {j : StreamId} {usage : Nat}
      (hj : r.system.streams.findLKey id = some (j, usage)) :
      usage = lastUsage (r.storing t l j) := by
    rw [lastUsage_storing hl (lt_length_of_idOf (ho id j usage hj))]
    exact h id j usage hj
  rcases System.step_streams ht with ⟨hst, -⟩ | ⟨k, link, id, rfl, hk, hpc, hst, -⟩ |
    ⟨k, id, usage, rfl, -⟩ | ⟨k, id, rfl, -, hst, -⟩
  · by_cases hl : ∃ k, l = .readUsage k
    · obtain ⟨k, rfl⟩ := hl
      exact readUsage_tracks ho hr h ht
    · intro id j usage hj
      have hj : t.streams.findLKey id = some (j, usage) := hj
      rw [hst] at hj
      exact hold (fun k hk => hl ⟨k, hk⟩) hj
  · intro id' j usage hj
    have hj : t.streams.findLKey id' = some (j, usage) := hj
    rw [hst] at hj
    rcases Table.findLKey_of_insert hj with ⟨rfl, rfl, rfl⟩ | hj
    · -- a handler before its `Insert` has stored nothing
      have hreads := (hg j link hk).2
      rw [Reads, hpc] at hreads
      show 0 = lastUsage (r.stored j)
      rw [hreads.2.1]
      rfl
    · exact hold (by simp) hj
  · exact readUsage_tracks ho hr h ht
  · intro id' j usage hj
    have hj : t.streams.findLKey id' = some (j, usage) := hj
    rw [hst, Table.findLKey_eraseLKey] at hj
    split at hj
    · cases hj
    · exact hold (by simp) hj

theorem kept_of_tracks (hr : r.system.Registered) (h : Tracks r) : Kept r := by
  intro id k hk
  obtain ⟨usage, hu⟩ := hr id k hk
  rw [← h id k usage hu]
  exact hu

/-- **The usage stream stays in step.** On every stream, at every moment of every run, the numbers
sent are one machine id and one pair per transfer, and the handler stores the flag and the count
of each transfer in order. Where the handlers find their ids vacant at their `Insert`, the count
stored last is the usage of the stream. -/
theorem run_inStep (machineId : BattleId → Nat) (battles : BattleId → MyBattle)
    (labels : List Label) :
    Always (step machineId) (fun r => ∀ k link, r.system.links[k]? = some link →
      InStep field machineId r k link) (start battles) labels ∧
    (Meets (step machineId) (fun r l => r.system.vacant l = true) (start battles) labels →
      Always (step machineId) Kept (start battles) labels) := by
  have hplaced {r q : Recorder} {l : Label} (hp : r.system.Placed)
      (hs : r.step machineId l = some q) : q.system.Placed := by
    obtain ⟨t, ht, rfl⟩ := Option.map_eq_some_iff.mp hs
    exact System.step_placed _ l t hp ht
  refine ⟨?_, ?_⟩
  · refine always_of_meets (I := fun r => r.system.Placed ∧ Logged machineId r) ?_ ?_
      ⟨System.start_placed battles, start_logged battles⟩ (meets_true _ labels)
    · intro r hi k link hk
      exact hi.2.inStep hk
    · intro r l q hi _ hs
      exact ⟨hplaced hi.1 hs, step_logged hi.1 hi.2 hs⟩
  · intro hv
    refine always_of_meets (I := fun r => (r.system.Placed ∧ Logged machineId r) ∧
      r.system.Owned ∧ r.system.Registered ∧ Tracks r) ?_ ?_
      ⟨⟨System.start_placed battles, start_logged battles⟩, System.start_owned battles,
        System.start_registered battles, ?_⟩ hv
    · rintro r ⟨-, -, hr, ht⟩
      exact kept_of_tracks hr ht
    · rintro r l q ⟨⟨hp, hg⟩, ho, hr, ht⟩ hl hs
      refine ⟨⟨hplaced hp hs, step_logged hp hg hs⟩, ?_, ?_, step_tracks hg ho hr ht hs⟩
      · obtain ⟨t, hst, rfl⟩ := Option.map_eq_some_iff.mp hs
        exact System.step_owned ho hst
      · obtain ⟨t, hst, rfl⟩ := Option.map_eq_some_iff.mp hs
        exact System.step_registered ho hr hl hst
    · intro id k usage h
      simp [start, System.start] at h

/-- One match, answered. -/
def oneMatch : List Label :=
  System.register 0 ++ [.call 10 20] ++ System.attempt ++ System.report 0 System.answering

theorem run_inStep_oneMatch : Always (step Nat.succ) Kept (start System.twoServers) oneMatch :=
  (run_inStep Nat.succ System.twoServers oneMatch).2 (by decide +kernel)

/-! ## Stores that differ from the counts

A battle server with 2^32 sessions sends the usage 0. `crowd` is a server after some matches, each
between two new accounts. -/

/-- A cookie for each account. -/
def cookieOf (id : Nat) : Hash := Vector.ofFn fun i => UInt8.ofNat (id / 256 ^ i.val)

theorem cookieOf_injective {i j : Nat} (hi : i < 2 ^ 40) (hj : j < 2 ^ 40)
    (h : cookieOf i = cookieOf j) : i = j := by
  have hdigit (d : Nat) (hd : d < 32) : i / 256 ^ d % 256 = j / 256 ^ d % 256 := by
    have hb := congrArg (fun cookie : Hash => (cookie[d]).toNat) h
    simpa [cookieOf] using hb
  have h0 := hdigit 0 (by decide)
  have h1 := hdigit 1 (by decide)
  have h2 := hdigit 2 (by decide)
  have h3 := hdigit 3 (by decide)
  have h4 := hdigit 4 (by decide)
  norm_num at h0 h1 h2 h3 h4 hi hj
  omega

/-- Redis and the database answer for accounts `2 * n + 1` and `2 * n + 2`. -/
def answersAt (n : Nat) : Answers :=
  ⟨⟨some (cookieOf (2 * n + 1), "match"), some (cookieOf (2 * n + 2), "match")⟩, true,
    ⟨.ok ⟨1, 0, 0, 0⟩, .ok ⟨1, 0, 0, 0⟩⟩⟩

/-- A battle server after `n` transfers. -/
def crowd : Nat → MyBattle
  | 0 => .start
  | n + 1 => ((crowd n).matchTransfer (2 * n + 1) (2 * n + 2) (answersAt n)).2

theorem crowd_succ {n : Nat} (hr : (crowd n).gamepool.isRunning = true) :
    ∃ infos, crowd (n + 1) = (crowd n).made (2 * n + 1) (2 * n + 2) (cookieOf (2 * n + 1))
      (cookieOf (2 * n + 2)) infos := by
  obtain ⟨infos, hd⟩ : ∃ infos, (answersAt n).playerInfos = .ok infos := ⟨_, rfl⟩
  refine ⟨infos, ?_⟩
  rw [crowd, MyBattle.matchTransfer_of_made (Nat.succ_ne_zero _) (Nat.succ_ne_zero _) hr rfl rfl hd]
  rfl

/-- The sessions of `n` accounts, each with its cookie. -/
structure Filled (t : Table AccountId Hash GameId) (n : Nat) : Prop where
  size : t.size = n
  entries : ∀ (id : Nat) cookie g, t.findLKey id = some (cookie, g) → id ≤ n ∧ cookie = cookieOf id

theorem Filled.insert {t : Table AccountId Hash GameId} {n : Nat} (h : Filled t n)
    (hn : n + 1 < 2 ^ 40) (g : GameId) : Filled (t.insert (n + 1) (cookieOf (n + 1)) g).2 (n + 1) := by
  have hins : (t.insert (n + 1) (cookieOf (n + 1)) g).1 = true := by
    refine Table.insert_fst.mpr ⟨?_, Table.findRKey_eq_none_iff.mpr ?_⟩
    · rw [Option.eq_none_iff_forall_ne_some]
      intro entry he
      exact absurd (h.entries _ _ _ he).1 (Nat.not_succ_le_self n)
    · intro id g he
      obtain ⟨hle, hcookie⟩ := h.entries id _ g he
      have heq := cookieOf_injective hn (by omega) hcookie
      omega
  constructor
  · rw [Table.size_insert hins, h.size]
  · intro id cookie g' he
    rcases Table.findLKey_of_insert he with ⟨rfl, rfl, -⟩ | he
    · exact ⟨le_refl _, rfl⟩
    · obtain ⟨hle, hcookie⟩ := h.entries id cookie g' he
      exact ⟨Nat.le_succ_of_le hle, hcookie⟩

theorem crowd_filled {n : Nat} (hn : n ≤ 2 ^ 31) :
    (crowd n).gamepool.isRunning = true ∧ Filled (crowd n).sessions (2 * n) := by
  induction n with
  | zero => exact ⟨rfl, rfl, by simp [crowd, MyBattle.start]⟩
  | succ n ih =>
    obtain ⟨hr, hf⟩ := ih (by omega)
    obtain ⟨infos, hc⟩ := crowd_succ hr
    rw [hc]
    refine ⟨hr, ?_⟩
    rw [MyBattle.sessions_made]
    exact (hf.insert (by omega) _).insert (by omega) _

/-- A server with a transfer for account 0 under way to it. -/
def offered (b : MyBattle) : Recorder where
  system := {
    streams := (Table.empty.insert 1 0 0).2
    links := [⟨0, .reading 1, [⟨0, 20, 0, 0⟩], []⟩]
    recentSuccess := -1
    mtx := none
    pc := .waiting ⟨0, 20, 0, []⟩ (1, 0, 0)
    battles := fun _ => b
    calls := 1
    served := []
    results := [] }
  sent := Function.update (fun _ => []) 0 [1]
  stored := Function.update (fun _ => []) 0 []

def zeroMatch : List Label := System.register 0 ++ [.call 0 20] ++ System.attempt

theorem run_offered (b : MyBattle) :
    run (step Nat.succ) (start fun _ => b) zeroMatch = some (offered b) := by
  have hid : toInt 1 = 1 := toInt_of_lt (by decide)
  have hempty : (Table.empty : Table Seed StreamId Nat).size = 0 := rfl
  have hall : (Table.insert Table.empty (1 : Seed) (0 : StreamId) 0).2.getAll = [(1, 0, 0)] := by
    decide +kernel
  simp [zeroMatch, System.register, System.attempt, run, step, System.step, start, System.start,
    System.connect, System.readId, hid, hempty, System.setLink, System.insert, System.call, hall,
    System.choose, System.minElement, System.write, sending, storing, Job.transfer, offered]

theorem report_offered (b : MyBattle) :
    ∃ r, run (step Nat.succ) (offered b) (System.report 0 System.answering) = some r ∧
      r.stored 0 = [.success 0, .usage 1 (b.sessions.size % 2 ^ 32)] ∧
      ∃ e, r.system.events 0 = [e] ∧ e.count = b.sessions.size := by
  have hflag : toInt 0 = 0 := toInt_of_lt (by decide)
  have hzero (a : Answers) : b.matchTransfer 0 20 a = b.setUsage 0 :=
    MyBattle.matchTransfer_of_zero (.inl rfl)
  simp [offered, System.report, run, step, System.step, System.setLink, System.serve,
    Served.outcome, hzero, MyBattle.setUsage, System.readFlag, System.storeFlag, System.readUsage,
    hflag, storing, System.events, Served.count]

/-- A number of sessions that does not fit the field is not what the handler stores. -/
theorem stored_ne_count {b : MyBattle} (hb : b.sessions.size % 2 ^ 32 ≠ b.sessions.size) :
    ∃ r, run (step Nat.succ) (start fun _ => b)
        (zeroMatch ++ System.report 0 System.answering) = some r ∧
      ¬ r.stored 0 <+: stores id 1 (r.system.events 0) := by
  obtain ⟨r, hr, hst, e, he, hc⟩ := report_offered b
  refine ⟨r, by rw [run_append, run_offered]; exact hr, ?_⟩
  rw [hst, he, stores_cons, hc, List.cons_prefix_cons, List.cons_prefix_cons]
  intro h
  obtain ⟨-, hu, -⟩ := h
  exact hb (Store.usage.inj hu).2

/-- The connection is lost after the flag of a match. -/
def brokenPair : List Label :=
  System.register 0 ++ [.call 10 20] ++ System.attempt ++
    [.serve 0 System.answering, .readFlag 0, .storeFlag 0, .lost 0]

/-- The connection ends between flag and usage, and the handler puts 0 over the flag; a server
with 2^32 sessions is stored with a usage of 0. -/
theorem stored_not_counts :
    (∃ r, run (step Nat.succ) (start System.twoServers) brokenPair = some r ∧
      ¬ r.stored 0 <+: stores id 1 (r.system.events 0)) ∧
    ∃ r, run (step Nat.succ) (start fun _ => crowd (2 ^ 31))
        (zeroMatch ++ System.report 0 System.answering) = some r ∧
      ¬ r.stored 0 <+: stores id 1 (r.system.events 0) := by
  refine ⟨exists_run_of_any (by decide +kernel), stored_ne_count ?_⟩
  rw [(crowd_filled (le_refl _)).2.size]
  decide

end Recorder
end DrgbServer.Match
