import DrgbServer.Match.MatchServiceServer

/-! # Whom `TransferMatch` credits

All streams report through `Recent_Success`, and a report names neither the server
nor the transfer. A call that returns a server is right about it when no positive
report of another transfer is stored between the reset of `Recent_Success` and the
test of it (`credits_answering_server`). The invariant says of each stream that the
messages on it are the machine id and then answers in pairs, so that the handler
stores flags and never usages. -/
namespace DrgbServer.Match
open DrgbServer.Utils DrgbServer.Battle DrgbServer.Lib.Transition

/-! ## Answers come in pairs -/

/-- Every path ends with one flag, 0 or 1, and one usage. -/
theorem matchTransfer_setUsage (b : MyBattle) (lpid rpid : AccountId) (a : Answers) :
    ∃ flag, ∃ after : MyBattle, flag ≤ 1 ∧ b.matchTransfer lpid rpid a = after.setUsage flag := by
  unfold MyBattle.matchTransfer
  split
  · exact ⟨0, _, by decide, rfl⟩
  · split
    · exact ⟨1, _, by decide, rfl⟩
    · dsimp only
      split
      · split
        · exact ⟨0, _, by decide, rfl⟩
        · exact ⟨1, _, by decide, rfl⟩
      · exact ⟨1, _, by decide, rfl⟩

/-- The number of sessions right after a transfer. -/
def Served.count (e : Served) : Nat := e.outcome.2.sessions.size

/-- An answer is a pair, its flag first. -/
theorem Served.outcome_pair (e : Served) :
    e.outcome.1 = [e.flag, e.count % 2 ^ 32] ∧ e.flag ≤ 1 := by
  obtain ⟨flag, after, hle, h⟩ :=
    matchTransfer_setUsage e.before e.transfer.lpid e.transfer.rpid e.answers
  have hf : flag % 2 ^ 32 = flag := Nat.mod_eq_of_lt (by omega)
  have ho : e.outcome = ([flag, after.sessions.size % 2 ^ 32], after) := by
    rw [Served.outcome, h, MyBattle.setUsage, hf]
  rw [Served.flag, Served.count, ho]
  exact ⟨rfl, hle⟩

namespace System
variable {machineId : BattleId → Nat} {s t : System}

/-! ## The invariant -/

/-- The message is the flag of an answer that was given. -/
def Honest (served : List Served) (flag : Usage) : Prop :=
  ∃ e ∈ served, flag.answers = some e.transfer ∧ flag.usage = e.flag

/-- Answers in pairs, flags first. -/
inductive Pairs (served : List Served) : List Usage → Prop where
  | nil : Pairs served []
  | cons {flag usage : Usage} {rest : List Usage} (h : Honest served flag)
      (hr : Pairs served rest) : Pairs served (flag :: usage :: rest)

/-- The id the handler goes by is the server's, and what it still has to read is in
step with where it stands. -/
def LinkOk (machineId : BattleId → Nat) (served : List Served) (link : Link) : Prop :=
  match link.pc with
  | .entered => ∃ rest, link.toMatch = ⟨machineId link.battle, none⟩ :: rest ∧ Pairs served rest
  | .named id | .reading id => id = serverId machineId link.battle ∧ Pairs served link.toMatch
  | .locking id msg => id = serverId machineId link.battle ∧ Honest served msg ∧
      ∃ usage rest, link.toMatch = usage :: rest ∧ Pairs served rest
  | .holding id => id = serverId machineId link.battle ∧
      ∃ usage rest, link.toMatch = usage :: rest ∧ Pairs served rest
  | .leaving id => id = serverId machineId link.battle
  | .returned => True

/-- The entry's stream was opened by the server of its id. -/
def Named (machineId : BattleId → Nat) (s : System) (e : Entry) : Prop :=
  ∃ link, s.links[e.2.1]? = some link ∧ serverId machineId link.battle = e.1

/-- The transfer was answered with flag 1. -/
def Accepted (s : System) (t : Transfer) : Prop :=
  ∃ e ∈ s.served, e.transfer = t ∧ e.flag = 1

def PcOk (machineId : BattleId → Nat) (s : System) : Prop :=
  match s.pc with
  | .idle => True
  | .choosing job => ∀ e ∈ job.vec, Named machineId s e
  | .writing job entry => (∀ e ∈ entry :: job.vec, Named machineId s e) ∧ s.recentSuccess < 1
  | .waiting job entry | .checking job entry => (∀ e ∈ entry :: job.vec, Named machineId s e) ∧
      (1 ≤ s.recentSuccess → s.Accepted (job.transfer entry))

/-- What the result says has happened: the server it names answered flag 1 to the
transfer of this call. -/
def Answered (machineId : BattleId → Nat) (s : System) (r : Result) : Prop :=
  ∃ e ∈ s.served, e.transfer.lpid = r.lpid ∧ e.transfer.rpid = r.rpid ∧
    e.transfer.call = r.call ∧ serverId machineId e.battle = r.value ∧ e.flag = 1

instance (machineId : BattleId → Nat) (s : System) (r : Result) :
    Decidable (Answered machineId s r) :=
  inferInstanceAs (Decidable (∃ e ∈ s.served, _ ∧ _))

/-- **Attribution**: every result that names a server is right about it. -/
def Attributes (machineId : BattleId → Nat) (s : System) : Prop :=
  ∀ r ∈ s.results, 0 < r.value → Answered machineId s r

instance (machineId : BattleId → Nat) (s : System) : Decidable (Attributes machineId s) :=
  inferInstanceAs (Decidable (∀ r ∈ s.results, 0 < r.value → Answered machineId s r))

structure Inv (machineId : BattleId → Nat) (s : System) : Prop where
  links : ∀ (k : StreamId) (link : Link), s.links[k]? = some link →
    LinkOk machineId s.served link
  named : ∀ id k u, s.streams.findLKey id = some (k, u) → Named machineId s (id, k, u)
  pc : PcOk machineId s
  results : Attributes machineId s

theorem start_inv (battles : BattleId → MyBattle) : Inv machineId (start battles) where
  links := by intro k link h; simp [start] at h
  named := by intro id k u h; simp [start] at h
  pc := trivial
  results := by intro r h; simp [start] at h

/-! ## What growing records and links keep -/

theorem Honest.mono {served served' : List Served} (h : served ⊆ served') {flag : Usage}
    (hh : Honest served flag) : Honest served' flag := by
  obtain ⟨e, he, ht, hu⟩ := hh
  exact ⟨e, h he, ht, hu⟩

theorem Pairs.mono {served served' : List Served} (h : served ⊆ served') {msgs : List Usage}
    (hp : Pairs served msgs) : Pairs served' msgs := by
  induction hp with
  | nil => exact .nil
  | cons hh _ ih => exact .cons (hh.mono h) ih

theorem Pairs.append {served : List Served} {msgs more : List Usage} (hp : Pairs served msgs)
    (hm : Pairs served more) : Pairs served (msgs ++ more) := by
  induction hp with
  | nil => exact hm
  | cons hh _ ih => exact .cons hh ih

theorem LinkOk.mono {served served' : List Served} (h : served ⊆ served') {link : Link}
    (hl : LinkOk machineId served link) : LinkOk machineId served' link := by
  unfold LinkOk at hl ⊢
  split at hl
  · obtain ⟨rest, hr, hp⟩ := hl
    exact ⟨rest, hr, hp.mono h⟩
  · exact ⟨hl.1, hl.2.mono h⟩
  · exact ⟨hl.1, hl.2.mono h⟩
  · obtain ⟨hid, hh, u, rest, hr, hp⟩ := hl
    exact ⟨hid, hh.mono h, u, rest, hr, hp.mono h⟩
  · obtain ⟨hid, u, rest, hr, hp⟩ := hl
    exact ⟨hid, u, rest, hr, hp.mono h⟩
  · exact hl
  · trivial

theorem Named.mono (h : SameBattles s t) {e : Entry} (hn : Named machineId s e) :
    Named machineId t e := by
  obtain ⟨link, hk, hid⟩ := hn
  obtain ⟨link', hk', hb⟩ := h _ link hk
  exact ⟨link', hk', by rw [hb, hid]⟩

theorem Accepted.mono (h : s.served ⊆ t.served) {x : Transfer} (ha : s.Accepted x) :
    t.Accepted x := by
  obtain ⟨e, he, hx, hf⟩ := ha
  exact ⟨e, h he, hx, hf⟩

theorem PcOk.mono (h : SameBattles s t) (hs : s.served ⊆ t.served) (hp : t.pc = s.pc)
    (hr : t.recentSuccess = s.recentSuccess) (hpc : PcOk machineId s) : PcOk machineId t := by
  unfold PcOk at *
  rw [hp, hr]
  split at hpc
  · trivial
  · exact fun e he => (hpc e he).mono h
  · exact ⟨fun e he => (hpc.1 e he).mono h, hpc.2⟩
  · exact ⟨fun e he => (hpc.1 e he).mono h, fun h1 => (hpc.2 h1).mono hs⟩
  · exact ⟨fun e he => (hpc.1 e he).mono h, fun h1 => (hpc.2 h1).mono hs⟩

theorem Inv.setLink (h : Inv machineId s) {k : StreamId} {link : Link} (link' : Link)
    (hk : s.links[k]? = some link) (hb : link'.battle = link.battle)
    (hl : LinkOk machineId s.served link') :
    Inv machineId (s.setLink k link') where
  links := by
    intro j x hj
    rcases links_setLink hk hj with ⟨_, rfl⟩ | ⟨_, hj⟩
    · exact hl
    · exact h.links j x hj
  named id j u hj := (h.named id j u hj).mono (sameBattles_setLink hk hb)
  pc := h.pc.mono (sameBattles_setLink hk hb) (fun _ he => he) rfl rfl
  results := h.results

theorem Inv.setStreams (h : Inv machineId s) {streams : Table Seed StreamId Nat}
    (hn : ∀ id k u, streams.findLKey id = some (k, u) → Named machineId s (id, k, u)) :
    Inv machineId { s with streams := streams } :=
  ⟨h.links, hn, h.pc, h.results⟩

theorem Inv.setMtx (h : Inv machineId s) (mtx : Option StreamId) :
    Inv machineId { s with mtx := mtx } :=
  ⟨h.links, h.named, h.pc, h.results⟩

theorem Inv.setRecent (h : Inv machineId s) (mtx : Option StreamId) {n : Int}
    (hpc : PcOk machineId { s with recentSuccess := n }) :
    Inv machineId { s with mtx := mtx, recentSuccess := n } :=
  ⟨h.links, h.named, hpc, h.results⟩

theorem Inv.setPc (h : Inv machineId s) (pc : TransferPc)
    (hpc : PcOk machineId { s with pc := pc }) : Inv machineId { s with pc := pc } :=
  ⟨h.links, h.named, hpc, h.results⟩

/-! ## The handlers keep the invariant -/

theorem connect_inv (h : Inv machineId s) (battle : BattleId) :
    Inv machineId (s.connect machineId battle) := by
  have hsame : SameBattles s (s.connect machineId battle) := (quiet_connect battle).battles
  refine ⟨?_, ?_, h.pc.mono hsame (fun _ he => he) rfl rfl, h.results⟩
  · intro k link hk
    rw [connect, List.getElem?_append] at hk
    split at hk
    · exact h.links k link hk
    · have hnew := List.mem_singleton.mp (List.mem_of_getElem? hk)
      subst hnew
      by_cases hfull : s.streams.size ≥ 2 ^ 31 - 2
      · simp only [LinkOk, if_pos hfull]
      · simp only [LinkOk, if_neg hfull]
        exact ⟨[], rfl, .nil⟩
  · intro id k u hk
    exact (h.named id k u hk).mono hsame

theorem readId_inv (h : Inv machineId s) {k : StreamId} (hr : s.readId k = some t) :
    Inv machineId t := by
  obtain ⟨battle, toBattle, msg, toMatch, hk, rfl⟩ := readId_cases hr
  obtain ⟨rest, hmsg, hp⟩ := h.links k _ hk
  obtain ⟨hm, hrest⟩ := List.cons.inj hmsg
  subst hrest
  have husage : msg.usage = machineId battle := congrArg Usage.usage hm
  refine h.setLink _ hk rfl ?_
  by_cases hfound : (s.streams.findLKey (toInt msg.usage)).isSome
  · simp only [LinkOk, if_pos hfound]
  · simp only [LinkOk, if_neg hfound]
    exact ⟨by rw [husage, serverId], hp⟩

theorem insert_inv (h : Inv machineId s) {k : StreamId} (hr : s.insert k = some t) :
    Inv machineId t := by
  obtain ⟨battle, id, toBattle, toMatch, hk, rfl⟩ := insert_cases hr
  obtain ⟨hid, hp⟩ := h.links k _ hk
  have h' := h.setLink ⟨battle, .reading id, toBattle, toMatch⟩ hk rfl ⟨hid, hp⟩
  refine h'.setStreams ?_
  intro id' j u hj
  rcases Table.findLKey_of_insert hj with ⟨rfl, rfl, _⟩ | hj
  · exact ⟨_, setLink_self hk, hid.symm⟩
  · exact h'.named id' j u hj

theorem readFlag_inv (h : Inv machineId s) {k : StreamId} (hr : s.readFlag k = some t) :
    Inv machineId t := by
  obtain ⟨battle, id, toBattle, msg, toMatch, hk, rfl⟩ := readFlag_cases hr
  obtain ⟨hid, hp⟩ := h.links k _ hk
  cases hp with
  | cons hh hp => exact h.setLink _ hk rfl ⟨hid, hh, _, _, rfl, hp⟩

theorem readUsage_inv (h : Inv machineId s) {k : StreamId} (hr : s.readUsage k = some t) :
    Inv machineId t := by
  obtain ⟨battle, id, toBattle, msg, toMatch, hk, rfl⟩ := readUsage_cases hr
  obtain ⟨hid, u, rest, hmsg, hp⟩ := h.links k _ hk
  cases hmsg
  have h' := h.setLink ⟨battle, .reading id, toBattle, toMatch⟩ hk rfl ⟨hid, hp⟩
  refine (h'.setStreams ?_).setMtx none
  intro id' j u hj
  rw [Table.findLKey_insertLKeyValue] at hj
  split at hj
  · rename_i hid'
    obtain ⟨⟨j', u'⟩, hj', hju⟩ := Option.map_eq_some_iff.mp hj
    cases hju
    rw [hid']
    exact h'.named id j' u' hj'
  · exact h'.named id' j u hj

/-- Nothing positive is stored: every obligation about `Recent_Success` is met. -/
theorem PcOk.setRecent_nonpos (h : PcOk machineId s) {n : Int} (hn : n < 1) :
    PcOk machineId { s with recentSuccess := n } := by
  unfold PcOk at h ⊢
  cases hpc : s.pc with
  | idle => simp only
  | choosing job => rw [hpc] at h; exact h
  | writing job entry => rw [hpc] at h; exact ⟨h.1, hn⟩
  | waiting job entry => rw [hpc] at h; exact ⟨h.1, fun h1 => absurd h1 (not_le.mpr hn)⟩
  | checking job entry => rw [hpc] at h; exact ⟨h.1, fun h1 => absurd h1 (not_le.mpr hn)⟩

theorem lost_inv (h : Inv machineId s) {k : StreamId} (hr : s.lost k = some t) :
    Inv machineId t := by
  rcases lost_cases hr with ⟨_, _, _, hk, rfl⟩ | ⟨_, _, _, _, hk, rfl⟩ |
    ⟨battle, id, toBattle, _, hk, rfl⟩
  · exact h.setLink _ hk rfl trivial
  · exact h.setLink _ hk rfl (h.links k _ hk).1
  · have h' := h.setLink ⟨battle, .leaving id, toBattle, []⟩ hk rfl (h.links k _ hk).1
    exact h'.setRecent none (h'.pc.setRecent_nonpos Int.zero_lt_one)

theorem erase_inv (h : Inv machineId s) {k : StreamId} (hr : s.erase k = some t) :
    Inv machineId t := by
  obtain ⟨battle, id, toBattle, toMatch, hk, rfl⟩ := erase_cases hr
  have h' := h.setLink ⟨battle, .returned, toBattle, toMatch⟩ hk rfl trivial
  refine h'.setStreams ?_
  intro id' j u hj
  rw [Table.findLKey_eraseLKey] at hj
  split at hj
  · cases hj
  · exact h'.named id' j u hj

/-! ## `TransferMatch` keeps the invariant -/

theorem mem_of_minElement {vec rest : List Entry} {e : Entry}
    (h : minElement vec = some (e, rest)) : ∀ x ∈ e :: rest, x ∈ vec :=
  fun _ hx => (minElement_perm h).mem_iff.mpr hx

theorem call_inv (h : Inv machineId s) {lpid rpid : AccountId}
    (hr : s.call lpid rpid = some t) : Inv machineId t := by
  obtain ⟨-, rfl⟩ := call_cases hr
  refine ⟨h.links, h.named, ?_, h.results⟩
  rintro ⟨id, k, u⟩ he
  exact h.named id k u (Table.mem_getAll.mp he)

theorem choose_inv (h : Inv machineId s) (hr : s.choose = some t) : Inv machineId t := by
  have hp := h.pc
  obtain ⟨job, hpc, ⟨-, rfl⟩ | ⟨entry, rest, hm, rfl⟩⟩ := choose_cases hr
  · refine ⟨h.links, h.named, trivial, ?_⟩
    intro r hr hv
    rcases List.mem_cons.mp hr with rfl | hr
    · exact absurd hv (show ¬ (0 : Int) < -1 by decide)
    · exact h.results r hr hv
  · rw [PcOk, hpc] at hp
    refine ⟨h.links, h.named, ⟨?_, show (-1 : Int) < 1 by decide⟩, h.results⟩
    exact fun e he => hp e (mem_of_minElement hm e he)

theorem write_inv (h : Inv machineId s) {ok : Bool} (hr : s.write ok = some t) :
    Inv machineId t := by
  obtain ⟨job, entry, hpc, hcase⟩ := write_cases hr
  have hp := h.pc
  rw [PcOk, hpc] at hp
  obtain ⟨hn, hrec⟩ := hp
  rcases hcase with rfl | ⟨link, hk, rfl⟩
  · exact h.setPc _ fun e he => hn e (List.mem_cons_of_mem _ he)
  · have hl : LinkOk machineId s.served
        { link with toBattle := link.toBattle ++ [job.transfer entry] } := h.links _ link hk
    have hsame : SameBattles s (s.setLink entry.2.1
        { link with toBattle := link.toBattle ++ [job.transfer entry] }) :=
      sameBattles_setLink hk rfl
    have h' := h.setLink { link with toBattle := link.toBattle ++ [job.transfer entry] } hk rfl hl
    refine h'.setPc (.waiting job entry) ⟨fun e he => (hn e he).mono hsame, ?_⟩
    intro h1
    exact absurd h1 (not_le.mpr hrec)

theorem endWait_inv (h : Inv machineId s) (hr : s.endWait = some t) : Inv machineId t := by
  obtain ⟨job, entry, hpc, rfl⟩ := endWait_cases hr
  have hp := h.pc
  rw [PcOk, hpc] at hp
  exact h.setPc _ hp

/-- The test of `Recent_Success`, where a server is credited. -/
theorem check_inv (hp : Placed s) (h : Inv machineId s) (hr : s.check = some t) : Inv machineId t := by
  obtain ⟨job, entry, hpc, hcase⟩ := check_cases hr
  have hpok := h.pc
  rw [PcOk, hpc] at hpok
  obtain ⟨hn, ha⟩ := hpok
  rcases hcase with ⟨h1, rfl⟩ | ⟨-, rfl⟩
  · refine ⟨h.links, h.named, trivial, ?_⟩
    intro r hr hv
    rcases List.mem_cons.mp hr with rfl | hr
    · obtain ⟨e, he, ht, hf⟩ := ha h1
      obtain ⟨link, hk, hb⟩ := hp.origin e he
      obtain ⟨link', hk', hid⟩ := hn entry List.mem_cons_self
      rw [ht] at hk
      rw [show (job.transfer entry).stream = entry.2.1 from rfl, hk'] at hk
      cases hk
      refine ⟨e, he, ?_, ?_, ?_, hb ▸ hid, hf⟩ <;> rw [ht] <;> rfl
    · exact h.results r hr hv
  · exact h.setPc _ fun e he => hn e (List.mem_cons_of_mem _ he)

/-! ## The battle servers keep the invariant -/

theorem LinkOk.append {served : List Served} {battle : BattleId} {pc : HandlerPc}
    {toBattle toBattle' : List Transfer} {toMatch more : List Usage}
    (h : LinkOk machineId served ⟨battle, pc, toBattle, toMatch⟩) (hm : Pairs served more) :
    LinkOk machineId served ⟨battle, pc, toBattle', toMatch ++ more⟩ := by
  cases pc with
  | entered =>
    obtain ⟨rest, hr, hp⟩ := h
    exact ⟨rest ++ more, congrArg (· ++ more) hr, hp.append hm⟩
  | named id => exact ⟨h.1, h.2.append hm⟩
  | reading id => exact ⟨h.1, h.2.append hm⟩
  | locking id msg =>
    obtain ⟨hid, hh, u, rest, hr, hp⟩ := h
    exact ⟨hid, hh, u, rest ++ more, congrArg (· ++ more) hr, hp.append hm⟩
  | holding id =>
    obtain ⟨hid, u, rest, hr, hp⟩ := h
    exact ⟨hid, u, rest ++ more, congrArg (· ++ more) hr, hp.append hm⟩
  | leaving id => exact h
  | returned => trivial

/-- A record of one more execution. -/
theorem Inv.record (h : Inv machineId s) (e : Served) (battles : BattleId → MyBattle) :
    Inv machineId { s with served := e :: s.served, battles := battles } := by
  have hsame : SameBattles s { s with served := e :: s.served, battles := battles } :=
    fun _ link hk => ⟨link, hk, rfl⟩
  have hsub : s.served ⊆ e :: s.served := List.subset_cons_self e s.served
  refine ⟨?_, h.named, h.pc.mono hsame hsub rfl rfl, ?_⟩
  · intro k link hk
    exact (h.links k link hk).mono hsub
  · intro r hr hv
    obtain ⟨x, hx, hrest⟩ := h.results r hr hv
    exact ⟨x, hsub hx, hrest⟩

theorem serve_inv (h : Inv machineId s) {k : StreamId} {answers : Answers}
    (hr : s.serve k answers = some t) : Inv machineId t := by
  obtain ⟨battle, pc, transfer, toBattle, toMatch, hk, rfl⟩ := serve_cases hr
  have h' := h.record ⟨transfer, battle, s.battles battle, answers⟩
    (Function.update s.battles battle
      (Served.outcome ⟨transfer, battle, s.battles battle, answers⟩).2)
  obtain ⟨hs, _⟩ := Served.outcome_pair ⟨transfer, battle, s.battles battle, answers⟩
  refine h'.setLink _ hk rfl ?_
  refine (h'.links k _ hk).append ?_
  rw [hs]
  exact .cons ⟨_, List.mem_cons_self, rfl, rfl⟩ .nil

theorem drop_inv (h : Inv machineId s) {k : StreamId} (hr : s.drop k = some t) :
    Inv machineId t := by
  obtain ⟨link, hk, rfl⟩ := drop_cases hr
  have hl : LinkOk machineId s.served { link with toBattle := [] } := h.links k link hk
  exact h.setLink _ hk rfl hl

/-! ## The store of a flag -/

/-- The message the handler is about to store. -/
def storing (s : System) (k : StreamId) : Option Usage :=
  match s.links[k]? with
  | some ⟨_, .locking _ msg, _, _⟩ => some msg
  | _ => none

/-- Between the reset of `Recent_Success` and the test of it, a positive flag is
stored only if it answers the transfer of this attempt. -/
def NoForeignAnswer (s : System) : Label → Prop
  | .storeFlag k => ∀ msg ∈ s.storing k, 1 ≤ toInt msg.usage →
      ∀ attempt ∈ s.underWay, attempt ≠ none ∧ msg.answers = attempt
  | _ => True

instance (s : System) (l : Label) : Decidable (NoForeignAnswer s l) :=
  match l with
  | .storeFlag k => inferInstanceAs (Decidable (∀ msg ∈ s.storing k, 1 ≤ toInt msg.usage →
      ∀ attempt ∈ s.underWay, attempt ≠ none ∧ msg.answers = attempt))
  | .connect _ | .readId _ | .insert _ | .readFlag _ | .readUsage _ | .lost _ | .erase _
  | .call _ _ | .choose | .write _ | .endWait | .check | .serve _ _ | .battleRuns _ _
  | .drop _ => isTrue trivial

/-- A positive flag of the attempt under way. -/
theorem PcOk.setRecent_own (h : PcOk machineId s) {n : Int} {msg : Usage}
    (hw : ∀ attempt ∈ s.underWay, attempt ≠ none ∧ msg.answers = attempt)
    (ha : ∀ x, msg.answers = some x → s.Accepted x) :
    PcOk machineId { s with recentSuccess := n } := by
  unfold PcOk at h ⊢
  unfold underWay at hw
  cases hpc : s.pc with
  | idle => simp only
  | choosing job => rw [hpc] at h; exact h
  | writing job entry =>
    rw [hpc] at hw
    exact absurd rfl (hw none rfl).1
  | waiting job entry =>
    rw [hpc] at h hw
    exact ⟨h.1, fun _ => ha _ (hw _ rfl).2⟩
  | checking job entry =>
    rw [hpc] at h hw
    exact ⟨h.1, fun _ => ha _ (hw _ rfl).2⟩

theorem storeFlag_inv (h : Inv machineId s) {k : StreamId}
    (hok : NoForeignAnswer s (.storeFlag k)) (hr : s.storeFlag k = some t) :
    Inv machineId t := by
  obtain ⟨-, battle, id, msg, toBattle, toMatch, hk, rfl⟩ := storeFlag_cases hr
  obtain ⟨hid, ⟨e, he, htr, hu⟩, hrest⟩ := h.links k _ hk
  have h' := h.setLink ⟨battle, .holding id, toBattle, toMatch⟩ hk rfl ⟨hid, hrest⟩
  have hpc : PcOk machineId { s.setLink k ⟨battle, .holding id, toBattle, toMatch⟩ with
      recentSuccess := toInt msg.usage } := by
    by_cases hpos : 1 ≤ toInt msg.usage
    · -- the flag is 1, and the condition says whose it is
      have hflag : e.flag = 1 := by
        obtain ⟨_, hle⟩ := e.outcome_pair
        have hle' := toInt_le e.flag
        rw [hu] at hpos
        omega
      have hst : msg ∈ s.storing k := by
        rw [storing, hk]
        rfl
      refine h'.pc.setRecent_own (hok msg hst hpos) ?_
      intro x hx
      rw [htr] at hx
      exact ⟨e, he, Option.some.inj hx, hflag⟩
    · exact h'.pc.setRecent_nonpos (not_le.mp hpos)
  exact h'.setRecent (some k) hpc

theorem step_inv (s : System) (l : Label) (t : System) (hi : Placed s ∧ Inv machineId s)
    (hok : NoForeignAnswer s l) (hr : step machineId s l = some t) :
    Placed t ∧ Inv machineId t := by
  obtain ⟨hp, h⟩ := hi
  refine ⟨step_placed s l t hp hr, ?_⟩
  cases l with
  | connect battle =>
    cases hr
    exact connect_inv h battle
  | readId k => exact readId_inv h hr
  | insert k => exact insert_inv h hr
  | readFlag k => exact readFlag_inv h hr
  | storeFlag k => exact storeFlag_inv h hok hr
  | readUsage k => exact readUsage_inv h hr
  | lost k => exact lost_inv h hr
  | erase k => exact erase_inv h hr
  | call lpid rpid => exact call_inv h hr
  | choose => exact choose_inv h hr
  | write ok => exact write_inv h hr
  | endWait => exact endWait_inv h hr
  | check => exact check_inv hp h hr
  | serve k answers => exact serve_inv h hr
  | battleRuns battle state =>
    cases hr
    exact ⟨h.links, h.named, h.pc, h.results⟩
  | drop k => exact drop_inv h hr

/-- **`TransferMatch` credits the server that answered**, in every run in which no
positive answer to another transfer is stored during an attempt. -/
theorem credits_answering_server (machineId : BattleId → Nat) (battles : BattleId → MyBattle)
    (labels : List Label) {s : System}
    (hok : Meets (step machineId) NoForeignAnswer (start battles) labels)
    (hr : run (step machineId) (start battles) labels = some s) : Attributes machineId s :=
  (run_invariant step_inv ⟨start_placed battles, start_inv battles⟩ hok hr).2.results

/-- The server is asked, answers and is credited. -/
theorem credits_answering_server_prompt :
    ∃ s, run (step (· + 1)) (start twoServers)
        (register 0 ++ [.call 10 20] ++ attempt ++ report 0 answering ++ [.endWait, .check]) = some s ∧
      s.results.map (·.value) = [1] ∧ Attributes (· + 1) s := by
  have hr : ∃ s, run (step (· + 1)) (start twoServers)
      (register 0 ++ [.call 10 20] ++ attempt ++ report 0 answering ++ [.endWait, .check]) = some s ∧
      s.results.map (·.value) = [1] := exists_run_of_any (by decide +kernel)
  obtain ⟨s, hs, hv⟩ := hr
  exact ⟨s, hs, hv, credits_answering_server _ _ _ (by decide +kernel) hs⟩

/-- Server 1 is asked first and its answer comes after the timeout, while server 2
is asked: the call returns 2, which has answered nothing. -/
theorem late_answer_credited :
    ∃ s, run (step (· + 1)) (start twoServers)
        (register 0 ++ register 1 ++ [.call 10 20] ++ attempt ++ [.endWait, .check] ++ attempt ++
          report 0 answering ++ [.endWait, .check]) = some s ∧
      ¬ Attributes (· + 1) s := by
  exact exists_run_of_any (by decide +kernel)

end System
end DrgbServer.Match
