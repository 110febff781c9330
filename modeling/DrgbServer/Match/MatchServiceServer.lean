import DrgbServer.Battle.MatchTransfer
import DrgbServer.Lib.Transition

/-! # `MatchServiceServer` and the battle servers behind it

One `TransferMatch` caller (the matchmaker thread), a `SessionStream` handler per
stream and the battle servers, stepping in any order. A step is what a thread does
between two points where another one can come in: an operation of the `DeMap`, a
read or write of a stream, a section under `mtx`, an access to `Recent_Success`
outside of it. Reads wait for a message or end with the stream; the timed wait ends
at any time `mtx` is free. A message written is delivered at any later time or lost
with its stream.

Beside the data of the code the state carries where things come from: a transfer
knows its call and its stream, an answer the transfer it answers, and `served` and
`results` record what the battle servers did and what the calls returned. No step
depends on these. -/
namespace DrgbServer.Match
open DrgbServer.Utils DrgbServer.Battle

abbrev StreamId := Nat
abbrev BattleId := Nat

/-- A `MatchTransfer` message, with the call and the stream it was written in. -/
structure Transfer where
  lpid : AccountId
  rpid : AccountId
  call : Nat
  stream : StreamId
deriving DecidableEq

/-- A `Usage` message, with the transfer it answers; the first one of a stream
carries the machine id. -/
structure Usage where
  usage : Nat
  answers : Option Transfer
deriving DecidableEq

/-- Where a `SessionStream` handler stands. `id` is the `stream_id` it has read. -/
inductive HandlerPc where
  /-- before the first `Read` -/
  | entered
  /-- `FindLKey` has found no such id -/
  | named (id : Seed)
  /-- at the `Read` of the loop -/
  | reading (id : Seed)
  /-- before the lock, with the message read -/
  | locking (id : Seed) (msg : Usage)
  /-- at the second `Read`, holding `mtx` -/
  | holding (id : Seed)
  /-- past the loop -/
  | leaving (id : Seed)
  | returned
deriving DecidableEq

/-- A stream: the battle server that opened it and the messages under way. -/
structure Link where
  battle : BattleId
  pc : HandlerPc
  toBattle : List Transfer
  toMatch : List Usage

/-- An entry of `streams.GetAll()`: machine id, stream, usage. -/
abbrev Entry := Seed × StreamId × Nat

/-- The variables of a running `TransferMatch`. -/
structure Job where
  lpid : AccountId
  rpid : AccountId
  call : Nat
  vec : List Entry

inductive TransferPc where
  | idle
  /-- before the loop condition -/
  | choosing (job : Job)
  /-- `Recent_Success` is reset, before `Write` -/
  | writing (job : Job) (entry : Entry)
  /-- in `wait_for` -/
  | waiting (job : Job) (entry : Entry)
  /-- `mtx` is released, before the test of `Recent_Success` -/
  | checking (job : Job) (entry : Entry)

/-- The transfer an attempt writes. -/
def Job.transfer (job : Job) (entry : Entry) : Transfer :=
  ⟨job.lpid, job.rpid, job.call, entry.2.1⟩

/-- One execution of `MyBattle::MatchTransfer`. -/
structure Served where
  transfer : Transfer
  battle : BattleId
  before : MyBattle
  answers : Answers

def Served.outcome (e : Served) : List Nat × MyBattle :=
  e.before.matchTransfer e.transfer.lpid e.transfer.rpid e.answers

/-- The first number sent back. -/
def Served.flag (e : Served) : Nat := e.outcome.1.headD 0

/-- The sessions of the battle server have got an entry for a new game. -/
def Served.Registers (e : Served) : Prop :=
  ∃ entry ∈ e.outcome.2.sessions.getAll, e.before.games.length ≤ entry.2.2

instance (e : Served) : Decidable e.Registers :=
  inferInstanceAs (Decidable (∃ entry ∈ e.outcome.2.sessions.getAll, _ ≤ entry.2.2))

/-- A `TransferMatch` that has returned; `credited` is the transfer it returned for. -/
structure Result where
  lpid : AccountId
  rpid : AccountId
  call : Nat
  value : Seed
  credited : Option Transfer

structure System where
  streams : Table Seed StreamId Nat
  links : List Link
  recentSuccess : Int
  mtx : Option StreamId
  pc : TransferPc
  battles : BattleId → MyBattle
  calls : Nat
  served : List Served
  results : List Result

inductive Label where
  /-- a battle server opens a stream and announces its machine id -/
  | connect (battle : BattleId)
  | readId (k : StreamId)
  | insert (k : StreamId)
  | readFlag (k : StreamId)
  | storeFlag (k : StreamId)
  | readUsage (k : StreamId)
  /-- the handler's pending `Read` returns false -/
  | lost (k : StreamId)
  | erase (k : StreamId)
  | call (lpid rpid : AccountId)
  | choose
  | write (ok : Bool)
  | endWait
  | check
  /-- the battle server reads a transfer and runs the callback -/
  | serve (k : StreamId) (answers : Answers)
  /-- anything else a battle server does: games end, timers fire, players come -/
  | battleRuns (battle : BattleId) (state : MyBattle)
  /-- transfers under way are lost with the connection -/
  | drop (k : StreamId)

namespace System

/-- `MatchServiceServer()`, with no stream open. -/
def start (battles : BattleId → MyBattle) : System where
  streams := Table.empty
  links := []
  recentSuccess := -1
  mtx := none
  pc := .idle
  battles := battles
  calls := 0
  served := []
  results := []

def setLink (s : System) (k : StreamId) (link : Link) : System :=
  { s with links := s.links.set k link }

/-- The transfer an attempt under way waits for; none before its `Write`. -/
def underWay (s : System) : Option (Option Transfer) :=
  match s.pc with
  | .idle | .choosing _ => none
  | .writing _ _ => some none
  | .waiting job entry | .checking job entry => some (some (job.transfer entry))

/-- `std::min_element` by usage, and the vector without it. -/
def minElement : List Entry → Option (Entry × List Entry)
  | [] => none
  | e :: rest => match minElement rest with
    | none => some (e, [])
    | some (m, others) => if m.2.2 < e.2.2 then some (m, e :: others) else some (e, rest)

theorem minElement_eq_none {vec : List Entry} (h : minElement vec = none) : vec = [] := by
  cases vec with
  | nil => rfl
  | cons y ys =>
    rw [minElement] at h
    split at h
    · cases h
    · split at h <;> cases h

theorem minElement_perm {vec rest : List Entry} {e : Entry}
    (h : minElement vec = some (e, rest)) : vec.Perm (e :: rest) := by
  induction vec generalizing e rest with
  | nil => cases h
  | cons y ys ih =>
    rw [minElement] at h
    split at h
    · rename_i hm
      cases h
      rw [minElement_eq_none hm]
    · rename_i m others hm
      split at h
      · cases h
        exact ((ih hm).cons y).trans (.swap _ _ _)
      · cases h
        exact .refl _

/-! ## `SessionStream` -/

variable (machineId : BattleId → Nat)

/-- The id a battle server is known by: the 32-bit number it sends, as `Seed_t`. -/
def serverId (battle : BattleId) : Seed := toInt (machineId battle)

def connect (s : System) (battle : BattleId) : System :=
  let pc := if s.streams.size ≥ 2 ^ 31 - 2 then HandlerPc.returned else .entered
  { s with links := s.links ++ [⟨battle, pc, [], [⟨machineId battle, none⟩]⟩] }

def readId (s : System) (k : StreamId) : Option System :=
  match s.links[k]? with
  | some ⟨battle, .entered, toBattle, msg :: toMatch⟩ =>
    let id := toInt msg.usage
    let pc := if (s.streams.findLKey id).isSome then HandlerPc.returned else .named id
    some (s.setLink k ⟨battle, pc, toBattle, toMatch⟩)
  | _ => none

def insert (s : System) (k : StreamId) : Option System :=
  match s.links[k]? with
  | some ⟨battle, .named id, toBattle, toMatch⟩ =>
    some { s.setLink k ⟨battle, .reading id, toBattle, toMatch⟩ with
      streams := (s.streams.insert id k 0).2 }
  | _ => none

def readFlag (s : System) (k : StreamId) : Option System :=
  match s.links[k]? with
  | some ⟨battle, .reading id, toBattle, msg :: toMatch⟩ =>
    some (s.setLink k ⟨battle, .locking id msg, toBattle, toMatch⟩)
  | _ => none

def storeFlag (s : System) (k : StreamId) : Option System :=
  match s.mtx, s.links[k]? with
  | none, some ⟨battle, .locking id msg, toBattle, toMatch⟩ =>
    some { s.setLink k ⟨battle, .holding id, toBattle, toMatch⟩ with
      mtx := some k, recentSuccess := toInt msg.usage }
  | _, _ => none

def readUsage (s : System) (k : StreamId) : Option System :=
  match s.links[k]? with
  | some ⟨battle, .holding id, toBattle, msg :: toMatch⟩ =>
    some { s.setLink k ⟨battle, .reading id, toBattle, toMatch⟩ with
      mtx := none, streams := (s.streams.insertLKeyValue id msg.usage).2 }
  | _ => none

def lost (s : System) (k : StreamId) : Option System :=
  match s.links[k]? with
  | some ⟨battle, .entered, toBattle, _⟩ => some (s.setLink k ⟨battle, .returned, toBattle, []⟩)
  | some ⟨battle, .reading id, toBattle, _⟩ =>
    some (s.setLink k ⟨battle, .leaving id, toBattle, []⟩)
  | some ⟨battle, .holding id, toBattle, _⟩ =>
    some { s.setLink k ⟨battle, .leaving id, toBattle, []⟩ with mtx := none, recentSuccess := 0 }
  | _ => none

def erase (s : System) (k : StreamId) : Option System :=
  match s.links[k]? with
  | some ⟨battle, .leaving id, toBattle, toMatch⟩ =>
    some { s.setLink k ⟨battle, .returned, toBattle, toMatch⟩ with
      streams := (s.streams.eraseLKey id).2 }
  | _ => none

/-! ## `TransferMatch` -/

def call (s : System) (lpid rpid : AccountId) : Option System :=
  match s.pc with
  | .idle => some { s with
      pc := .choosing ⟨lpid, rpid, s.calls, s.streams.getAll⟩
      calls := s.calls + 1 }
  | _ => none

def choose (s : System) : Option System :=
  match s.pc with
  | .choosing job => match minElement job.vec with
    | none => some { s with
        pc := .idle
        results := ⟨job.lpid, job.rpid, job.call, -1, none⟩ :: s.results }
    | some (entry, rest) => some { s with
        pc := .writing { job with vec := rest } entry
        recentSuccess := -1 }
  | _ => none

def write (s : System) (ok : Bool) : Option System :=
  match s.pc with
  | .writing job entry =>
    if !ok then some { s with pc := .choosing job }
    else match s.links[entry.2.1]? with
      | some link => some { s.setLink entry.2.1
            { link with toBattle := link.toBattle ++ [job.transfer entry] } with
          pc := .waiting job entry }
      | none => none
  | _ => none

def endWait (s : System) : Option System :=
  match s.mtx, s.pc with
  | none, .waiting job entry => some { s with pc := .checking job entry }
  | _, _ => none

def check (s : System) : Option System :=
  match s.pc with
  | .checking job entry =>
    if s.recentSuccess ≥ 1 then some { s with
      pc := .idle
      results := ⟨job.lpid, job.rpid, job.call, entry.1, some (job.transfer entry)⟩ :: s.results }
    else some { s with pc := .choosing job }
  | _ => none

/-! ## The battle servers -/

def serve (s : System) (k : StreamId) (answers : Answers) : Option System :=
  match s.links[k]? with
  | some ⟨battle, pc, transfer :: toBattle, toMatch⟩ =>
    let event : Served := ⟨transfer, battle, s.battles battle, answers⟩
    let sent := event.outcome.1.map fun n => (⟨n, some transfer⟩ : Usage)
    some { s.setLink k ⟨battle, pc, toBattle, toMatch ++ sent⟩ with
      battles := Function.update s.battles battle event.outcome.2
      served := event :: s.served }
  | _ => none

def drop (s : System) (k : StreamId) : Option System :=
  match s.links[k]? with
  | some link => some (s.setLink k { link with toBattle := [] })
  | none => none

def step (s : System) : Label → Option System
  | .connect battle => some (s.connect machineId battle)
  | .readId k => s.readId k
  | .insert k => s.insert k
  | .readFlag k => s.readFlag k
  | .storeFlag k => s.storeFlag k
  | .readUsage k => s.readUsage k
  | .lost k => s.lost k
  | .erase k => s.erase k
  | .call lpid rpid => s.call lpid rpid
  | .choose => s.choose
  | .write ok => s.write ok
  | .endWait => s.endWait
  | .check => s.check
  | .serve k answers => s.serve k answers
  | .battleRuns battle state => some { s with battles := Function.update s.battles battle state }
  | .drop k => s.drop k

variable {machineId} {s t : System}

/-! ## What each step does -/

theorem readId_cases {k : StreamId} (h : s.readId k = some t) :
    ∃ battle toBattle msg toMatch,
      s.links[k]? = some ⟨battle, .entered, toBattle, msg :: toMatch⟩ ∧
      t = s.setLink k ⟨battle,
        if (s.streams.findLKey (toInt msg.usage)).isSome then .returned
        else .named (toInt msg.usage), toBattle, toMatch⟩ := by
  unfold readId at h
  split at h
  · rename_i battle toBattle msg toMatch hk
    cases h
    exact ⟨battle, toBattle, msg, toMatch, hk, rfl⟩
  · cases h

theorem insert_cases {k : StreamId} (h : s.insert k = some t) :
    ∃ battle id toBattle toMatch,
      s.links[k]? = some ⟨battle, .named id, toBattle, toMatch⟩ ∧
      t = { s.setLink k ⟨battle, .reading id, toBattle, toMatch⟩ with
        streams := (s.streams.insert id k 0).2 } := by
  unfold insert at h
  split at h
  · rename_i battle id toBattle toMatch hk
    cases h
    exact ⟨battle, id, toBattle, toMatch, hk, rfl⟩
  · cases h

theorem readFlag_cases {k : StreamId} (h : s.readFlag k = some t) :
    ∃ battle id toBattle msg toMatch,
      s.links[k]? = some ⟨battle, .reading id, toBattle, msg :: toMatch⟩ ∧
      t = s.setLink k ⟨battle, .locking id msg, toBattle, toMatch⟩ := by
  unfold readFlag at h
  split at h
  · rename_i battle id toBattle msg toMatch hk
    cases h
    exact ⟨battle, id, toBattle, msg, toMatch, hk, rfl⟩
  · cases h

theorem storeFlag_cases {k : StreamId} (h : s.storeFlag k = some t) :
    s.mtx = none ∧ ∃ battle id msg toBattle toMatch,
      s.links[k]? = some ⟨battle, .locking id msg, toBattle, toMatch⟩ ∧
      t = { s.setLink k ⟨battle, .holding id, toBattle, toMatch⟩ with
        mtx := some k, recentSuccess := toInt msg.usage } := by
  unfold storeFlag at h
  split at h
  · rename_i battle id msg toBattle toMatch hm hk
    cases h
    exact ⟨hm, battle, id, msg, toBattle, toMatch, hk, rfl⟩
  · cases h

theorem readUsage_cases {k : StreamId} (h : s.readUsage k = some t) :
    ∃ battle id toBattle msg toMatch,
      s.links[k]? = some ⟨battle, .holding id, toBattle, msg :: toMatch⟩ ∧
      t = { s.setLink k ⟨battle, .reading id, toBattle, toMatch⟩ with
        mtx := none, streams := (s.streams.insertLKeyValue id msg.usage).2 } := by
  unfold readUsage at h
  split at h
  · rename_i battle id toBattle msg toMatch hk
    cases h
    exact ⟨battle, id, toBattle, msg, toMatch, hk, rfl⟩
  · cases h

/-- A handler sees the end of its stream in one of its `Read`s. -/
theorem lost_cases {k : StreamId} (h : s.lost k = some t) :
    (∃ battle toBattle toMatch, s.links[k]? = some ⟨battle, .entered, toBattle, toMatch⟩ ∧
      t = s.setLink k ⟨battle, .returned, toBattle, []⟩) ∨
    (∃ battle id toBattle toMatch, s.links[k]? = some ⟨battle, .reading id, toBattle, toMatch⟩ ∧
      t = s.setLink k ⟨battle, .leaving id, toBattle, []⟩) ∨
    (∃ battle id toBattle toMatch, s.links[k]? = some ⟨battle, .holding id, toBattle, toMatch⟩ ∧
      t = { s.setLink k ⟨battle, .leaving id, toBattle, []⟩ with
        mtx := none, recentSuccess := 0 }) := by
  unfold lost at h
  split at h
  · rename_i battle toBattle toMatch hk
    cases h
    exact .inl ⟨battle, toBattle, toMatch, hk, rfl⟩
  · rename_i battle id toBattle toMatch hk
    cases h
    exact .inr (.inl ⟨battle, id, toBattle, toMatch, hk, rfl⟩)
  · rename_i battle id toBattle toMatch hk
    cases h
    exact .inr (.inr ⟨battle, id, toBattle, toMatch, hk, rfl⟩)
  · cases h

theorem erase_cases {k : StreamId} (h : s.erase k = some t) :
    ∃ battle id toBattle toMatch,
      s.links[k]? = some ⟨battle, .leaving id, toBattle, toMatch⟩ ∧
      t = { s.setLink k ⟨battle, .returned, toBattle, toMatch⟩ with
        streams := (s.streams.eraseLKey id).2 } := by
  unfold erase at h
  split at h
  · rename_i battle id toBattle toMatch hk
    cases h
    exact ⟨battle, id, toBattle, toMatch, hk, rfl⟩
  · cases h

theorem call_cases {lpid rpid : AccountId} (h : s.call lpid rpid = some t) :
    s.pc = .idle ∧ t = { s with
      pc := .choosing ⟨lpid, rpid, s.calls, s.streams.getAll⟩
      calls := s.calls + 1 } := by
  unfold call at h
  split at h
  · rename_i hpc
    cases h
    exact ⟨hpc, rfl⟩
  · cases h

/-- The call gives up with no stream left, or resets the flag for the next attempt. -/
theorem choose_cases (h : s.choose = some t) : ∃ job, s.pc = .choosing job ∧
    ((minElement job.vec = none ∧ t = { s with
        pc := .idle
        results := ⟨job.lpid, job.rpid, job.call, -1, none⟩ :: s.results }) ∨
      ∃ entry rest, minElement job.vec = some (entry, rest) ∧ t = { s with
        pc := .writing { job with vec := rest } entry
        recentSuccess := -1 }) := by
  unfold choose at h
  split at h
  · rename_i job hpc
    refine ⟨job, hpc, ?_⟩
    split at h
    · rename_i hm
      cases h
      exact .inl ⟨hm, rfl⟩
    · rename_i entry rest hm
      cases h
      exact .inr ⟨entry, rest, hm, rfl⟩
  · cases h

theorem write_cases {ok : Bool} (h : s.write ok = some t) :
    ∃ job entry, s.pc = .writing job entry ∧
      (t = { s with pc := .choosing job } ∨
        ∃ link, s.links[entry.2.1]? = some link ∧ t = { s.setLink entry.2.1
            { link with toBattle := link.toBattle ++ [job.transfer entry] } with
          pc := .waiting job entry }) := by
  unfold write at h
  split at h
  · rename_i job entry hpc
    refine ⟨job, entry, hpc, ?_⟩
    split at h
    · cases h
      exact .inl rfl
    · split at h
      · rename_i link hk
        cases h
        exact .inr ⟨link, hk, rfl⟩
      · cases h
  · cases h

theorem endWait_cases (h : s.endWait = some t) :
    ∃ job entry, s.pc = .waiting job entry ∧ t = { s with pc := .checking job entry } := by
  unfold endWait at h
  split at h
  · rename_i job entry _ hpc
    cases h
    exact ⟨job, entry, hpc, rfl⟩
  · cases h

theorem check_cases (h : s.check = some t) : ∃ job entry, s.pc = .checking job entry ∧
    ((s.recentSuccess ≥ 1 ∧ t = { s with
        pc := .idle
        results := ⟨job.lpid, job.rpid, job.call, entry.1, some (job.transfer entry)⟩ ::
          s.results }) ∨
      (¬ s.recentSuccess ≥ 1 ∧ t = { s with pc := .choosing job })) := by
  unfold check at h
  split at h
  · rename_i job entry hpc
    refine ⟨job, entry, hpc, ?_⟩
    split at h
    · rename_i hpos
      cases h
      exact .inl ⟨hpos, rfl⟩
    · rename_i hpos
      cases h
      exact .inr ⟨hpos, rfl⟩
  · cases h

theorem serve_cases {k : StreamId} {answers : Answers} (h : s.serve k answers = some t) :
    ∃ battle pc transfer toBattle toMatch,
      s.links[k]? = some ⟨battle, pc, transfer :: toBattle, toMatch⟩ ∧
      t = { s.setLink k ⟨battle, pc, toBattle, toMatch ++
          (Served.outcome ⟨transfer, battle, s.battles battle, answers⟩).1.map fun n =>
            ⟨n, some transfer⟩⟩ with
        battles := Function.update s.battles battle
          (Served.outcome ⟨transfer, battle, s.battles battle, answers⟩).2
        served := ⟨transfer, battle, s.battles battle, answers⟩ :: s.served } := by
  unfold serve at h
  split at h
  · rename_i battle pc transfer toBattle toMatch hk
    cases h
    exact ⟨battle, pc, transfer, toBattle, toMatch, hk, rfl⟩
  · cases h

theorem drop_cases {k : StreamId} (h : s.drop k = some t) :
    ∃ link, s.links[k]? = some link ∧ t = s.setLink k { link with toBattle := [] } := by
  unfold drop at h
  split at h
  · rename_i link hk
    cases h
    exact ⟨link, hk, rfl⟩
  · cases h

/-! ## Updates of single links -/

theorem setLink_self {k : StreamId} {link link' : Link} (h : s.links[k]? = some link) :
    (s.setLink k link').links[k]? = some link' := by
  have hk : k < s.links.length := (List.getElem?_eq_some_iff.mp h).1
  simp [setLink, hk]

theorem setLink_other {k j : StreamId} {link' : Link} (h : j ≠ k) :
    (s.setLink k link').links[j]? = s.links[j]? := by
  simp [setLink, Ne.symm h]

/-- A link after an update is the new one or an old one. -/
theorem links_setLink {k j : StreamId} {link link' x : Link} (hk : s.links[k]? = some link)
    (h : (s.setLink k link').links[j]? = some x) :
    (j = k ∧ x = link') ∨ (j ≠ k ∧ s.links[j]? = some x) := by
  by_cases hj : j = k
  · subst hj
    rw [setLink_self hk] at h
    exact .inl ⟨rfl, (Option.some.inj h).symm⟩
  · rw [setLink_other hj] at h
    exact .inr ⟨hj, h⟩

/-- Links keep the server that opened them. -/
def SameBattles (s t : System) : Prop :=
  ∀ (k : StreamId) (link : Link), s.links[k]? = some link →
    ∃ link', t.links[k]? = some link' ∧ link'.battle = link.battle

theorem sameBattles_setLink {k : StreamId} {link link' : Link} (hk : s.links[k]? = some link)
    (hb : link'.battle = link.battle) : SameBattles s (s.setLink k link') := by
  intro j x hj
  by_cases h : j = k
  · subst h
    rw [hk] at hj
    cases hj
    exact ⟨link', setLink_self hk, hb⟩
  · exact ⟨x, by rw [setLink_other h, hj], rfl⟩

/-! ## What the steps leave alone -/

/-- A step in which nobody calls, serves or returns: transfers under way stay or are
lost, and links keep their servers. -/
structure Quiet (s t : System) : Prop where
  links : ∀ (k : StreamId) (link : Link), t.links[k]? = some link → ∀ x ∈ link.toBattle,
    ∃ old, s.links[k]? = some old ∧ x ∈ old.toBattle
  battles : SameBattles s t
  served : t.served = s.served
  pc : t.pc = s.pc
  results : t.results = s.results
  calls : t.calls = s.calls

/-- An update of one link that adds no transfer. -/
theorem quiet_setLink {k : StreamId} {link link' : Link}
    (hl : t.links = (s.setLink k link').links) (hs : t.served = s.served) (hp : t.pc = s.pc)
    (hr : t.results = s.results) (hc : t.calls = s.calls) (hk : s.links[k]? = some link)
    (hb : link'.battle = link.battle) (hsub : link'.toBattle ⊆ link.toBattle) : Quiet s t := by
  refine ⟨?_, ?_, hs, hp, hr, hc⟩
  · intro j x hj y hy
    rw [hl] at hj
    rcases links_setLink hk hj with ⟨rfl, rfl⟩ | ⟨_, hj⟩
    · exact ⟨link, hk, hsub hy⟩
    · exact ⟨x, hj, hy⟩
  · intro j x hj
    rw [hl]
    exact sameBattles_setLink hk hb j x hj

theorem quiet_connect (battle : BattleId) : Quiet s (s.connect machineId battle) := by
  refine ⟨?_, ?_, rfl, rfl, rfl, rfl⟩
  · intro k link hk x hx
    rw [connect, List.getElem?_append] at hk
    split at hk
    · exact ⟨link, hk, hx⟩
    · have hnew := List.mem_singleton.mp (List.mem_of_getElem? hk)
      subst hnew
      cases hx
  · intro k link hk
    have hlt : k < s.links.length := (List.getElem?_eq_some_iff.mp hk).1
    exact ⟨link, by rw [connect, List.getElem?_append_left hlt, hk], rfl⟩

/-- **Who moves**: a handler or the environment quietly, the caller, or a battle server
that serves a transfer. -/
theorem step_cases {l : Label} (h : step machineId s l = some t) :
    Quiet s t ∨ (∃ lpid rpid, s.call lpid rpid = some t) ∨ s.choose = some t ∨
    (∃ ok, s.write ok = some t) ∨ s.endWait = some t ∨ (l = .check ∧ s.check = some t) ∨
    ∃ k answers, s.serve k answers = some t := by
  cases l with
  | connect battle =>
    cases h
    exact .inl (quiet_connect battle)
  | readId k =>
    obtain ⟨_, _, _, _, hk, rfl⟩ := readId_cases h
    exact .inl (quiet_setLink rfl rfl rfl rfl rfl hk rfl (List.Subset.refl _))
  | insert k =>
    obtain ⟨_, _, _, _, hk, rfl⟩ := insert_cases h
    exact .inl (quiet_setLink rfl rfl rfl rfl rfl hk rfl (List.Subset.refl _))
  | readFlag k =>
    obtain ⟨_, _, _, _, _, hk, rfl⟩ := readFlag_cases h
    exact .inl (quiet_setLink rfl rfl rfl rfl rfl hk rfl (List.Subset.refl _))
  | storeFlag k =>
    obtain ⟨-, _, _, _, _, _, hk, rfl⟩ := storeFlag_cases h
    exact .inl (quiet_setLink rfl rfl rfl rfl rfl hk rfl (List.Subset.refl _))
  | readUsage k =>
    obtain ⟨_, _, _, _, _, hk, rfl⟩ := readUsage_cases h
    exact .inl (quiet_setLink rfl rfl rfl rfl rfl hk rfl (List.Subset.refl _))
  | erase k =>
    obtain ⟨_, _, _, _, hk, rfl⟩ := erase_cases h
    exact .inl (quiet_setLink rfl rfl rfl rfl rfl hk rfl (List.Subset.refl _))
  | lost k =>
    rcases lost_cases h with ⟨_, _, _, hk, rfl⟩ | ⟨_, _, _, _, hk, rfl⟩ | ⟨_, _, _, _, hk, rfl⟩
    all_goals exact .inl (quiet_setLink rfl rfl rfl rfl rfl hk rfl (List.Subset.refl _))
  | call lpid rpid => exact .inr (.inl ⟨lpid, rpid, h⟩)
  | choose => exact .inr (.inr (.inl h))
  | write ok => exact .inr (.inr (.inr (.inl ⟨ok, h⟩)))
  | endWait => exact .inr (.inr (.inr (.inr (.inl h))))
  | check => exact .inr (.inr (.inr (.inr (.inr (.inl ⟨rfl, h⟩)))))
  | serve k answers => exact .inr (.inr (.inr (.inr (.inr (.inr ⟨k, answers, h⟩)))))
  | battleRuns battle state =>
    cases h
    exact .inl ⟨fun k link hk x hx => ⟨link, hk, hx⟩, fun _ link hk => ⟨link, hk, rfl⟩,
      rfl, rfl, rfl, rfl⟩
  | drop k =>
    obtain ⟨link, hk, rfl⟩ := drop_cases h
    exact .inl (quiet_setLink rfl rfl rfl rfl rfl hk rfl (List.nil_subset _))

/-! ## Where transfers are -/

/-- A transfer under way is on its stream, and one served was served by the server
that opened the stream. -/
structure Placed (s : System) : Prop where
  inFlight : ∀ (k : StreamId) (link : Link), s.links[k]? = some link →
    ∀ x ∈ link.toBattle, x.stream = k
  origin : ∀ e ∈ s.served, ∃ link, s.links[e.transfer.stream]? = some link ∧
    link.battle = e.battle

theorem start_placed (battles : BattleId → MyBattle) : Placed (start battles) where
  inFlight := by intro k link h; simp [start] at h
  origin := by intro e h; simp [start] at h

theorem Placed.quiet (h : Placed s) (hq : Quiet s t) : Placed t where
  inFlight := by
    intro k link hk x hx
    obtain ⟨old, hold, hx⟩ := hq.links k link hk x hx
    exact h.inFlight k old hold x hx
  origin := by
    intro e he
    rw [hq.served] at he
    obtain ⟨link, hk, hb⟩ := h.origin e he
    obtain ⟨link', hk', hb'⟩ := hq.battles _ link hk
    exact ⟨link', hk', hb'.trans hb⟩

theorem Placed.congr (h : Placed s) (hl : t.links = s.links) (hs : t.served = s.served) :
    Placed t where
  inFlight := by rw [hl]; exact h.inFlight
  origin := by rw [hl, hs]; exact h.origin

theorem Placed.origin_setLink (h : Placed s) {k : StreamId} {link link' : Link}
    (hk : s.links[k]? = some link) (hb : link'.battle = link.battle) (e : Served)
    (he : e ∈ s.served) :
    ∃ x, (s.setLink k link').links[e.transfer.stream]? = some x ∧ x.battle = e.battle := by
  obtain ⟨x, hx, hxb⟩ := h.origin e he
  obtain ⟨x', hx', hxb'⟩ := sameBattles_setLink hk hb _ x hx
  exact ⟨x', hx', hxb'.trans hxb⟩

theorem write_placed (h : Placed s) {ok : Bool} (hr : s.write ok = some t) : Placed t := by
  obtain ⟨job, entry, -, rfl | ⟨link, hk, rfl⟩⟩ := write_cases hr
  · exact h.congr rfl rfl
  · constructor
    · intro j x hj y hy
      rcases links_setLink hk hj with ⟨rfl, rfl⟩ | ⟨_, hj⟩
      · rcases List.mem_append.mp hy with hy | hy
        · exact h.inFlight _ link hk y hy
        · rw [List.mem_singleton.mp hy]
          rfl
      · exact h.inFlight j x hj y hy
    · exact h.origin_setLink hk rfl

theorem serve_placed (h : Placed s) {k : StreamId} {answers : Answers}
    (hr : s.serve k answers = some t) : Placed t := by
  obtain ⟨battle, pc, transfer, toBattle, toMatch, hk, rfl⟩ := serve_cases hr
  constructor
  · intro j x hj y hy
    rcases links_setLink hk hj with ⟨rfl, rfl⟩ | ⟨_, hj⟩
    · exact h.inFlight _ _ hk y (List.mem_cons_of_mem _ hy)
    · exact h.inFlight j x hj y hy
  · intro e he
    rcases List.mem_cons.mp he with rfl | he
    · have hst : transfer.stream = k := h.inFlight k _ hk transfer List.mem_cons_self
      exact ⟨_, by dsimp only; rw [hst]; exact setLink_self hk, rfl⟩
    · refine h.origin_setLink hk ?_ e he
      rfl

/-- The steps of the caller other than `Write` touch no link. -/
theorem caller_links (h : (∃ lpid rpid, s.call lpid rpid = some t) ∨ s.choose = some t ∨
      s.endWait = some t ∨ s.check = some t) :
    t.links = s.links ∧ t.served = s.served := by
  rcases h with ⟨lpid, rpid, h⟩ | h | h | h
  · obtain ⟨-, rfl⟩ := call_cases h
    exact ⟨rfl, rfl⟩
  · obtain ⟨_, -, ⟨-, rfl⟩ | ⟨_, _, -, rfl⟩⟩ := choose_cases h <;> exact ⟨rfl, rfl⟩
  · obtain ⟨_, _, -, rfl⟩ := endWait_cases h
    exact ⟨rfl, rfl⟩
  · obtain ⟨_, _, -, ⟨-, rfl⟩ | ⟨-, rfl⟩⟩ := check_cases h <;> exact ⟨rfl, rfl⟩

theorem step_placed (s : System) (l : Label) (t : System) (h : Placed s)
    (hr : step machineId s l = some t) : Placed t := by
  rcases step_cases hr with hq | hc | hc | ⟨ok, hc⟩ | hc | ⟨_, hc⟩ | ⟨k, answers, hc⟩
  · exact h.quiet hq
  · obtain ⟨hl, hs⟩ := caller_links (.inl hc)
    exact h.congr hl hs
  · obtain ⟨hl, hs⟩ := caller_links (.inr (.inl hc))
    exact h.congr hl hs
  · exact write_placed h hc
  · obtain ⟨hl, hs⟩ := caller_links (.inr (.inr (.inl hc)))
    exact h.congr hl hs
  · obtain ⟨hl, hs⟩ := caller_links (.inr (.inr (.inr hc)))
    exact h.congr hl hs
  · exact serve_placed h hc

/-! ## Pieces of runs -/

/-- Battle servers that have just started. -/
def twoServers : BattleId → MyBattle := fun _ => MyBattle.start

def register (k : StreamId) : List Label := [.connect k, .readId k, .insert k]

/-- Redis and the database answer; the cookies are those of accounts 10 and 20. -/
def answering : Answers :=
  ⟨⟨some (Vector.replicate 32 10, "match"), some (Vector.replicate 32 20, "match")⟩, true,
    ⟨.ok ⟨1, 0, 0, 0⟩, .ok ⟨1, 0, 0, 0⟩⟩⟩

/-- The database connection is down. -/
def refusing : Answers := { answering with connection := false }

/-- An attempt up to its `Write`. -/
def attempt : List Label := [.choose, .write true]

/-- A battle server answers and its handler reports the answer. -/
def report (k : StreamId) (answers : Answers) : List Label :=
  [.serve k answers, .readFlag k, .storeFlag k, .readUsage k]

end System
end DrgbServer.Match
