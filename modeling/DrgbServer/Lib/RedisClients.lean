import DrgbServer.Lib.Redis
import DrgbServer.Lib.Transition

/-! # Clients that share a Redis server

Each client goes through stages, at each of which it runs a program on its own
connection, one command at a time; between two commands of one client any commands of
the others may come, a connection may be lost and keys may expire.

`Prog.Guarded B` says of a program that it writes in transactions only, and that their
blocks satisfy `B`. What such clients do to the store is then known step by step. -/
namespace DrgbServer.Lib.Redis

variable {S α : Type}

/-- A program at its next command, or at its end. -/
inductive Task (α : Type) where
  | done (a : α)
  | busy (next : Command) (rest : List Command) (replies : List Reply) (k : List Reply → Prog α)

/-- The program up to its next command. -/
def Prog.resume (isOpen : Bool) : Prog α → Task α
  | .ret a => .done a
  | .isOpen k => (k isOpen).resume isOpen
  | .query [] k => (k []).resume isOpen
  | .query (text :: rest) k =>
    if isOpen then .busy (command text) (rest.map command) [] k else (k []).resume isOpen

theorem Prog.resume_query {queries : List Word} {q : Command} {rest : List Command}
    (h : queries.map command = q :: rest) (k : List Reply → Prog α) :
    (Prog.query queries k).resume true = .busy q rest [] k := by
  obtain ⟨text, texts, rfl, rfl, rfl⟩ := List.map_eq_cons_iff.mp h
  rfl

/-- The query after one more reply. -/
def Task.advance (isOpen : Bool) (rest : List Command) (replies : List Reply)
    (k : List Reply → Prog α) : Task α :=
  match rest with
  | [] => (k replies).resume isOpen
  | c :: rest => .busy c rest replies k

structure Client (S α : Type) where
  stage : S
  task : Task α
  conn : Conn
  /-- the values when it sent its last `EXEC` -/
  atExec : Option (Word → Option Value)

/-- The stages: the program of each and what follows it. -/
structure Behaviour (S α : Type) where
  body : S → Prog α
  next : S → α → Option S

structure System (S α : Type) where
  db : Db
  clients : List (Client S α)

inductive Label (S : Type) where
  | start (stage : S)
  | step (i : Nat)
  | lose (i : Nat)
  | expire (keys : List Word)

namespace Client

def start (b : Behaviour S α) (stage : S) : Client S α :=
  ⟨stage, (b.body stage).resume true, .idle, none⟩

/-- The client sends its next command, or goes on to its next stage. -/
def step (b : Behaviour S α) (c : Client S α) (db : Db) : Option (Client S α × Db) :=
  match c.task with
  | .done a => (b.next c.stage a).map fun stage =>
    ({ c with stage, task := (b.body stage).resume c.conn.isOpen }, db)
  | .busy q rest replies k =>
    let (reply, conn, db') := c.conn.dispatch db q
    some (⟨c.stage, .advance conn.isOpen rest (replies ++ [reply]) k, conn,
      if q = .exec then some db.value else c.atExec⟩, db')

/-- All a step can do. -/
theorem step_cases {b : Behaviour S α} {c c' : Client S α} {db db' : Db}
    (h : c.step b db = some (c', db')) :
    (∃ a stage, c.task = .done a ∧ b.next c.stage a = some stage ∧
      c' = { c with stage, task := (b.body stage).resume c.conn.isOpen } ∧ db' = db) ∨
    (∃ q rest replies k, c.task = .busy q rest replies k ∧
      c' = ⟨c.stage, .advance (c.conn.dispatch db q).2.1.isOpen rest
          (replies ++ [(c.conn.dispatch db q).1]) k, (c.conn.dispatch db q).2.1,
        if q = .exec then some db.value else c.atExec⟩ ∧
      db' = (c.conn.dispatch db q).2.2) := by
  unfold step at h
  split at h
  · rename_i a ht
    obtain ⟨stage, hn, heq⟩ := Option.map_eq_some_iff.mp h
    rw [Prod.mk.injEq] at heq
    exact .inl ⟨a, stage, ht, hn, heq.1.symm, heq.2.symm⟩
  · rename_i q rest replies k ht
    simp only [Option.some.injEq, Prod.mk.injEq] at h
    exact .inr ⟨q, rest, replies, k, ht, h.1.symm, h.2.symm⟩

/-- The connection is gone, and the query under way has no replies. -/
def lose (c : Client S α) : Client S α :=
  match c.task with
  | .done _ => { c with conn := ⟨false, [], none⟩ }
  | .busy _ _ _ k => { c with task := (k []).resume false, conn := ⟨false, [], none⟩ }

end Client

namespace System

def step (b : Behaviour S α) (s : System S α) : Label S → Option (System S α)
  | .start stage => some { s with clients := s.clients ++ [.start b stage] }
  | .step i => s.clients[i]?.bind fun c => (c.step b s.db).map fun (c, db) =>
    ⟨db, s.clients.set i c⟩
  | .lose i => s.clients[i]?.map fun c => { s with clients := s.clients.set i c.lose }
  | .expire keys => some { s with db := s.db.expire keys }

end System

/-! ## Versions -/

theorem Conn.evolves_dispatch (conn : Conn) (db : Db) (c : Command) :
    db.Evolves (conn.dispatch db c).2.2 := by
  have hexec : db.Evolves (conn.exec db).2.2 := by
    unfold Conn.exec
    split
    · exact .refl db
    · split
      · exact Db.evolves_applyAll db _
      · exact .refl db
  unfold Conn.dispatch
  split
  case h_1 => exact hexec
  all_goals first | exact .refl db | exact Db.evolves_apply db _

/-! ## Writing in transactions only -/

/-- The commands since `MULTI`, after one more. -/
def queueAfter (queued : Option (List Command)) (c : Command) : Option (List Command) :=
  match c, queued with
  | .exec, _ => none
  | .multi, none => some []
  | .multi, some block | .watch _, some block | .unknown, some block => some block
  | c, some block => some (block ++ [c])
  | _, none => none

/-- A block that is executed satisfies `B`, and outside of blocks nothing is written. -/
def Allowed (B : List Command → Prop) (queued : Option (List Command)) (c : Command) : Prop :=
  match c, queued with
  | .exec, some block => B block
  | _, some _ => True
  | c, none => c.harmless = true

/-- The rest of a query: every command is allowed, and no block is left open. -/
def Guarded (B : List Command → Prop) : Option (List Command) → List Command → Prop
  | queued, [] => queued = none
  | queued, c :: rest => Allowed B queued c ∧ Guarded B (queueAfter queued c) rest

/-- The program writes in transactions with blocks in `B` only, whatever the replies. -/
def Prog.Guarded (B : List Command → Prop) : Prog α → Prop
  | .ret _ => True
  | .isOpen k => ∀ isOpen, (k isOpen).Guarded B
  | .query queries k => Redis.Guarded B none (queries.map command) ∧
      ∀ replies, (k replies).Guarded B

def Task.Guarded (B : List Command → Prop) (queued : Option (List Command)) : Task α → Prop
  | .done _ => queued = none
  | .busy q rest _ k => Redis.Guarded B queued (q :: rest) ∧ ∀ replies, (k replies).Guarded B

variable {B : List Command → Prop}

theorem Conn.dispatch_queued (conn : Conn) (db : Db) (c : Command) :
    (conn.dispatch db c).2.1.queued = queueAfter conn.queued c := by
  obtain ⟨isOpen, watched, queued⟩ := conn
  cases c <;> cases queued <;> try rfl
  simp only [dispatch, exec, queueAfter]
  split <;> rfl

/-- A command that joins the block does nothing else. -/
theorem Conn.dispatch_queues {conn : Conn} {block : List Command} {c : Command} (db : Db)
    (hq : conn.queued = some block) (h : queueAfter (some block) c = some (block ++ [c])) :
    conn.dispatch db c = (.status, { conn with queued := some (block ++ [c]) }, db) := by
  obtain ⟨isOpen, watched, queued⟩ := conn
  cases hq
  cases c <;> first | rfl | simp [queueAfter] at h

/-- What an allowed command does to the values: nothing, or a block in `B` is executed. -/
theorem Conn.dispatch_effect {conn : Conn} {c : Command} (db : Db)
    (h : Allowed B conn.queued c) : (conn.dispatch db c).2.2.value = db.value ∨
      (c = .exec ∧ ∃ block, B block ∧ (conn.dispatch db c).2.2 = (db.applyAll block).2) := by
  obtain ⟨isOpen, watched, queued⟩ := conn
  cases queued with
  | none =>
    left
    cases c with
    | exec => rfl
    | multi => rfl
    | watch key => rfl
    | unknown => rfl
    | _ => exact Db.apply_harmless h db
  | some block =>
    cases c with
    | exec =>
      by_cases hclean : (Conn.mk isOpen watched (some block)).clean db = true
      · refine .inr ⟨rfl, block, h, ?_⟩
        simp only [dispatch, exec, hclean, if_true]
      · refine .inl ?_
        simp only [dispatch, exec, hclean, Bool.false_eq_true, if_false]
    | _ => exact .inl rfl

theorem Prog.Guarded.resume {p : Prog α} (h : p.Guarded B) (isOpen : Bool) :
    (p.resume isOpen).Guarded B none := by
  induction p with
  | ret a => rfl
  | isOpen k ih => exact ih isOpen (h isOpen)
  | query queries k ih =>
    cases queries with
    | nil => exact ih [] (h.2 [])
    | cons text rest =>
      rw [Prog.resume]
      split
      · exact h
      · exact ih [] (h.2 [])

theorem Task.Guarded.advance {queued : Option (List Command)} {rest : List Command}
    {replies : List Reply} {k : List Reply → Prog α} (hrest : Redis.Guarded B queued rest)
    (hk : ∀ replies, (k replies).Guarded B) (isOpen : Bool) :
    (Task.advance isOpen rest replies k).Guarded B queued := by
  cases rest with
  | nil =>
    have hq : queued = none := hrest
    rw [hq]
    exact (hk replies).resume isOpen
  | cons c rest => exact ⟨hrest, hk⟩

/-! ## Clients that are guarded -/

def Client.Guarded (B : S → List Command → Prop) (c : Client S α) : Prop :=
  c.task.Guarded (B c.stage) c.conn.queued

/-- The stage whose block the step executes. -/
def Client.executes (c : Client S α) : Bool :=
  match c.task with
  | .busy .exec _ _ _ => true
  | _ => false

section Guarded
variable {b : Behaviour S α} {B : S → List Command → Prop} {c c' : Client S α} {db db' : Db}

theorem Client.Guarded.start (hb : ∀ stage, (b.body stage).Guarded (B stage)) (stage : S) :
    (Client.start b stage).Guarded B := (hb stage).resume true

theorem Client.Guarded.lose (h : c.Guarded B) : c.lose.Guarded B := by
  unfold Client.Guarded at *
  cases ht : c.task with
  | done a => simp only [Client.lose, ht, Task.Guarded]
  | busy q rest replies k =>
    rw [ht] at h
    simp only [Client.lose, ht]
    exact (h.2 []).resume false

/-- **One step of a guarded client.** -/
theorem Client.Guarded.step (hb : ∀ stage, (b.body stage).Guarded (B stage)) (h : c.Guarded B)
    (hs : c.step b db = some (c', db')) : c'.Guarded B ∧ (db'.value = db.value ∨
      (c.executes = true ∧ ∃ block, B c.stage block ∧ db' = (db.applyAll block).2)) := by
  unfold Client.Guarded at h
  rcases Client.step_cases hs with ⟨a, stage, ht, _, rfl, rfl⟩ | ⟨q, rest, replies, k, ht, rfl, rfl⟩
  · rw [ht] at h
    have hq : c.conn.queued = none := h
    refine ⟨?_, .inl rfl⟩
    unfold Client.Guarded
    rw [hq]
    exact (hb stage).resume c.conn.isOpen
  · rw [ht] at h
    obtain ⟨⟨hallowed, hrest⟩, hk⟩ := h
    constructor
    · unfold Client.Guarded
      rw [Conn.dispatch_queued]
      exact Task.Guarded.advance hrest hk _
    · rcases Conn.dispatch_effect db hallowed with heff | ⟨rfl, heff⟩
      · exact .inl heff
      · exact .inr ⟨by simp [Client.executes, ht], heff⟩

theorem Client.evolves_step (hs : c.step b db = some (c', db')) : db.Evolves db' := by
  rcases Client.step_cases hs with ⟨a, stage, _, _, _, rfl⟩ | ⟨q, rest, replies, k, _, _, rfl⟩
  · exact .refl db'
  · exact Conn.evolves_dispatch _ db _

end Guarded

/-! ## Systems -/

namespace System
variable {b : Behaviour S α} {s t : System S α} {l : Label S}

/-- All a step can do. -/
theorem step_cases (h : s.step b l = some t) :
    (∃ stage, l = .start stage ∧ t = ⟨s.db, s.clients ++ [.start b stage]⟩) ∨
    (∃ i c c' db', l = .step i ∧ s.clients[i]? = some c ∧ c.step b s.db = some (c', db') ∧
      t = ⟨db', s.clients.set i c'⟩) ∨
    (∃ i c, l = .lose i ∧ s.clients[i]? = some c ∧ t = ⟨s.db, s.clients.set i c.lose⟩) ∨
    ∃ keys, l = .expire keys ∧ t = ⟨s.db.expire keys, s.clients⟩ := by
  cases l with
  | start stage =>
    cases h
    exact .inl ⟨stage, rfl, rfl⟩
  | step i =>
    obtain ⟨c, hc, h⟩ := Option.bind_eq_some_iff.mp h
    obtain ⟨⟨c', db'⟩, hs, heq⟩ := Option.map_eq_some_iff.mp h
    cases heq
    exact .inr (.inl ⟨i, c, c', db', rfl, hc, hs, rfl⟩)
  | lose i =>
    obtain ⟨c, hc, heq⟩ := Option.map_eq_some_iff.mp h
    cases heq
    exact .inr (.inr (.inl ⟨i, c, rfl, hc, rfl⟩))
  | expire keys =>
    cases h
    exact .inr (.inr (.inr ⟨keys, rfl, rfl⟩))

theorem evolves_step (h : s.step b l = some t) : s.db.Evolves t.db := by
  rcases step_cases h with ⟨_, _, rfl⟩ | ⟨_, _, _, _, _, _, hs, rfl⟩ | ⟨_, _, _, _, rfl⟩ | ⟨_, _, rfl⟩
  · exact .refl _
  · exact Client.evolves_step hs
  · exact .refl _
  · exact Db.evolves_expire _ _

/-- **The rule for what holds of every client**: the step keeps it of the client that moves,
and what the step does to the store keeps it of the others. -/
theorem step_forall {Φ : Db → Client S α → Prop} (hstart : ∀ stage, Φ t.db (.start b stage))
    (hstep : ∀ c c' db', c ∈ s.clients → c.step b s.db = some (c', db') → Φ s.db c → Φ db' c')
    (hlose : ∀ c ∈ s.clients, Φ s.db c → Φ s.db c.lose)
    (hstable : ∀ c ∈ s.clients, Φ s.db c → Φ t.db c) (hr : s.step b l = some t)
    (h : ∀ c ∈ s.clients, Φ s.db c) : ∀ c ∈ t.clients, Φ t.db c := by
  have hold : ∀ c ∈ s.clients, Φ t.db c := fun c hc => hstable c hc (h c hc)
  rcases step_cases hr with ⟨stage, _, rfl⟩ | ⟨i, c, c', db', _, hc, hs, rfl⟩ |
      ⟨i, c, _, hc, rfl⟩ | ⟨keys, _, rfl⟩
  · intro d hd
    rcases List.mem_append.mp hd with hd | hd
    · exact hold d hd
    · rw [List.mem_singleton.mp hd]
      exact hstart stage
  · have hmem := List.mem_of_getElem? hc
    intro d hd
    rcases List.mem_or_eq_of_mem_set hd with hd | rfl
    · exact hold d hd
    · exact hstep c _ db' hmem hs (h c hmem)
  · have hmem := List.mem_of_getElem? hc
    intro d hd
    rcases List.mem_or_eq_of_mem_set hd with hd | rfl
    · exact hold d hd
    · exact hlose c hmem (h c hmem)
  · exact hold

section Guarded
variable {B : S → List Command → Prop} (hb : ∀ stage, (b.body stage).Guarded (B stage))
include hb

theorem step_guarded (hr : s.step b l = some t) (h : ∀ c ∈ s.clients, c.Guarded B) :
    ∀ c ∈ t.clients, c.Guarded B :=
  step_forall (Φ := fun _ c => c.Guarded B) (fun stage => .start hb stage)
    (fun _ _ _ _ hs hc => (hc.step hb hs).1) (fun _ _ hc => hc.lose) (fun _ _ hc => hc) hr h

/-- What a step of guarded clients does to the values. -/
theorem step_effect (hr : s.step b l = some t) (h : ∀ c ∈ s.clients, c.Guarded B) :
    t.db.value = s.db.value ∨ (∃ keys, l = .expire keys ∧ t.db = s.db.expire keys) ∨
    ∃ i c block, l = .step i ∧ s.clients[i]? = some c ∧ c.executes = true ∧ B c.stage block ∧
      t.db = (s.db.applyAll block).2 := by
  rcases step_cases hr with ⟨_, _, rfl⟩ | ⟨i, c, c', db', hl, hc, hs, rfl⟩ | ⟨_, _, _, _, rfl⟩ |
      ⟨keys, hl, rfl⟩
  · exact .inl rfl
  · rcases ((h c (List.mem_of_getElem? hc)).step hb hs).2 with heff | ⟨he, block, hB, heff⟩
    · exact .inl heff
    · exact .inr (.inr ⟨i, c, block, hl, hc, he, hB, heff⟩)
  · exact .inl rfl
  · exact .inr (.inl ⟨keys, hl, rfl⟩)

end Guarded
end System

end DrgbServer.Lib.Redis
