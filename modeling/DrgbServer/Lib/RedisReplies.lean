import DrgbServer.Lib.RedisClients

/-! # What a program answers, by what the server replies to it

`Prog.Answers R Q` says that the program answers `Q` whenever each of its commands was
replied to as `R` allows. Among other clients the store changes between two commands, so
`R` and `Q` belong to a world, and worlds only grow: what a client has been told stays
true, and what it will be told holds in a later world. -/
namespace DrgbServer.Lib.Redis

variable {S α : Type}

/-- If each reply is as `R` allows, the answer is as `Q` says. A query on a lost connection
has no replies. -/
def Prog.Answers (R : Command → Reply → Prop) (Q : α → Prop) : Prog α → Prop
  | .ret a => Q a
  | .isOpen k => ∀ isOpen, (k isOpen).Answers R Q
  | .query queries k => (k []).Answers R Q ∧
      ∀ replies, List.Forall₂ R (queries.map command) replies → (k replies).Answers R Q

/-- The same of a program under way, with the replies it has. -/
def Task.Answers (R : Command → Reply → Prop) (Q : α → Prop) : Task α → Prop
  | .done a => Q a
  | .busy q rest replies k => (k []).Answers R Q ∧
      ∀ more, List.Forall₂ R (q :: rest) more → (k (replies ++ more)).Answers R Q

section Replies
variable {R : Command → Reply → Prop} {Q : α → Prop}

theorem Prog.Answers.imp {P : α → Prop} {p : Prog α} (h : p.Answers R P) (hpq : ∀ a, P a → Q a) :
    p.Answers R Q := by
  induction p with
  | ret a => exact hpq a h
  | isOpen k ih => exact fun isOpen => ih isOpen (h isOpen)
  | query queries k ih => exact ⟨ih [] h.1, fun replies hr => ih replies (h.2 replies hr)⟩

theorem Prog.Answers.resume {p : Prog α} (h : p.Answers R Q) (isOpen : Bool) :
    (p.resume isOpen).Answers R Q := by
  induction p with
  | ret a => exact h
  | isOpen k ih => exact ih isOpen (h isOpen)
  | query queries k ih =>
    cases queries with
    | nil => exact ih [] h.1
    | cons text rest =>
      rw [Prog.resume]
      split
      · exact h
      · exact ih [] h.1

/-- One more reply. -/
theorem Task.Answers.advance {q : Command} {rest : List Command} {replies : List Reply}
    {k : List Reply → Prog α} {reply : Reply} (h : (Task.busy q rest replies k).Answers R Q)
    (hr : R q reply) (isOpen : Bool) :
    (Task.advance isOpen rest (replies ++ [reply]) k).Answers R Q := by
  obtain ⟨hlost, hall⟩ := h
  cases rest with
  | nil => exact (hall [reply] (.cons hr .nil)).resume isOpen
  | cons c rest =>
    refine ⟨hlost, fun more hmore => ?_⟩
    have hk := hall (reply :: more) (.cons hr hmore)
    rwa [List.append_cons] at hk

/-- What a connection replies: an acknowledgement, an error, or what the command says. -/
theorem Conn.dispatch_reply (conn : Conn) (db : Db) (c : Command) : c = .exec ∨
    (conn.dispatch db c).1 = .status ∨ (conn.dispatch db c).1 = .error ∨
    (conn.dispatch db c).1 = (db.apply c).1 := by
  obtain ⟨isOpen, watched, queued⟩ := conn
  cases c with
  | exec => exact .inl rfl
  | unknown => exact .inr (.inr (.inl rfl))
  | _ => cases queued <;> simp [dispatch]

end Replies

/-! ## Weaker blocks -/

section Blocks
variable {B B' : List Command → Prop}

theorem Allowed.imp {queued : Option (List Command)} {c : Command} (h : Allowed B queued c)
    (hb : ∀ block, B block → B' block) : Allowed B' queued c := by
  cases queued with
  | none => cases c <;> exact h
  | some block => cases c <;> first | exact hb block h | trivial

theorem Guarded.imp {queued : Option (List Command)} {cs : List Command}
    (h : Guarded B queued cs) (hb : ∀ block, B block → B' block) : Guarded B' queued cs := by
  induction cs generalizing queued with
  | nil => exact h
  | cons c rest ih => exact ⟨h.1.imp hb, ih h.2⟩

theorem Prog.Guarded.imp {p : Prog α} (h : p.Guarded B) (hb : ∀ block, B block → B' block) :
    p.Guarded B' := by
  induction p with
  | ret a => trivial
  | isOpen k ih => exact fun isOpen => ih isOpen (h isOpen)
  | query queries k ih => exact ⟨h.1.imp hb, fun replies => ih replies (h.2 replies)⟩

end Blocks

/-! ## Clients -/

section Worlds
variable {W : Type} [Preorder W] (R : W → Command → Reply → Prop) (Q : W → S → α → Prop)

/-- In every later world the client answers what its stage promises there. -/
def Client.Answers (w : W) (c : Client S α) : Prop :=
  ∀ v, w ≤ v → c.task.Answers (R v) (Q v c.stage)

variable {R Q} {b : Behaviour S α} {c c' : Client S α} {db db' : Db} {v w : W}

theorem Client.Answers.later (h : c.Answers R Q w) (hv : w ≤ v) : c.Answers R Q v :=
  fun u hu => h u (hv.trans hu)

theorem Client.Answers.start {stage : S} (hb : ∀ v, (b.body stage).Answers (R v) (Q v stage)) :
    (Client.start b stage).Answers R Q w := fun v _ => (hb v).resume true

/-- A client at its end has an answer its stage promises. -/
theorem Client.Answers.done (h : c.Answers R Q w) {a : α} (ht : c.task = .done a) :
    Q w c.stage a := by
  have hw := h w le_rfl
  rw [ht] at hw
  exact hw

theorem Client.Answers.lose (h : c.Answers R Q w) : c.lose.Answers R Q w := by
  intro v hv
  have hc := h v hv
  unfold Client.lose
  cases ht : c.task with
  | done a =>
    simp only [ht] at hc ⊢
    exact hc
  | busy q rest replies k =>
    rw [ht] at hc
    exact hc.1.resume false

/-- **One step of a client**, where a reply in this world is one in every later world. -/
theorem Client.Answers.step (hb : ∀ stage v, (b.body stage).Answers (R v) (Q v stage))
    (hmono : ∀ {u v} {q : Command} {r : Reply}, u ≤ v → R u q r → R v q r)
    (hreply : ∀ q, R w q (c.conn.dispatch db q).1) (hs : c.step b db = some (c', db'))
    (h : c.Answers R Q w) : c'.Answers R Q w := by
  intro v hv
  rcases Client.step_cases hs with ⟨a, stage, _, _, rfl, _⟩ | ⟨q, rest, replies, k, ht, rfl, _⟩
  · exact (hb stage v).resume _
  · have hc := h v hv
    rw [ht] at hc
    exact hc.advance (hmono hv (hreply q)) _

end Worlds

end DrgbServer.Lib.Redis
