import DrgbServer.Redis.Sharing

/-! # The conditional updates among other clients

`RefreshInfo` and `ClearInfo` verify the entry of the cookie with `LRANGE` and watch its
key only then. What is changed after the `WATCH` makes `EXEC` fail; a change between the
two queries goes unnoticed. -/
namespace DrgbServer.Redis
open DrgbServer.Utils DrgbServer.Lib.Redis DrgbServer.Lib.Transition MyRedis

/-- Calls that come and go, each on its own. -/
def calls : Behaviour Call Answer := ⟨Call.body, fun _ _ => none⟩

abbrev Caller := Client Call Answer

/-- The call has returned `true`. -/
def returnedTrue (c : Caller) : Bool :=
  match c.task with
  | .done (.flag result) => result
  | _ => false

/-- The entry of the cookie at the `EXEC` of the call was that of the account and server. -/
def sawEntry (c : Caller) (id : AccountId) (cookie : Hash) (serverName : ServerName) : Bool :=
  match c.atExec with
  | none => false
  | some values => decide (values (cookieKey cookie) = some (entry id serverName))

/-- A call that returns `true` found the entry it was told. -/
def conditionalOn (c : Caller) : Bool :=
  match c.stage with
  | .refreshInfo id cookie serverName | .clearInfo id cookie serverName =>
    !returnedTrue c || sawEntry c id cookie serverName
  | _ => true

/-- The entry the call has verified and does not watch yet. -/
def exposed (c : Caller) : Option Word :=
  match c.stage, c.task with
  | .refreshInfo _ cookie _, .busy (.watch key) _ _ _
  | .clearInfo _ cookie _, .busy (.watch key) _ _ _ =>
    if key = cookieKey cookie then some key else none
  | _, _ => none

/-- The step changes no entry that some call has verified and does not watch yet. -/
def undisturbed (s : System Call Answer) (l : Label Call) : Bool :=
  match s.step calls l with
  | none => true
  | some t => s.clients.all fun c => match exposed c with
    | none => true
    | some key => decide (t.db.value key = s.db.value key)

/-- The session moves to a battle server between the two queries of `ClearInfo`. -/
def moved : List (Label Call) :=
  .start (.setInfo 5 (toHash []) keywordMatch) :: List.replicate 6 (.step 0) ++
  .start (.clearInfo 5 (toHash []) keywordMatch) :: .step 1 ::
  .start (.setInfo 5 (toHash []) battleOne) :: List.replicate 6 (.step 2) ++
  List.replicate 6 (.step 1)

theorem not_conditional_moved : ∃ s, run (System.step calls) ⟨.empty, []⟩ moved = some s ∧
    ¬ ∀ c ∈ s.clients, conditionalOn c = true :=
  exists_run_of_any (by decide +kernel)

/-! ## Where a call stands -/

/-- Every entry is a pair, as `SetInfo` writes it. -/
def Paired (db : Db) : Prop :=
  ∀ cookie v, db.value (cookieKey cookie) = some v → ∃ a b, v = .list [a, b]

section Standing
variable (id : AccountId) (cookie : Hash) (serverName : ServerName) (first second : Command)

/-- The transaction after a number of its commands. The entry is as verified, and once it is
watched it is so as long as its version stands. -/
inductive Standing (db : Db) : Conn → Nat → List Command → Prop
  | verified (h : db.value (cookieKey cookie) = some (entry id serverName)) :
    Standing db .idle 0
      [.watch (cookieKey cookie), .watch (accountKey id), .multi, first, second, .exec]
  | watchedCookie {v : Nat} (h : db.Holds (cookieKey cookie) (entry id serverName) v) :
    Standing db ⟨true, [(cookieKey cookie, v)], none⟩ 1
      [.watch (accountKey id), .multi, first, second, .exec]
  | watched {v w : Nat} (h : db.Holds (cookieKey cookie) (entry id serverName) v) :
    Standing db ⟨true, [(accountKey id, w), (cookieKey cookie, v)], none⟩ 2
      [.multi, first, second, .exec]
  | multi {v w : Nat} (h : db.Holds (cookieKey cookie) (entry id serverName) v) :
    Standing db ⟨true, [(accountKey id, w), (cookieKey cookie, v)], some []⟩ 3
      [first, second, .exec]
  | queuedFirst {v w : Nat} (h : db.Holds (cookieKey cookie) (entry id serverName) v) :
    Standing db ⟨true, [(accountKey id, w), (cookieKey cookie, v)], some [first]⟩ 4
      [second, .exec]
  | queued {v w : Nat} (h : db.Holds (cookieKey cookie) (entry id serverName) v) :
    Standing db ⟨true, [(accountKey id, w), (cookieKey cookie, v)], some [first, second]⟩ 5
      [.exec]

/-- What holds of a conditional call: before the verification nothing, in the transaction
`Standing`, and after it what the call promises. -/
def CheckedFor (commands : List Text) (db : Db) (c : Caller) : Prop :=
  match c.task with
  | .done _ => returnedTrue c = true → sawEntry c id cookie serverName = true
  | .busy q rest replies k =>
    (q = .lrange (cookieKey cookie) 0 1 ∧ rest = [] ∧ replies = [] ∧ c.conn = .idle ∧
      k = transact id cookie serverName commands) ∨
    (k = outcome 6 ∧ Standing id cookie serverName first second db c.conn replies.length (q :: rest))

end Standing

def Checked (db : Db) (c : Caller) : Prop :=
  match c.stage with
  | .refreshInfo id cookie serverName =>
    CheckedFor id cookie serverName (.pexpire (cookieKey cookie) sessionTimeout)
      (.pexpire (accountKey id) sessionTimeout) (refreshCommands id cookie) db c
  | .clearInfo id cookie serverName =>
    CheckedFor id cookie serverName (.del (cookieKey cookie)) (.del (accountKey id))
      (clearCommands id cookie) db c
  | _ => True

section Steps
variable {id : AccountId} {cookie : Hash} {serverName : ServerName} {first second : Command}
  {commands : List Text} {db db' : Db} {c c' : Caller}

/-- The steps of others: the entry may not change while it is verified only. -/
theorem Standing.evolves {conn : Conn} {n : Nat} {rest : List Command}
    (h : Standing id cookie serverName first second db conn n rest) (he : db.Evolves db')
    (hv : n = 0 → db'.value (cookieKey cookie) = db.value (cookieKey cookie)) :
    Standing id cookie serverName first second db' conn n rest := by
  cases h with
  | verified h => exact .verified (by rw [hv rfl, h])
  | watchedCookie h => exact .watchedCookie (h.evolves he)
  | watched h => exact .watched (h.evolves he)
  | multi h => exact .multi (h.evolves he)
  | queuedFirst h => exact .queuedFirst (h.evolves he)
  | queued h => exact .queued (h.evolves he)

/-- A call that is not at its end yet. -/
theorem checkedFor_busy {stage : Call} {q : Command} {rest : List Command} {replies : List Reply}
    {conn : Conn} {values : Option (Word → Option Value)}
    (h : Standing id cookie serverName first second db conn replies.length (q :: rest)) :
    CheckedFor id cookie serverName first second commands db
      ⟨stage, .busy q rest replies (outcome 6), conn, values⟩ := .inr ⟨rfl, h⟩

theorem checkedFor_false {stage : Call} {conn : Conn} {values : Option (Word → Option Value)} :
    CheckedFor id cookie serverName first second commands db
      ⟨stage, .done (.flag false), conn, values⟩ := nofun

/-- The verification succeeds on the entry only, as entries are pairs. -/
theorem lrange_checkedFor (hp : Paired db) (hc : commands.map command = [first, second])
    {stage : Call} {values : Option (Word → Option Value)} :
    CheckedFor id cookie serverName first second commands db ⟨stage,
      (transact id cookie serverName commands [listed (db.value (cookieKey cookie))]).resume true,
      .idle, values⟩ := by
  unfold transact
  split
  · exact checkedFor_false
  · rename_i hver
    simp only [Bool.not_eq_true', Bool.not_eq_false] at hver
    have hentry : db.value (cookieKey cookie) = some (entry id serverName) := by
      cases hv : db.value (cookieKey cookie) with
      | none =>
        rw [hv] at hver
        cases hver
      | some v =>
        obtain ⟨a, b, rfl⟩ := hp cookie v hv
        rw [hv] at hver
        obtain ⟨rfl, rfl⟩ := of_verified hver
        rfl
    have hquery := watchedQuery_commands id cookie commands
    rw [hc] at hquery
    have hsize : (watchedQuery id cookie commands).length = 6 := by
      have hlen := congrArg List.length hquery
      rwa [List.length_map] at hlen
    show CheckedFor id cookie serverName first second commands db ⟨stage, Prog.resume true
      (.query (watchedQuery id cookie commands) (outcome (watchedQuery id cookie commands).length)),
      .idle, values⟩
    rw [hsize, Prog.resume_query hquery]
    exact checkedFor_busy (.verified hentry)

/-- The end of the transaction: an array means that nobody touched the entry. -/
theorem exec_checkedFor {v w : Nat} (h : db.Holds (cookieKey cookie) (entry id serverName) v)
    {stage : Call} {replies : List Reply} (hr : replies.length = 5) {conn : Conn}
    (hconn : conn = ⟨true, [(accountKey id, w), (cookieKey cookie, v)], some [first, second]⟩) :
    CheckedFor id cookie serverName first second commands (conn.dispatch db .exec).2.2 ⟨stage,
      .advance (conn.dispatch db .exec).2.1.isOpen [] (replies ++ [(conn.dispatch db .exec).1])
        (outcome 6), (conn.dispatch db .exec).2.1, some db.value⟩ := by
  by_cases hclean : conn.clean db = true
  · have hversion : db.version (cookieKey cookie) = v := by
      rw [hconn] at hclean
      simp only [Conn.clean, List.all_cons, List.all_nil, Bool.and_eq_true,
        decide_eq_true_eq] at hclean
      exact hclean.2.1
    intro _
    exact decide_eq_true (h.2 hversion)
  · have hnil : (conn.dispatch db .exec).1 = .nil := by
      rw [hconn] at hclean ⊢
      simp only [Conn.dispatch, Conn.exec, hclean, Bool.false_eq_true, if_false]
    rw [hnil]
    have hfail : committed 6 (replies ++ [.nil]) = false := by
      simp [committed, hr, Reply.isArray]
    show CheckedFor id cookie serverName first second commands _
      ⟨stage, .done (.flag (committed 6 (replies ++ [.nil]))), _, _⟩
    rw [hfail]
    exact checkedFor_false

/-- **One step of a conditional call.** -/
theorem step_checkedFor (hp : Paired db) (hc : commands.map command = [first, second])
    (hf : queueAfter (some []) first = some [first])
    (hs : queueAfter (some [first]) second = some [first, second])
    (h : CheckedFor id cookie serverName first second commands db c)
    (hr : c.step calls db = some (c', db')) :
    CheckedFor id cookie serverName first second commands db' c' := by
  rcases Client.step_cases hr with ⟨a, stage, _, hn, _⟩ | ⟨q, rest, replies, k, ht, rfl, rfl⟩
  · cases hn
  · obtain ⟨stage, task, conn, atExec⟩ := c
    cases ht
    rcases h with ⟨rfl, rfl, rfl, rfl, rfl⟩ | ⟨rfl, h⟩
    · rw [dispatch_lrange]
      exact lrange_checkedFor hp hc
    · generalize hlen : replies.length = n at h
      generalize hl : q :: rest = left at h
      have hnext : ∀ r : Reply, (replies ++ [r]).length = n + 1 := by
        intro r
        rw [List.length_append, hlen]
        rfl
      cases h with
      | verified h =>
        cases hl
        refine checkedFor_busy ?_
        rw [hnext]
        exact .watchedCookie (Db.holds_now h)
      | watchedCookie h =>
        cases hl
        refine checkedFor_busy ?_
        rw [hnext]
        exact .watched h
      | watched h =>
        cases hl
        refine checkedFor_busy ?_
        rw [hnext]
        exact .multi h
      | multi h =>
        cases hl
        rw [Conn.dispatch_queues db rfl hf]
        refine checkedFor_busy ?_
        rw [hnext]
        exact .queuedFirst h
      | queuedFirst h =>
        cases hl
        rw [Conn.dispatch_queues db rfl hs]
        refine checkedFor_busy ?_
        rw [hnext]
        exact .queued h
      | queued h =>
        cases hl
        exact exec_checkedFor h hlen rfl

theorem start_checkedFor (stage : Call) :
    CheckedFor id cookie serverName first second commands db
      ⟨stage, (conditional id cookie serverName commands).resume true, .idle, none⟩ := by
  have hquery : [lrangeText (cookieStr cookie)].map command =
      [.lrange (cookieKey cookie) 0 1] := by
    rw [List.map_singleton, command_lrangeText]
  have hresume : (conditional id cookie serverName commands).resume true =
      .busy (.lrange (cookieKey cookie) 0 1) [] [] (transact id cookie serverName commands) :=
    Prog.resume_query hquery _
  rw [hresume]
  exact .inl ⟨rfl, rfl, rfl, rfl, rfl⟩

/-- A query without replies ends the call with `false`. -/
theorem lose_checkedFor (h : CheckedFor id cookie serverName first second commands db c) :
    CheckedFor id cookie serverName first second commands db c.lose := by
  obtain ⟨stage, task, conn, atExec⟩ := c
  cases task with
  | done a => exact h
  | busy q rest replies k =>
    rcases h with ⟨_, _, _, _, rfl⟩ | ⟨rfl, _⟩
    · exact checkedFor_false
    · exact checkedFor_false

theorem stable_checkedFor (he : db.Evolves db')
    (hv : ∀ rest replies k, c.task = .busy (.watch (cookieKey cookie)) rest replies k →
      db'.value (cookieKey cookie) = db.value (cookieKey cookie))
    (h : CheckedFor id cookie serverName first second commands db c) :
    CheckedFor id cookie serverName first second commands db' c := by
  obtain ⟨stage, task, conn, atExec⟩ := c
  cases task with
  | done a => exact h
  | busy q rest replies k =>
    rcases h with h | ⟨rfl, h⟩
    · exact .inl h
    · refine .inr ⟨rfl, h.evolves he fun hn => ?_⟩
      generalize hlen : replies.length = n at h hn
      generalize hl : q :: rest = left at h
      cases h with
      | verified h =>
        cases hl
        exact hv _ _ _ rfl
      | _ => cases hn

end Steps

/-! ## Runs -/

variable {s t : System Call Answer} {l : Label Call}

theorem checked_start (db : Db) (call : Call) : Checked db (.start calls call) := by
  cases call with
  | refreshInfo id cookie serverName => exact start_checkedFor _
  | clearInfo id cookie serverName => exact start_checkedFor _
  | _ => trivial

theorem checked_lose {db : Db} {c : Caller} (h : Checked db c) : Checked db c.lose := by
  have hstage : c.lose.stage = c.stage := by
    unfold Client.lose
    split <;> rfl
  unfold Checked at *
  rw [hstage]
  split
  · rename_i heq
    rw [heq] at h
    exact lose_checkedFor h
  · rename_i heq
    rw [heq] at h
    exact lose_checkedFor h
  · trivial

theorem checked_step {db db' : Db} {c c' : Caller} (hp : Paired db) (h : Checked db c)
    (hr : c.step calls db = some (c', db')) : Checked db' c' := by
  have hstage : c'.stage = c.stage := by
    rcases Client.step_cases hr with ⟨_, _, _, hn, _⟩ | ⟨_, _, _, _, _, rfl, _⟩
    · cases hn
    · rfl
  unfold Checked at *
  rw [hstage]
  split
  · rename_i heq
    rw [heq] at h
    exact step_checkedFor hp (refreshCommands_commands _ _) rfl rfl h hr
  · rename_i heq
    rw [heq] at h
    exact step_checkedFor hp (clearCommands_commands _ _) rfl rfl h hr
  · trivial

theorem checked_stable {db db' : Db} {c : Caller} (he : db.Evolves db')
    (hv : ∀ key, exposed c = some key → db'.value key = db.value key) (h : Checked db c) :
    Checked db' c := by
  unfold Checked at *
  split
  · rename_i id cookie serverName heq
    rw [heq] at h
    refine stable_checkedFor he (fun rest replies k ht => hv _ ?_) h
    simp [exposed, heq, ht]
  · rename_i id cookie serverName heq
    rw [heq] at h
    refine stable_checkedFor he (fun rest replies k ht => hv _ ?_) h
    simp [exposed, heq, ht]
  · trivial

/-- What the calls execute keeps the entries pairs. -/
theorem block_paired {db : Db} {call : Call} {block : List Command} (hp : Paired db)
    (hb : call.Block block) : Paired (db.applyAll block).2 := by
  intro cookie' v hv
  cases call with
  | setInfo id cookie serverName =>
    cases hb
    rw [setBlock_value, ite_cookieKey] at hv
    split at hv
    · cases hv
      exact ⟨_, _, rfl⟩
    · exact hp cookie' v hv
  | refreshInfo id cookie serverName =>
    cases hb
    rw [refreshBlock_value] at hv
    exact hp cookie' v hv
  | getInfoFromID id =>
    rw [Db.applyAll_harmless hb] at hv
    exact hp cookie' v hv
  | getInfoFromCookie cookie =>
    rw [Db.applyAll_harmless hb] at hv
    exact hp cookie' v hv
  | clearInfo id cookie serverName =>
    cases hb
    rw [clearBlock_value, ite_cookieKey] at hv
    split at hv
    · cases hv
    · exact hp cookie' v hv

/-- The invariant of a run. -/
structure Conditional (s : System Call Answer) : Prop where
  paired : Paired s.db
  guarded : ∀ c ∈ s.clients, c.Guarded Call.Block
  checked : ∀ c ∈ s.clients, Checked s.db c

theorem step_conditional (h : Conditional s) (hok : undisturbed s l = true)
    (hr : s.step calls l = some t) : Conditional t := by
  have hb : ∀ call, (calls.body call).Guarded call.Block := Call.body_guarded
  have hvalue : ∀ c ∈ s.clients, ∀ key, exposed c = some key →
      t.db.value key = s.db.value key := by
    intro c hc key hkey
    simp only [undisturbed, hr, List.all_eq_true] at hok
    have hkept := hok c hc
    rw [hkey] at hkept
    exact of_decide_eq_true hkept
  refine ⟨?_, System.step_guarded hb hr h.guarded, ?_⟩
  · rcases System.step_effect hb hr h.guarded with heff | ⟨keys, _, heff⟩ |
      ⟨i, c, block, _, _, _, hblock, heff⟩
    · unfold Paired
      rw [heff]
      exact h.paired
    · intro cookie v hv
      rw [heff, Db.expire_value] at hv
      split at hv
      · cases hv
      · exact h.paired cookie v hv
    · rw [heff]
      exact block_paired h.paired hblock
  · exact System.step_forall (Φ := Checked) (checked_start t.db)
      (fun c c' db' _ hs hc => checked_step h.paired hc hs) (fun c _ hc => checked_lose hc)
      (fun c hmem hc => checked_stable (System.evolves_step hr) (hvalue c hmem) hc) hr h.checked

theorem CheckedFor.promise {id : AccountId} {cookie : Hash} {serverName : ServerName}
    {first second : Command} {commands : List Text} {db : Db} {c : Caller}
    (h : CheckedFor id cookie serverName first second commands db c) :
    (!returnedTrue c || sawEntry c id cookie serverName) = true := by
  cases ht : c.task with
  | done a =>
    simp only [CheckedFor, ht] at h
    cases hret : returnedTrue c with
    | false => rfl
    | true => exact h hret
  | busy q rest replies k => simp [returnedTrue, ht]

theorem Checked.conditionalOn {db : Db} {c : Caller} (h : Checked db c) :
    conditionalOn c = true := by
  unfold Checked at h
  unfold Redis.conditionalOn
  split
  · rename_i heq
    rw [heq] at h
    exact h.promise
  · rename_i heq
    rw [heq] at h
    exact h.promise
  · rfl

/-- **The updates are conditional** in every run in which no entry changes between its
verification and its `WATCH`: a call that returned `true` found the entry of its account and
server at its `EXEC`. -/
theorem run_conditional {db : Db} {ls : List (Label Call)} (hp : Paired db)
    (hok : Meets (System.step calls) (fun s l => undisturbed s l = true) ⟨db, []⟩ ls)
    (hr : run (System.step calls) ⟨db, []⟩ ls = some s) :
    ∀ c ∈ s.clients, conditionalOn c = true := by
  have hstart : Conditional ⟨db, []⟩ := ⟨hp, by simp, by simp⟩
  have hend := run_invariant (fun s l t hi hl ht => step_conditional hi hl ht) hstart hok hr
  exact fun c hc => (hend.checked c hc).conditionalOn

/-- A session is set and cleared, while another client asks for it under a wrong name. -/
def calm : List (Label Call) :=
  .start (.setInfo 5 (toHash []) keywordMatch) :: List.replicate 6 (.step 0) ++
  .start (.clearInfo 5 (toHash []) keywordMatch) ::
  .start (.refreshInfo 5 (toHash []) battleOne) ::
  .step 1 :: .step 2 :: List.replicate 6 (.step 1)

theorem run_conditional_calm : ∃ s, run (System.step calls) ⟨.empty, []⟩ calm = some s ∧
    s.clients.map returnedTrue = [false, true, false] ∧
    ∀ c ∈ s.clients, conditionalOn c = true := by
  obtain ⟨s, hr, hreturned⟩ : ∃ s, run (System.step calls) ⟨.empty, []⟩ calm = some s ∧
      s.clients.map returnedTrue = [false, true, false] :=
    exists_run_of_any (by decide +kernel)
  have hempty : Paired .empty := by
    intro cookie v hv
    cases hv
  exact ⟨s, hr, hreturned, run_conditional hempty (by decide +kernel) hr⟩

end DrgbServer.Redis
