import DrgbServer.Auth.MyAuth
import DrgbServer.Redis.Sharing

/-! # `MyAuth`: the session check of concurrent logins

The Redis side of a login or registration: `GetInfoFromID`, then `GetInfoFromCookie` until
it knows a cookie no more, then `SetInfo`. Each is a call of its own, and `SetInfo` asks
nothing, so between the check and the store another login of the account may come. -/
namespace DrgbServer.Auth
open DrgbServer.Utils DrgbServer.Lib.Redis DrgbServer.Lib.Transition DrgbServer.Redis
open DrgbServer.Redis.MyRedis

/-- Where the handler of a request stands. -/
inductive Stage where
  | check (accountId : AccountId) (now : List Byte)
  | probe (accountId : AccountId) (cookie : Hash)
  | store (accountId : AccountId) (cookie : Hash)

def Stage.call : Stage → Call
  | .check accountId _ => .getInfoFromID accountId
  | .probe _ cookie => .getInfoFromCookie cookie
  | .store accountId cookie => .setInfo accountId cookie Redis.keywordMatch

/-- The next stage. An exception leaves the handler, as a session that is found does. -/
def Stage.next (sha256 : List Byte → Hash) : Stage → Answer → Option Stage
  | .check _ _, .session (.error (.thrown _)) => none
  | .check accountId now, .session (.error _) =>
    let seed := (ByteQueue.create (image 8 accountId)).add (ByteQueue.create now)
    some (.probe accountId (sha256 seed.bytes))
  | .probe accountId cookie, .owner (.ok _) => some (.probe accountId (sha256 cookie.toList))
  | .probe _ _, .owner (.error (.thrown _)) => none
  | .probe accountId cookie, .owner (.error _) => some (.store accountId cookie)
  | _, _ => none

def handlers (sha256 : List Byte → Hash) : Behaviour Stage Answer :=
  ⟨fun stage => stage.call.body, Stage.next sha256⟩

inductive Event where
  /-- a request whose account the database knows -/
  | request (accountId : AccountId) (now : List Byte)
  | step (i : Nat)
  | lose (i : Nat)
  /-- the session of the account ends: its keys live equally long -/
  | expire (accountId : AccountId)

abbrev Logins := System Stage Answer

def act (sha256 : List Byte → Hash) (s : Logins) : Event → Option Logins
  | .request accountId now => s.step (handlers sha256) (.start (.check accountId now))
  | .step i => s.step (handlers sha256) (.step i)
  | .lose i => s.step (handlers sha256) (.lose i)
  | .expire accountId => match s.db.value (accountKey accountId) with
    | some (.string word) =>
      s.step (handlers sha256) (.expire [accountKey accountId, "cookie:".toList ++ word])
    | _ => none

/-- The entry of the cookie is the account's. -/
def Owns (db : Db) (accountId : AccountId) (cookie : Hash) : Prop :=
  ∃ rest, db.value (cookieKey cookie) = some (.list (toStr accountId :: rest))

/-- An account has at most one live cookie, and its key names it. -/
structure OneCookie (db : Db) : Prop where
  unique : ∀ accountId a b, Owns db accountId a → Owns db accountId b → a = b
  named : ∀ accountId cookie, Owns db accountId cookie →
    db.value (accountKey accountId) = some (.string (cookieStr cookie))

/-- When a handler executes its `SetInfo` the account has no session still. -/
def unclaimed (s : Logins) : Event → Bool
  | .step i => match s.clients[i]? with
    | none => true
    | some c => match c.stage with
      | .store accountId _ => !c.executes || (s.db.value (accountKey accountId)).isNone
      | _ => true
  | _ => true

/-! ## One step -/

variable {sha256 : List Byte → Hash} {db db' : Db} {accountId : AccountId} {cookie : Hash}
  {s t : Logins}

theorem OneCookie.of_value (h : OneCookie db) (hv : db'.value = db.value) : OneCookie db' := by
  constructor
  · unfold Owns
    rw [hv]
    exact h.unique
  · unfold Owns
    rw [hv]
    exact h.named

/-- An account without session gets one. -/
theorem OneCookie.store (h : OneCookie db) (hn : db.value (accountKey accountId) = none)
    (serverName : ServerName) :
    OneCookie (db.applyAll (setBlock accountId cookie serverName)).2 := by
  have hnone : ∀ c, ¬ Owns db accountId c := by
    intro c hc
    cases (h.named accountId c hc).symm.trans hn
  -- an account owns the new entry, or what it owned before
  have howns : ∀ id c, Owns (db.applyAll (setBlock accountId cookie serverName)).2 id c →
      (id = accountId ∧ c = cookie) ∨ (id ≠ accountId ∧ Owns db id c) := by
    rintro id c ⟨rest, hc⟩
    rw [setBlock_value, ite_cookieKey] at hc
    split at hc
    · rename_i hcookie
      simp only [entry, Option.some.injEq, Value.list.injEq, List.cons.injEq] at hc
      exact .inl ⟨(toStr_injective hc.1).symm, hcookie⟩
    · by_cases hid : id = accountId
      · subst hid
        exact absurd ⟨rest, hc⟩ (hnone c)
      · exact .inr ⟨hid, rest, hc⟩
  constructor
  · intro id a b ha hb
    rcases howns id a ha with ⟨rfl, rfl⟩ | ⟨hid, ha⟩ <;>
      rcases howns _ b hb with ⟨hid', hb⟩ | ⟨hid', hb⟩
    · exact hb.symm
    · exact absurd rfl hid'
    · exact absurd hid' hid
    · exact h.unique id a b ha hb
  · intro id c hc
    rw [setBlock_value, ite_accountKey]
    rcases howns id c hc with ⟨rfl, rfl⟩ | ⟨hid, hc⟩
    · rw [if_pos rfl]
    · rw [if_neg hid]
      exact h.named id c hc

/-- The session an account names ends. -/
theorem OneCookie.expire (h : OneCookie db) {word key : Word}
    (hw : db.value (accountKey accountId) = some (.string word))
    (hkey : key = "cookie:".toList ++ word) :
    OneCookie (db.expire [accountKey accountId, key]) := by
  have hcookie : ∀ c, cookieStr c = word → cookieKey c = key := by
    intro c hc
    unfold cookieKey
    rw [hc]
    exact hkey.symm
  have haccount : ∀ id, accountKey id ≠ key := by
    intro id hid
    rw [hkey] at hid
    cases congrArg List.head? hid
  clear hkey
  have howns : ∀ id c, Owns (db.expire [accountKey accountId, key]) id c →
      id ≠ accountId ∧ Owns db id c := by
    rintro id c ⟨rest, hc⟩
    rw [Db.expire_value] at hc
    split at hc
    · cases hc
    · rename_i hmem
      refine ⟨?_, rest, hc⟩
      rintro rfl
      have hname := (h.named id c ⟨rest, hc⟩).symm.trans hw
      simp only [Option.some.injEq, Value.string.injEq] at hname
      apply hmem
      simp [hcookie c hname]
  constructor
  · intro id a b ha hb
    exact h.unique id a b (howns id a ha).2 (howns id b hb).2
  · intro id c hc
    obtain ⟨hid, hc⟩ := howns id c hc
    rw [Db.expire_value, if_neg]
    · exact h.named id c hc
    · simp only [List.mem_cons, List.not_mem_nil, or_false, not_or]
      exact ⟨fun heq => hid (accountKey_inj.mp heq), haccount id⟩

/-- The invariant of a run. -/
structure Tidy (s : Logins) : Prop where
  one : OneCookie s.db
  guarded : ∀ c ∈ s.clients, c.Guarded fun stage => stage.call.Block

theorem handlers_guarded (sha256 : List Byte → Hash) (stage : Stage) :
    ((handlers sha256).body stage).Guarded stage.call.Block := stage.call.body_guarded

/-- A step of the clients: only `SetInfo` changes a value. -/
theorem step_tidy {i : Nat} (h : Tidy s) (hok : unclaimed s (.step i) = true)
    (hr : s.step (handlers sha256) (.step i) = some t) : Tidy t := by
  refine ⟨?_, System.step_guarded (handlers_guarded sha256) hr h.guarded⟩
  rcases System.step_effect (handlers_guarded sha256) hr h.guarded with heff | ⟨_, hl, _⟩ |
      ⟨j, c, block, hl, hc, he, hblock, heff⟩
  · exact h.one.of_value heff
  · cases hl
  · cases hl
    rw [heff]
    cases hstage : c.stage with
    | check accountId now =>
      rw [hstage] at hblock
      exact h.one.of_value (Db.applyAll_harmless hblock s.db)
    | probe accountId cookie =>
      rw [hstage] at hblock
      exact h.one.of_value (Db.applyAll_harmless hblock s.db)
    | store accountId cookie =>
      rw [hstage] at hblock
      cases hblock
      simp only [unclaimed, hc, hstage, he, Bool.not_true, Bool.false_or,
        Option.isNone_iff_eq_none] at hok
      exact h.one.store hok _

theorem act_tidy {e : Event} (h : Tidy s) (hok : unclaimed s e = true)
    (hr : act sha256 s e = some t) : Tidy t := by
  cases e with
  | request accountId now =>
    change s.step (handlers sha256) (.start (.check accountId now)) = some t at hr
    refine ⟨?_, System.step_guarded (handlers_guarded sha256) hr h.guarded⟩
    cases hr
    exact h.one
  | step i => exact step_tidy h hok hr
  | lose i =>
    change s.step (handlers sha256) (.lose i) = some t at hr
    refine ⟨?_, System.step_guarded (handlers_guarded sha256) hr h.guarded⟩
    obtain ⟨c, _, heq⟩ := Option.map_eq_some_iff.mp hr
    cases heq
    exact h.one
  | expire accountId =>
    simp only [act] at hr
    split at hr
    · rename_i word hw
      refine ⟨?_, System.step_guarded (handlers_guarded sha256) hr h.guarded⟩
      cases hr
      exact h.one.expire hw rfl
    · cases hr

/-! ## Runs -/

/-- **One live cookie per account**, at every moment of every run in which no handler
executes its `SetInfo` for an account that has got a session since its check. -/
theorem run_oneCookie (sha256 : List Byte → Hash) {es : List Event} (hone : OneCookie db)
    (hok : Meets (act sha256) (fun s e => unclaimed s e = true) ⟨db, []⟩ es) :
    Always (act sha256) (fun s => OneCookie s.db) ⟨db, []⟩ es := by
  have hstart : Tidy ⟨db, []⟩ := ⟨hone, by simp⟩
  exact always_of_meets (I := Tidy) (fun s h => h.one) (fun s e t h hl ht => act_tidy h hl ht)
    hstart hok

/-- One handler after the other: the second finds the session of the first. -/
def oneByOne : List Event :=
  .request 5 [1] :: List.replicate 10 (.step 0) ++
  .request 5 [2] :: .request 6 [3] :: .step 1 :: .step 2 :: List.replicate 5 (.step 1)

theorem run_oneCookie_oneByOne :
    Always (act toHash) (fun s => OneCookie s.db) ⟨.empty, []⟩ oneByOne := by
  refine run_oneCookie toHash ⟨?_, ?_⟩ (by decide +kernel)
  · rintro accountId a b ⟨rest, ha⟩
    cases ha
  · rintro accountId cookie ⟨rest, hc⟩
    cases hc

/-- Two handlers of one account that both look before either stores. -/
def twice : List Event :=
  [.request 5 [1], .request 5 [2], .step 0, .step 1, .step 0, .step 1] ++
  List.replicate 8 (.step 0) ++ List.replicate 8 (.step 1)

/-- The cookie of a request of account 5. -/
def cookieAt (now : Byte) : Hash := toHash (image 8 5 ++ [now])

theorem not_oneCookie_twice :
    ∃ s, run (act toHash) ⟨.empty, []⟩ twice = some s ∧ ¬ OneCookie s.db := by
  obtain ⟨s, hr, hfirst, hsecond⟩ : ∃ s, run (act toHash) ⟨.empty, []⟩ twice = some s ∧
      s.db.value (cookieKey (cookieAt 1)) = some (entry 5 Redis.keywordMatch) ∧
      s.db.value (cookieKey (cookieAt 2)) = some (entry 5 Redis.keywordMatch) :=
    exists_run_of_any (by decide +kernel)
  refine ⟨s, hr, fun h => ?_⟩
  have heq := h.unique 5 (cookieAt 1) (cookieAt 2) ⟨_, hfirst⟩ ⟨_, hsecond⟩
  exact absurd heq (by decide)

end DrgbServer.Auth
