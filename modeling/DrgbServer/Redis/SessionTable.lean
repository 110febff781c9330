import Mathlib.Data.List.TakeWhile
import DrgbServer.Lib.BiTable
import DrgbServer.Lib.Simulation
import DrgbServer.Redis.MyRedis

/-! # `MyRedis` is a table of sessions

Calls that do not overlap, on a connection that is up. The abstract table is a set of
triples of account id, cookie and server name in which ids and cookies are unique; the
two keys of a session and their encodings stand for one of its triples. -/
namespace DrgbServer.Redis
open DrgbServer.Utils DrgbServer.Lib DrgbServer.Lib.Redis DrgbServer.Lib.Simulation

namespace MyRedis
variable {db : Db} {id : AccountId} {cookie : Hash} {serverName : ServerName}

/-! ## One call -/

theorem setInfo_run (db : Db) (id : AccountId) (cookie : Hash) (serverName : ServerName) :
    (setInfo id cookie serverName).run .idle db =
      (.set (.ok ()), .idle, (db.applyAll (setBlock id cookie serverName)).2) := by
  have hquery : Conn.idle.dispatchAll db ((setInfoQuery id cookie serverName).map command) =
      ([.status, .status, .status, .status, .status,
        .array (db.applyAll (setBlock id cookie serverName)).1], .idle,
        (db.applyAll (setBlock id cookie serverName)).2) := by
    rw [setInfoQuery_commands]
    rfl
  unfold setInfo
  rw [Prog.run_isOpen, if_neg (by decide), Prog.run_query rfl hquery]
  rfl

theorem lrange_run (db : Db) (cookie : Hash) :
    Conn.idle.dispatchAll db [.lrange (cookieKey cookie) 0 1] =
      ([listed (db.value (cookieKey cookie))], .idle, db) := by
  rw [Conn.dispatchAll, dispatch_lrange]
  rfl

theorem lrangeText_run (db : Db) (cookie : Hash) :
    Conn.idle.dispatchAll db ([lrangeText (cookieStr cookie)].map command) =
      ([listed (db.value (cookieKey cookie))], .idle, db) := by
  rw [List.map_singleton, command_lrangeText]
  exact lrange_run db cookie

theorem verified_entry (id : AccountId) (serverName : ServerName) :
    verified (toStr id) serverName.text [listed (some (entry id serverName))] = true := by
  simp [listed, entry, verified, Reply.elements, Reply.str]

/-- The transaction that nobody disturbs. -/
theorem watched_run (db : Db) (id : AccountId) (cookie : Hash) {first second : Command}
    (hf : first = .pexpire (cookieKey cookie) sessionTimeout ∨ first = .del (cookieKey cookie))
    (hs : second = .pexpire (accountKey id) sessionTimeout ∨ second = .del (accountKey id)) :
    Conn.idle.dispatchAll db [.watch (cookieKey cookie), .watch (accountKey id), .multi, first,
      second, .exec] = ([.status, .status, .status, .status, .status,
        .array (db.applyAll [first, second]).1], .idle, (db.applyAll [first, second]).2) := by
  rcases hf with rfl | rfl <;> rcases hs with rfl | rfl <;>
    simp [Conn.dispatchAll, Conn.dispatch, Conn.idle, Conn.exec, Conn.clean]

/-- An entry that is another than asked for fails the verification, and nothing is done. -/
theorem conditional_run_of_ne (commands : List Text)
    (h : verified (toStr id) serverName.text [listed (db.value (cookieKey cookie))] = false) :
    (conditional id cookie serverName commands).run .idle db = (.flag false, .idle, db) := by
  unfold conditional
  rw [Prog.run_isOpen, if_neg (by decide), Prog.run_query rfl (lrangeText_run db cookie), transact, h]
  rfl

theorem conditional_run {commands : List Text} {first second : Command}
    (h : db.value (cookieKey cookie) = some (entry id serverName))
    (hc : commands.map command = [first, second])
    (hf : first = .pexpire (cookieKey cookie) sessionTimeout ∨ first = .del (cookieKey cookie))
    (hs : second = .pexpire (accountKey id) sessionTimeout ∨ second = .del (accountKey id))
    (hr : (db.applyAll [first, second]).1 = [.integer 1, .integer 1]) :
    (conditional id cookie serverName commands).run .idle db =
      (.flag true, .idle, (db.applyAll [first, second]).2) := by
  have hwatched : Conn.idle.dispatchAll db ((watchedQuery id cookie commands).map command) =
      ([.status, .status, .status, .status, .status, .array [.integer 1, .integer 1]], .idle,
        (db.applyAll [first, second]).2) := by
    rw [watchedQuery_commands, hc, ← hr]
    exact watched_run db id cookie hf hs
  have hsize : (watchedQuery id cookie commands).length = 6 := by
    have hlen := congrArg List.length hc
    simp only [List.length_map] at hlen
    simp [watchedQuery, hlen]
  unfold conditional
  rw [Prog.run_isOpen, if_neg (by decide), Prog.run_query rfl (lrangeText_run db cookie), h,
    transact, verified_entry]
  show (Prog.query (watchedQuery id cookie commands) _).run .idle db = _
  rw [Prog.run_query rfl hwatched, hsize]
  rfl

/-- Both keys are there, so each command meets its key. -/
theorem refreshBlock_replies {v w : Value} (hk : db.value (cookieKey cookie) = some v)
    (ha : db.value (accountKey id) = some w) :
    (db.applyAll (refreshBlock id cookie)).1 = [.integer 1, .integer 1] := by
  have hkept := Db.apply_harmless (c := .pexpire (cookieKey cookie) sessionTimeout) rfl db
  have ha' : (db.apply (.pexpire (cookieKey cookie) sessionTimeout)).2.value (accountKey id) =
      some w := by rw [hkept, ha]
  rw [refreshBlock, Db.applyAll_pair, Db.pexpire_reply hk, Db.pexpire_reply ha']

theorem clearBlock_replies {v w : Value} (hk : db.value (cookieKey cookie) = some v)
    (ha : db.value (accountKey id) = some w) :
    (db.applyAll (clearBlock id cookie)).1 = [.integer 1, .integer 1] := by
  have ha' : (db.apply (.del (cookieKey cookie))).2.value (accountKey id) = some w := by
    rw [Db.del_value, if_neg (cookieKey_ne_accountKey cookie id).symm, ha]
  rw [clearBlock, Db.applyAll_pair, Db.del_reply hk, Db.del_reply ha']

theorem refreshInfo_run {w : Value} (hk : db.value (cookieKey cookie) = some (entry id serverName))
    (ha : db.value (accountKey id) = some w) :
    (refreshInfo id cookie serverName).run .idle db =
      (.flag true, .idle, (db.applyAll (refreshBlock id cookie)).2) :=
  conditional_run hk (refreshCommands_commands id cookie) (.inl rfl) (.inl rfl)
    (refreshBlock_replies hk ha)

theorem clearInfo_run {w : Value} (hk : db.value (cookieKey cookie) = some (entry id serverName))
    (ha : db.value (accountKey id) = some w) :
    (clearInfo id cookie serverName).run .idle db =
      (.flag true, .idle, (db.applyAll (clearBlock id cookie)).2) :=
  conditional_run hk (clearCommands_commands id cookie) (.inr rfl) (.inr rfl)
    (clearBlock_replies hk ha)

/-- The second query of a lookup, for keys of one session. -/
theorem lookup_run (db : Db) (id : AccountId) (cookie : Hash) : ∃ db' r,
    Conn.idle.dispatchAll db ((lookupQuery (toStr id) (cookieStr cookie)).map command) =
      ([.status, .status, .status, r, listed (db.value (cookieKey cookie))], .idle, db') ∧
      db'.value = db.value := by
  let block : List Command :=
    [.pexpire (accountKey id) sessionTimeout, .pexpire (cookieKey cookie) sessionTimeout]
  have hkept : (db.applyAll block).2.value = db.value := by
    apply Db.applyAll_harmless
    simp [block, Command.harmless, sessionTimeout]
  refine ⟨(db.applyAll block).2, .array (db.applyAll block).1, ?_, hkept⟩
  have hlrange := lrange_run (db.applyAll block).2 cookie
  rw [hkept] at hlrange
  have htouch : Conn.idle.dispatchAll db (.multi :: block ++ [.exec]) =
      ([.status, .status, .status, .array (db.applyAll block).1], .idle,
        (db.applyAll block).2) := rfl
  rw [lookupQuery_commands]
  exact Conn.dispatchAll_append htouch hlrange

/-- A text of digits is read whole. -/
theorem signedDigits_of_digits {str : Text} (h : ∀ c ∈ str, c.isDigit = true) :
    signedDigits (str.dropWhile isSpace) = (false, str) := by
  have htake : str.takeWhile Char.isDigit = str := List.takeWhile_eq_self_iff.mpr h
  cases str with
  | nil => rfl
  | cons c rest =>
    have hc := h c List.mem_cons_self
    have hspace : isSpace c = false := by
      simp only [Char.isDigit, Bool.and_eq_true, decide_eq_true_eq] at hc
      have h48 : 48 ≤ c.toNat := hc.1
      have hne : c ≠ ' ' := by
        rintro rfl
        exact absurd h48 (by decide)
      simp only [isSpace, hne, decide_false, Bool.false_or, Bool.and_eq_false_iff,
        decide_eq_false_iff_not]
      omega
    rw [List.dropWhile_cons_of_neg (by simp [hspace])]
    unfold signedDigits
    split
    · rename_i heq
      cases (List.cons.inj heq).1
      exact absurd hc (by decide)
    · rename_i heq
      cases (List.cons.inj heq).1
      exact absurd hc (by decide)
    · rw [htake]

theorem stoull_toStr {id : AccountId} (h : id < 2 ^ 64) : stoull (toStr id) = .ok id := by
  unfold stoull
  rw [signedDigits_of_digits fun c hc => isDigit_of_mem_toStr hc]
  have hn : Nat.ofDigitChars 10 (toStr id) 0 = id := Nat.ofDigitChars_ten_toDigits
  simp only [hn, if_neg (toStr_ne_nil id), Bool.false_eq_true, if_false]
  rw [if_neg (Nat.not_le.mpr h)]

/-- What `GET` replies of a key. -/
def held : Option Value → Reply
  | none => .nil
  | some (.string word) => .string word
  | some (.list _) => .error

theorem get_run (db : Db) (id : AccountId) :
    Conn.idle.dispatchAll db (["GET account:".toList ++ toStr id].map command) =
      ([held (db.value (accountKey id))], .idle, db) := by
  rw [List.map_singleton, command_getAccount]
  simp only [Conn.dispatchAll, Conn.dispatch, Conn.idle, Db.apply]
  rcases db.value (accountKey id) with _ | _ | words <;> rfl

theorem getInfoFromID_run_none (h : db.value (accountKey id) = none) :
    (getInfoFromID id).run .idle db =
      (.session (.error (.code errNoMatchAccount)), .idle, db) := by
  unfold getInfoFromID
  rw [Prog.run_isOpen, if_neg (by decide), Prog.run_query rfl (get_run db id), h]
  rfl

theorem toHash_toList (cookie : Hash) : toHash cookie.toList = cookie := by
  apply Vector.ext
  intro i hi
  simp [toHash]

theorem getInfoFromID_run (ha : db.value (accountKey id) = some (.string (cookieStr cookie)))
    (hk : db.value (cookieKey cookie) = some (entry id serverName)) :
    ∃ db', (getInfoFromID id).run .idle db =
      (.session (.ok (cookie, serverName.text)), .idle, db') ∧ db'.value = db.value := by
  obtain ⟨db', r, hquery, hkept⟩ := lookup_run db id cookie
  refine ⟨db', ?_, hkept⟩
  unfold getInfoFromID
  rw [Prog.run_isOpen, if_neg (by decide), Prog.run_query rfl (get_run db id), ha]
  show (lookupCookie id (cookieStr cookie)).run .idle db = _
  unfold lookupCookie
  rw [cookieStr, Encoder.decodeBase64_encodeBase64, ← cookieStr]
  simp only []
  rw [Prog.run_query rfl hquery, hk, toHash_toList]
  rfl

theorem getInfoFromCookie_run_none (h : db.value (cookieKey cookie) = none) :
    (getInfoFromCookie cookie).run .idle db =
      (.owner (.error (.code errNoMatchAccount)), .idle, db) := by
  unfold getInfoFromCookie
  rw [Prog.run_isOpen, if_neg (by decide), Prog.run_query rfl (lrangeText_run db cookie), h]
  rfl

theorem getInfoFromCookie_run (hid : id < 2 ^ 64)
    (hk : db.value (cookieKey cookie) = some (entry id serverName)) :
    ∃ db', (getInfoFromCookie cookie).run .idle db =
      (.owner (.ok (id, serverName.text)), .idle, db') ∧ db'.value = db.value := by
  obtain ⟨db', r, hlookup, hkept⟩ := lookup_run db id cookie
  refine ⟨db', ?_, hkept⟩
  unfold getInfoFromCookie
  rw [Prog.run_isOpen, if_neg (by decide), Prog.run_query rfl (lrangeText_run db cookie), hk]
  show (lookupOwner cookie (toStr id)).run .idle db = _
  unfold lookupOwner
  have howner : ownerOf 5 [.status, .status, .status, r, listed (some (entry id serverName))] =
      .ok (id, serverName.text) := by
    simp [ownerOf, listed, entry, Reply.elements, Reply.str, stoull_toStr hid]
  have hsize : (lookupQuery (toStr id) (cookieStr cookie)).length = 5 := rfl
  rw [Prog.run_query rfl hlookup, hk, hsize, howner]
  rfl

end MyRedis
open MyRedis

/-! ## The table -/

abbrev Table := BiTable AccountId Hash ServerName

inductive Op where
  | call (call : Call)
  /-- the two keys of a session reach their end together -/
  | expire (id : AccountId) (cookie : Hash)

def perform : Conn × Db → Op → Option Answer × (Conn × Db)
  | (conn, db), .call call =>
    let (answer, state) := call.body.run conn db
    (some answer, state)
  | (conn, db), .expire id cookie => (none, conn, db.expire [accountKey id, cookieKey cookie])

open Classical in
/-- What the set of triples answers to a call. -/
noncomputable def reply (t : Table) : Call → Answer × Table
  | .setInfo id cookie serverName => (.set (.ok ()),
      if (t.byLeft id).isSome then t.setLeft id serverName else (t.insert id cookie serverName).2)
  | .refreshInfo id cookie serverName =>
    (.flag (decide ((id, cookie, serverName) ∈ t.triples)), t)
  | .getInfoFromID id => match t.byLeft id with
    | some x => (.session (.ok (x.2.1, x.2.2.text)), t)
    | none => (.session (.error (.code errNoMatchAccount)), t)
  | .getInfoFromCookie cookie => match t.byRight cookie with
    | some x => (.owner (.ok (x.1, x.2.2.text)), t)
    | none => (.owner (.error (.code errNoMatchAccount)), t)
  | .clearInfo id cookie serverName =>
    if (id, cookie, serverName) ∈ t.triples then (.flag true, t.eraseLeft id) else (.flag false, t)

noncomputable def respond (t : Table) : Op → Option Answer × Table
  | .call call => (some (reply t call).1, (reply t call).2)
  | .expire id _ => (none, t.eraseLeft id)

/-- `SetInfo` is for a 64-bit id and a cookie that are both unused or linked to each other,
and what expires is a session. -/
def Admitted (t : Table) : Op → Prop
  | .call (.setInfo id cookie _) => id < 2 ^ 64 ∧
      ((t.byLeft id = none ∧ t.byRight cookie = none) ∨ ∃ name, (id, cookie, name) ∈ t.triples)
  | .call _ => True
  | .expire id cookie => ∃ name, (id, cookie, name) ∈ t.triples

/-- The keys of the store are those of the sessions. -/
structure Represents (s : Conn × Db) (t : Table) : Prop where
  idle : s.1 = .idle
  account : ∀ id v, s.2.value (accountKey id) = some v ↔
    ∃ cookie name, (id, cookie, name) ∈ t.triples ∧ v = .string (cookieStr cookie)
  cookie : ∀ cookie v, s.2.value (cookieKey cookie) = some v ↔
    ∃ id name, (id, cookie, name) ∈ t.triples ∧ v = entry id name
  bound : ∀ x ∈ t.triples, x.1 < 2 ^ 64

namespace Represents
variable {db db' : Db} {t : Table} {id : AccountId} {cookie : Hash} {name : ServerName}

theorem empty : Represents (.idle, .empty) BiTable.empty := by
  constructor <;> simp [Db.empty, BiTable.empty]

theorem of_value (h : Represents (.idle, db) t) (hv : db'.value = db.value) :
    Represents (.idle, db') t := by
  refine ⟨rfl, ?_, ?_, h.bound⟩
  · rw [hv]
    exact h.account
  · rw [hv]
    exact h.cookie

theorem account_of_mem (h : Represents (.idle, db) t) (hm : (id, cookie, name) ∈ t.triples) :
    db.value (accountKey id) = some (.string (cookieStr cookie)) :=
  (h.account id _).mpr ⟨cookie, name, hm, rfl⟩

theorem cookie_of_mem (h : Represents (.idle, db) t) (hm : (id, cookie, name) ∈ t.triples) :
    db.value (cookieKey cookie) = some (entry id name) :=
  (h.cookie cookie _).mpr ⟨id, name, hm, rfl⟩

/-- A triple that is not there does not pass the verification. -/
theorem verified_eq_false (h : Represents (.idle, db) t) (hm : (id, cookie, name) ∉ t.triples) :
    verified (toStr id) name.text [listed (db.value (cookieKey cookie))] = false := by
  cases hv : db.value (cookieKey cookie) with
  | none => rfl
  | some v =>
    obtain ⟨id', name', hm', rfl⟩ := (h.cookie cookie v).mp hv
    rw [Bool.eq_false_iff]
    intro hpass
    obtain ⟨hid, hname⟩ := of_verified hpass
    cases toStr_injective hid
    cases ServerName.ext hname
    exact hm hm'

/-- The triple of an id goes with its two keys. -/
theorem erase (h : Represents (.idle, db) t) (hm : (id, cookie, name) ∈ t.triples)
    (hv : ∀ k, db'.value k = if k = accountKey id then none
      else if k = cookieKey cookie then none else db.value k) :
    Represents (.idle, db') (t.eraseLeft id) := by
  refine ⟨rfl, fun id' v => ?_, fun cookie' v => ?_, fun x hx => h.bound x ?_⟩
  · rw [hv, ite_accountKey]
    split
    · rename_i hid
      simp [BiTable.mem_eraseLeft, hid]
    · rename_i hid
      simp only [BiTable.mem_eraseLeft, h.account, hid, ne_eq, not_false_eq_true, and_true]
  · rw [hv, ite_cookieKey]
    split
    · rename_i hc
      subst hc
      simp only [BiTable.mem_eraseLeft, reduceCtorEq, false_iff]
      intro hgiven
      obtain ⟨id', name', ⟨hm', hne⟩, _⟩ := hgiven
      exact hne (congrArg Prod.fst (t.right _ hm' _ hm rfl))
    · rename_i hc
      rw [h.cookie]
      constructor
      · intro hgiven
        obtain ⟨id', name', hm', rfl⟩ := hgiven
        refine ⟨id', name', BiTable.mem_eraseLeft.mpr ⟨hm', fun hid => hc ?_⟩, rfl⟩
        exact congrArg (fun x => x.2.1) (t.left _ hm' _ hm hid)
      · intro hgiven
        obtain ⟨id', name', hm', rfl⟩ := hgiven
        exact ⟨id', name', (BiTable.mem_eraseLeft.mp hm').1, rfl⟩
  · exact (BiTable.mem_eraseLeft.mp hx).1

/-- A triple in place of what its two keys held. -/
theorem store {t' : Table} (h : Represents (.idle, db) t) (hid : id < 2 ^ 64)
    (hlink : ∀ x ∈ t.triples, x.1 = id ↔ x.2.1 = cookie)
    (ht : ∀ x, x ∈ t'.triples ↔ x = (id, cookie, name) ∨ (x ∈ t.triples ∧ x.1 ≠ id)) :
    Represents (.idle, (db.applyAll (setBlock id cookie name)).2) t' := by
  refine ⟨rfl, fun id' v => ?_, fun cookie' v => ?_, fun x hx => ?_⟩
  · rw [setBlock_value, ite_accountKey]
    split
    · rename_i hid'
      subst hid'
      simp [ht, eq_comm]
    · rename_i hid'
      simp [ht, h.account, hid']
  · rw [setBlock_value, ite_cookieKey]
    split
    · rename_i hc
      subst hc
      constructor
      · intro hgiven
        cases hgiven
        exact ⟨id, name, (ht _).mpr (.inl rfl), rfl⟩
      · intro hgiven
        obtain ⟨id', name', hm, rfl⟩ := hgiven
        rcases (ht _).mp hm with heq | ⟨hm, hne⟩
        · cases heq
          rfl
        · exact absurd ((hlink _ hm).mpr rfl) hne
    · rename_i hc
      rw [h.cookie]
      constructor
      · intro hgiven
        obtain ⟨id', name', hm, rfl⟩ := hgiven
        exact ⟨id', name', (ht _).mpr (.inr ⟨hm, fun hid => hc ((hlink _ hm).mp hid)⟩), rfl⟩
      · intro hgiven
        obtain ⟨id', name', hm, rfl⟩ := hgiven
        rcases (ht _).mp hm with heq | ⟨hm, _⟩
        · cases heq
          exact absurd rfl hc
        · exact ⟨id', name', hm, rfl⟩
  · rcases (ht x).mp hx with rfl | ⟨hx, _⟩
    · exact hid
    · exact h.bound x hx

theorem setInfo (h : Represents (.idle, db) t)
    (hok : Admitted t (.call (.setInfo id cookie name))) :
    Represents (.idle, (db.applyAll (setBlock id cookie name)).2)
      (reply t (.setInfo id cookie name)).2 := by
  obtain ⟨hid, ⟨hl, hr⟩ | ⟨name', hm⟩⟩ := hok
  · have hleft := BiTable.byLeft_eq_none.mp hl
    have hright := BiTable.byRight_eq_none.mp hr
    refine h.store hid (fun x hx => ?_) fun x => ?_
    · simp [hleft x hx, hright x hx]
    · simp only [reply, hl, Option.isSome_none, Bool.false_eq_true, if_false, BiTable.insert, hr,
        and_self, dif_pos, BiTable.mem_add]
      constructor
      · intro hgiven
        rcases hgiven with rfl | hx
        · exact .inl rfl
        · exact .inr ⟨hx, hleft x hx⟩
      · intro hgiven
        rcases hgiven with rfl | ⟨hx, _⟩
        · exact .inl rfl
        · exact .inr hx
  · have hl : t.byLeft id = some (id, cookie, name') := BiTable.byLeft_eq_some.mpr ⟨hm, rfl⟩
    have hlink : ∀ x ∈ t.triples, x.1 = id ↔ x.2.1 = cookie := by
      intro x hx
      constructor
      · intro hid
        exact congrArg (fun x => x.2.1) (t.left x hx _ hm hid)
      · intro hc
        exact congrArg Prod.fst (t.right x hx _ hm hc)
    refine h.store hid hlink fun x => ?_
    simp only [reply, hl, Option.isSome_some, if_true, BiTable.mem_setLeft]
    constructor
    · intro hgiven
      rcases hgiven with ⟨hx, hv, w, hw⟩ | ⟨hne, hx⟩
      · left
        rcases x with ⟨id', cookie', v⟩
        cases hx
        cases hv
        cases (hlink _ hw).mp rfl
        rfl
      · exact .inr ⟨hx, hne⟩
    · intro hgiven
      rcases hgiven with rfl | ⟨hx, hne⟩
      · exact .inl ⟨rfl, rfl, name', hm⟩
      · exact .inr ⟨hne, hx⟩

/-- **One call**: its answer is that of the table, and the two stay in step. -/
theorem call (h : Represents (.idle, db) t) {c : Call} (hok : Admitted t (.call c)) :
    (c.body.run .idle db).1 = (reply t c).1 ∧
      Represents (c.body.run .idle db).2 (reply t c).2 := by
  cases c with
  | setInfo id cookie name =>
    have hrun := setInfo_run db id cookie name
    simp only [Call.body, hrun]
    exact ⟨rfl, h.setInfo hok⟩
  | refreshInfo id cookie name =>
    by_cases hm : (id, cookie, name) ∈ t.triples
    · have hrun := refreshInfo_run (h.cookie_of_mem hm) (h.account_of_mem hm)
      simp only [Call.body, hrun, reply, hm, decide_true, true_and]
      exact h.of_value (refreshBlock_value db id cookie)
    · have hrun := conditional_run_of_ne (refreshCommands id cookie) (h.verified_eq_false hm)
      simp only [Call.body, refreshInfo, hrun, reply, hm, decide_false, true_and]
      exact h
  | getInfoFromID id =>
    cases hl : t.byLeft id with
    | none =>
      have hnone : db.value (accountKey id) = none := by
        rw [Option.eq_none_iff_forall_ne_some]
        intro v hv
        obtain ⟨cookie, name, hm, _⟩ := (h.account id v).mp hv
        exact BiTable.byLeft_eq_none.mp hl _ hm rfl
      simp only [Call.body, getInfoFromID_run_none hnone, reply, hl, true_and]
      exact h
    | some x =>
      obtain ⟨hm, rfl⟩ := BiTable.byLeft_eq_some.mp hl
      obtain ⟨db', hrun, hv⟩ := getInfoFromID_run (h.account_of_mem hm) (h.cookie_of_mem hm)
      simp only [Call.body, hrun, reply, hl, true_and]
      exact h.of_value hv
  | getInfoFromCookie cookie =>
    cases hr : t.byRight cookie with
    | none =>
      have hnone : db.value (cookieKey cookie) = none := by
        rw [Option.eq_none_iff_forall_ne_some]
        intro v hv
        obtain ⟨id, name, hm, _⟩ := (h.cookie cookie v).mp hv
        exact BiTable.byRight_eq_none.mp hr _ hm rfl
      simp only [Call.body, getInfoFromCookie_run_none hnone, reply, hr, true_and]
      exact h
    | some x =>
      obtain ⟨hm, rfl⟩ := BiTable.byRight_eq_some.mp hr
      obtain ⟨db', hrun, hv⟩ := getInfoFromCookie_run (h.bound x hm) (h.cookie_of_mem hm)
      simp only [Call.body, hrun, reply, hr, true_and]
      exact h.of_value hv
  | clearInfo id cookie name =>
    by_cases hm : (id, cookie, name) ∈ t.triples
    · have hrun := clearInfo_run (h.cookie_of_mem hm) (h.account_of_mem hm)
      simp only [Call.body, hrun, reply, hm, if_true, true_and]
      exact h.erase hm (clearBlock_value db id cookie)
    · have hrun := conditional_run_of_ne (clearCommands id cookie) (h.verified_eq_false hm)
      simp only [Call.body, clearInfo, hrun, reply, hm, if_false, true_and]
      exact h

theorem step {s : Conn × Db} (h : Represents s t) {op : Op} (hok : Admitted t op) :
    (perform s op).1 = (respond t op).1 ∧ Represents (perform s op).2 (respond t op).2 := by
  obtain ⟨conn, db⟩ := s
  cases h.idle
  cases op with
  | call call =>
    obtain ⟨ha, hs⟩ := h.call hok
    exact ⟨congrArg some ha, hs⟩
  | expire id cookie =>
    obtain ⟨name, hm⟩ := hok
    refine ⟨rfl, h.erase hm fun k => ?_⟩
    rw [Db.expire_value]
    by_cases ha : k = accountKey id <;> by_cases hc : k = cookieKey cookie <;> simp [ha, hc]

end Represents

/-! ## Whole sequences -/

/-- What the functions would answer in a state, in terms of the table. -/
structure Agrees (s : Conn × Db) (t : Table) : Prop where
  session : ∀ id cookie name, ((getInfoFromID id).run s.1 s.2).1 =
    .session (.ok (cookie, name.text)) ↔ (id, cookie, name) ∈ t.triples
  owner : ∀ id cookie name, ((getInfoFromCookie cookie).run s.1 s.2).1 =
    .owner (.ok (id, name.text)) ↔ (id, cookie, name) ∈ t.triples
  refreshes : ∀ id cookie name, ((refreshInfo id cookie name).run s.1 s.2).1 = .flag true ↔
    (id, cookie, name) ∈ t.triples
  clears : ∀ id cookie name, ((clearInfo id cookie name).run s.1 s.2).1 = .flag true ↔
    (id, cookie, name) ∈ t.triples
  clear_fails : ∀ id cookie name, ((clearInfo id cookie name).run s.1 s.2).1 = .flag false →
    ((clearInfo id cookie name).run s.1 s.2).2 = s

theorem Represents.agrees {s : Conn × Db} {t : Table} (h : Represents s t) : Agrees s t := by
  obtain ⟨conn, db⟩ := s
  obtain rfl : conn = .idle := h.idle
  refine ⟨fun id cookie name => ?_, fun id cookie name => ?_, fun id cookie name => ?_,
    fun id cookie name => ?_, fun id cookie name hr => ?_⟩
  · have hcall : ((getInfoFromID id).run .idle db).1 = (reply t (.getInfoFromID id)).1 :=
      (h.call (c := .getInfoFromID id) trivial).1
    show ((getInfoFromID id).run .idle db).1 = _ ↔ _
    rw [hcall, reply]
    cases hl : t.byLeft id with
    | none =>
      have hn := BiTable.byLeft_eq_none.mp hl
      simp only [Answer.session.injEq, reduceCtorEq, false_iff]
      exact fun hm => hn _ hm rfl
    | some x =>
      obtain ⟨id', cookie', name'⟩ := x
      obtain ⟨hm, rfl⟩ := BiTable.byLeft_eq_some.mp hl
      simp only [Answer.session.injEq, Except.ok.injEq, Prod.mk.injEq]
      constructor
      · intro hgiven
        obtain ⟨rfl, ht⟩ := hgiven
        rw [← ServerName.ext ht]
        exact hm
      · intro hm'
        cases t.left _ hm _ hm' rfl
        exact ⟨rfl, rfl⟩
  · have hcall : ((getInfoFromCookie cookie).run .idle db).1 = (reply t (.getInfoFromCookie cookie)).1 :=
      (h.call (c := .getInfoFromCookie cookie) trivial).1
    show ((getInfoFromCookie cookie).run .idle db).1 = _ ↔ _
    rw [hcall, reply]
    cases hr : t.byRight cookie with
    | none =>
      have hn := BiTable.byRight_eq_none.mp hr
      simp only [Answer.owner.injEq, reduceCtorEq, false_iff]
      exact fun hm => hn _ hm rfl
    | some x =>
      obtain ⟨id', cookie', name'⟩ := x
      obtain ⟨hm, rfl⟩ := BiTable.byRight_eq_some.mp hr
      simp only [Answer.owner.injEq, Except.ok.injEq, Prod.mk.injEq]
      constructor
      · intro hgiven
        obtain ⟨rfl, ht⟩ := hgiven
        rw [← ServerName.ext ht]
        exact hm
      · intro hm'
        cases t.right _ hm _ hm' rfl
        exact ⟨rfl, rfl⟩
  · have hcall : ((refreshInfo id cookie name).run .idle db).1 = (reply t (.refreshInfo id cookie name)).1 :=
      (h.call (c := .refreshInfo id cookie name) trivial).1
    show ((refreshInfo id cookie name).run .idle db).1 = _ ↔ _
    rw [hcall, reply]
    simp only [Answer.flag.injEq, decide_eq_true_eq]
  · have hcall : ((clearInfo id cookie name).run .idle db).1 = (reply t (.clearInfo id cookie name)).1 :=
      (h.call (c := .clearInfo id cookie name) trivial).1
    show ((clearInfo id cookie name).run .idle db).1 = _ ↔ _
    rw [hcall, reply]
    split
    · rename_i hm
      exact ⟨fun _ => hm, fun _ => rfl⟩
    · rename_i hm
      exact ⟨fun hf => (nomatch hf), fun hm' => absurd hm' hm⟩
  · by_cases hm : (id, cookie, name) ∈ t.triples
    · have hrun := clearInfo_run (h.cookie_of_mem hm) (h.account_of_mem hm)
      cases (congrArg Prod.fst hrun).symm.trans hr
    · show ((clearInfo id cookie name).run .idle db).2 = _
      rw [clearInfo, conditional_run_of_ne _ (h.verified_eq_false hm)]

/-- **`MyRedis` refines the table of sessions**: from the empty store every sequence of calls
and expiries gets the answers of the table, and after it the store and the table agree. -/
theorem observe_table (ops : List Op) (h : Admits respond Admitted BiTable.empty ops) :
    (observe perform (.idle, .empty) ops).1 = (observe respond BiTable.empty ops).1 ∧
      Agrees (observe perform (.idle, .empty) ops).2 (observe respond BiTable.empty ops).2 := by
  have hsim : ∀ s t op, Represents s t → Admitted t op →
      (perform s op).1 = (respond t op).1 ∧ Represents (perform s op).2 (respond t op).2 :=
    fun s t op hr hok => hr.step hok
  obtain ⟨hanswers, hstate⟩ := observe_eq hsim Represents.empty h
  exact ⟨hanswers, hstate.agrees⟩

/-- A session that moves to a battle server, is looked up, and is cleared under its new name. -/
def journey : List Op :=
  [.call (.setInfo 5 (toHash []) keywordMatch), .call (.setInfo 5 (toHash []) battleOne),
    .call (.getInfoFromID 5), .call (.clearInfo 5 (toHash []) keywordMatch),
    .call (.clearInfo 5 (toHash []) battleOne), .call (.getInfoFromCookie (toHash []))]

theorem admits_journey : Admits respond Admitted BiTable.empty journey := by
  have hl : (BiTable.empty : Table).byLeft 5 = none :=
    BiTable.byLeft_eq_none.mpr (by simp [BiTable.empty])
  have hr : (BiTable.empty : Table).byRight (toHash []) = none :=
    BiTable.byRight_eq_none.mpr (by simp [BiTable.empty])
  refine ⟨⟨by decide, .inl ⟨hl, hr⟩⟩, ⟨by decide, .inr ⟨keywordMatch, ?_⟩⟩, trivial, trivial,
    trivial, trivial, trivial⟩
  simp [respond, reply, hl, hr, BiTable.insert, BiTable.mem_add]

theorem observe_table_journey :
    (observe perform (.idle, .empty) journey).1 = (observe respond BiTable.empty journey).1 :=
  (observe_table journey admits_journey).1

end DrgbServer.Redis
