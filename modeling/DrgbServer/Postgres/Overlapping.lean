import DrgbServer.Lib.ReadCommitted
import DrgbServer.Postgres.MyPostgres

/-! # Calls that overlap

The pool gives every handler a connection of its own, so the calls of `MyPostgres` overlap.
Each is a transaction of `pqxx::work`, at READ COMMITTED: it reads in one statement, decides,
and updates one row in another. The accounts are those that are registered already. -/
namespace DrgbServer.Postgres.Overlapping
open DrgbServer.Utils DrgbServer.Lib.Transition DrgbServer.Lib.ReadCommitted
open DrgbServer.Postgres.MyPostgres

inductive Access where
  | findAccount (email : Text) (pwd : Hash)
  | changePwd (id : AccountId) (oldPwd newPwd : Hash)
  | setNickName (accountId : AccountId) (achieveId : AchievementId)
  | achieve (id : AccountId) (achieve : AchievementId)
  | achieveProgress (id : AccountId) (achieve : AchievementId) (c : Int)

def Access.call : Access → Call
  | .findAccount email pwd => .findAccount email pwd
  | .changePwd id oldPwd newPwd => .changePwd id oldPwd newPwd
  | .setNickName accountId achieveId => .setNickName accountId achieveId
  | .achieve id a => .achieve id a
  | .achieveProgress id a c => .achieveProgress id a c

/-- A row of `userlist` or of `user_achievement`. -/
inductive Key where
  | user (id : AccountId)
  | progress (k : AccountId × AchievementId)
deriving DecidableEq

abbrev Key.Row : Key → Type
  | .user _ => Option User
  | .progress _ => Option Int

abbrev Rows := ∀ key : Key, key.Row

abbrev State := System Key.Row Access Reply Exn

def rowsOf (db : Database) : Rows
  | .user id => db.userlist.find? fun row => row.id = id
  | .progress k => db.userAchievement k

/-- The database with other rows of the same accounts. -/
def view (db : Database) (rows : Rows) : Database :=
  { db with
    userlist := (db.userlist.map (·.id)).filterMap fun id => rows (.user id)
    userAchievement := fun k => rows (.progress k) }

/-! ## Statements -/

section Statements
variable (sha256 : List Byte → Hash)

/-- `UPDATE userlist SET pwd_hash = $2 WHERE id = $1` -/
def setPwdHash (hash : Hash) (user : Option User) : Except Exn (Option User) := do
  let stored ← char 43 (Encoder.encodeBase64 hash.toList)
  return user.map fun row => { row with pwdHash := stored }

/-- `INSERT INTO user_achievement ... ON CONFLICT DO UPDATE` -/
def upsertRow (db : Database) (id : AccountId) (achieve : AchievementId) (value : Int)
    (update : Int → Int) : Option Int → Except Exn (Option Int)
  | some count => .ok (some (update count))
  | none =>
    if (db.userlist.any fun row => row.id = id) ∧ (db.achievement achieve).isSome then
      .ok (some value)
    else .error (.pqxxOther "violates foreign key constraint")

/-- What a call reads, and what it is going to write. -/
def select (db : Database) : Access → Except Exn (Decision Key.Row Reply Exn)
  | .findAccount email pwd => do
    let found ← findAccount sha256 db email pwd
    return .reply (.account found)
  | .changePwd id oldPwd newPwd => do
    let row ← exec1 (db.userlist.filter fun row => row.id = id)
    let answer ← storedHash row
    if getPwdHash sha256 id oldPwd row.registerTime ≠ answer then return .reply (.done false)
    else return .write ⟨.user id, setPwdHash (getPwdHash sha256 id newPwd row.registerTime),
      .done true⟩
  | .setNickName accountId achieveId => do
    let (achieve, goal) ← getAchieve db accountId achieveId
    if achieve < goal then return .reply (.done false)
    else return .write ⟨.user accountId, fun user =>
      .ok (user.map fun row => { row with nickname := achieveId }), .done true⟩
  | .achieve id achieve => do
    let (count, require) ← getAchieve db id achieve
    if count < require then
      return .write ⟨.progress (id, achieve), upsertRow db id achieve 1 (· + 1),
        .done (decide (require - count = 1))⟩
    else return .reply (.done false)
  | .achieveProgress id achieve c => do
    let (count, require) ← getAchieve db id achieve
    if count < require ∧ count < c then
      let c := min require c
      return .write ⟨.progress (id, achieve), upsertRow db id achieve c fun _ => c,
        .done (decide (require ≤ c))⟩
    else return .reply (.done false)

def plan (db : Database) (c : Access) (rows : Rows) : Except Exn (Decision Key.Row Reply Exn) :=
  select sha256 (view db rows) c

/-- A call of one at a time, with the reply it has given. -/
def performed (db : Database) (entry : Access × Reply) : Option Database :=
  match db.perform sha256 entry.1.call with
  | .error _ => none
  | .ok (reply, db) => if reply = entry.2 then some db else none

end Statements

/-! ## Rows -/

/-- What no call changes of an account. -/
def identity (u : User) : AccountId × Text × Text := (u.id, u.registerTime, u.email)

def Keeps (db : Database) (rows : Rows) : Prop :=
  ∀ id, (rows (.user id)).map identity = (rowsOf db (.user id)).map identity

variable {sha256 : List Byte → Hash} {db : Database} {rows : Rows} {id : AccountId} {u : User}

theorem keeps_rowsOf (db : Database) : Keeps db (rowsOf db) := fun _ => rfl

theorem Keeps.id_eq (hk : Keeps db rows) (hu : rows (.user id) = some u) : u.id = id := by
  have h := hk id
  rw [hu] at h
  obtain ⟨v, hv, hid⟩ := Option.map_eq_some_iff.mp h.symm
  have hfound : v.id = id := by simpa using List.find?_some hv
  have heq : v.id = u.id := congrArg Prod.fst hid
  rw [← heq, hfound]

/-- The rows of accounts are those of the database. -/
theorem Keeps.isSome (hk : Keeps db rows) :
    (rows (.user id)).isSome = true ↔ id ∈ db.userlist.map (·.id) := by
  have h := congrArg Option.isSome (hk id)
  rw [Option.isSome_map, Option.isSome_map] at h
  rw [h]
  simp [rowsOf]

theorem map_filterMap_self {ids : List AccountId} {f : AccountId → Option User}
    (h : ∀ id ∈ ids, ∃ u, f id = some u ∧ u.id = id) : (ids.filterMap f).map (·.id) = ids := by
  induction ids with
  | nil => rfl
  | cons id rest ih =>
    obtain ⟨u, hu, hid⟩ := h id List.mem_cons_self
    rw [List.filterMap_cons_some hu, List.map_cons, hid,
      ih fun id' h' => h id' (List.mem_cons_of_mem _ h')]

theorem Keeps.ids (hk : Keeps db rows) :
    (view db rows).userlist.map (·.id) = db.userlist.map (·.id) := by
  refine map_filterMap_self fun id hid => ?_
  obtain ⟨u, hu⟩ := Option.isSome_iff_exists.mp (hk.isSome.mpr hid)
  exact ⟨u, hu, hk.id_eq hu⟩

theorem Keeps.mem (hk : Keeps db rows) : u ∈ (view db rows).userlist ↔
    rows (.user u.id) = some u := by
  simp only [view, List.mem_filterMap]
  constructor
  · rintro ⟨id, -, hu⟩
    rwa [hk.id_eq hu]
  · intro hu
    exact ⟨u.id, hk.isSome.mp (by rw [hu]; rfl), hu⟩

/-- `WHERE id = $1`. -/
theorem Keeps.filter (hd : (db.userlist.map (·.id)).Nodup) (hk : Keeps db rows) :
    (view db rows).userlist.filter (fun row => row.id = id) = (rows (.user id)).toList := by
  cases hu : rows (.user id) with
  | none =>
    refine List.filter_eq_nil_iff.mpr fun row hrow hid => ?_
    have hsome := hk.mem.mp hrow
    rw [of_decide_eq_true hid, hu] at hsome
    cases hsome
  | some u =>
    have hid := hk.id_eq hu
    have hmem : u ∈ (view db rows).userlist := hk.mem.mpr (by rwa [hid])
    rw [← hid]
    exact filter_eq_singleton (hk.ids ▸ hd) hmem

theorem Keeps.find (hd : (db.userlist.map (·.id)).Nodup) (hk : Keeps db rows) :
    (view db rows).userlist.find? (fun row => row.id = id) = rows (.user id) := by
  rw [← List.head?_filter, hk.filter hd, Option.head?_toList]

theorem rowsOf_view (hd : (db.userlist.map (·.id)).Nodup) (hk : Keeps db rows) :
    rowsOf (view db rows) = rows := by
  funext key
  cases key with
  | user id => exact hk.find hd
  | progress k => rfl

theorem view_rowsOf (hd : (db.userlist.map (·.id)).Nodup) : view db (rowsOf db) = db := by
  have hlist : (db.userlist.map (·.id)).filterMap
      (fun id => db.userlist.find? fun row => row.id = id) = db.userlist := by
    rw [List.filterMap_map]
    refine (List.filterMap_congr fun row hrow => ?_).trans (List.filterMap_some)
    rw [Function.comp_apply, ← List.head?_filter, filter_eq_singleton hd hrow]
    rfl
  unfold view
  simp only [rowsOf, hlist]

theorem view_user (hk : Keeps db rows) (id : AccountId) (f : User → User) :
    view db (Function.update rows (.user id) ((rows (.user id)).map f)) =
      { view db rows with
        userlist := (view db rows).userlist.map fun row => if row.id = id then f row else row } := by
  have hrow : ∀ id', (Function.update rows (.user id) ((rows (.user id)).map f) : Rows) (.user id') =
      (rows (.user id')).map fun row => if row.id = id then f row else row := by
    intro id'
    by_cases hid : id' = id
    · subst hid
      rw [Function.update_self]
      cases hu : rows (.user id') with
      | none => rfl
      | some u => simp [hk.id_eq hu]
    · rw [Function.update_of_ne (by simpa using hid)]
      cases hu : rows (.user id') with
      | none => rfl
      | some u => simp [hk.id_eq hu, hid]
  have hcounts : (fun k => (Function.update rows (.user id) ((rows (.user id)).map f) : Rows)
      (.progress k)) = fun k => rows (.progress k) :=
    funext fun k => Function.update_of_ne (by simp) _ _
  simp only [view, List.map_filterMap, hrow, hcounts]

theorem view_progress (k : AccountId × AchievementId) (row : Option Int) :
    view db (Function.update rows (.progress k) row) =
      { view db rows with
        userAchievement := Function.update (view db rows).userAchievement k row } := by
  have husers : (fun id => (Function.update rows (.progress k) row : Rows) (.user id)) =
      fun id => rows (.user id) := funext fun id => Function.update_of_ne (by simp) _ _
  have hcounts : (fun k' => (Function.update rows (.progress k) row : Rows) (.progress k')) =
      Function.update (fun k' => rows (.progress k')) k row := by
    funext k'
    by_cases hkk : k' = k
    · subst hkk
      rw [Function.update_self, Function.update_self]
    · rw [Function.update_of_ne hkk, Function.update_of_ne (by simpa using hkk)]
  simp only [view, husers, hcounts]

/-! ## One call at a time -/

theorem upsert_view {a : AchievementId} {value : Int} {update : Int → Int} :
    upsert (view db rows) id a value update =
      (upsertRow (view db rows) id a value update (rows (.progress (id, a)))).map fun row =>
        view db (Function.update rows (.progress (id, a)) row) := by
  have hrow : (view db rows).userAchievement (id, a) = rows (.progress (id, a)) := rfl
  unfold upsert
  rw [hrow]
  cases rows (.progress (id, a)) with
  | some count => simp [upsertRow, Except.map, view_progress]
  | none =>
    simp only [upsertRow]
    split
    · simp [Except.map, view_progress]
    · rfl

theorem updatePwdHash_view (hk : Keeps db rows) {hash : Hash} :
    updatePwdHash (view db rows) id hash = (setPwdHash hash (rows (.user id))).map fun row =>
      view db (Function.update rows (.user id) row) := by
  unfold updatePwdHash setPwdHash
  cases char 43 (Encoder.encodeBase64 hash.toList) with
  | error e => rfl
  | ok stored => simp [bind, Except.bind, pure, Except.pure, Except.map, view_user hk]

/-- **A call that is alone** does what it does on the database. -/
theorem alone_view (hk : Keeps db rows) (c : Access) :
    (System.alone (plan sha256 db) c rows).map (fun r => (r.1, view db r.2)) =
      (view db rows).perform sha256 c.call := by
  cases c with
  | findAccount email pwd =>
    simp only [System.alone, plan, select, Access.call, Database.perform]
    cases findAccount sha256 (view db rows) email pwd <;> rfl
  | changePwd id oldPwd newPwd =>
    simp only [System.alone, plan, select, Access.call, Database.perform, changePwd]
    cases exec1 ((view db rows).userlist.filter fun row => row.id = id) with
    | error e => rfl
    | ok row =>
      simp only [bind, Except.bind]
      cases storedHash row with
      | error e => rfl
      | ok answer =>
        simp only
        split_ifs
        · rfl
        · rw [updatePwdHash_view hk]
          simp only [pure, Except.pure]
          cases setPwdHash (getPwdHash sha256 id newPwd row.registerTime) (rows (.user id)) <;> rfl
  | setNickName id a =>
    simp only [System.alone, plan, select, Access.call, Database.perform, setNickName]
    cases getAchieve (view db rows) id a with
    | error e => rfl
    | ok pair =>
      simp only [bind, Except.bind]
      split_ifs
      · rfl
      · simp only [pure, Except.pure, Except.map, Prod.map, id_eq, view_user hk]
  | achieve id a =>
    simp only [System.alone, plan, select, Access.call, Database.perform, achieve]
    cases getAchieve (view db rows) id a with
    | error e => rfl
    | ok pair =>
      simp only [bind, Except.bind]
      split_ifs
      · rw [upsert_view]
        simp only [pure, Except.pure]
        cases upsertRow (view db rows) id a 1 (· + 1) (rows (.progress (id, a))) <;> rfl
      · rfl
  | achieveProgress id a m =>
    simp only [System.alone, plan, select, Access.call, Database.perform, achieveProgress]
    cases getAchieve (view db rows) id a with
    | error e => rfl
    | ok pair =>
      simp only [bind, Except.bind]
      split_ifs
      · rw [upsert_view]
        simp only [pure, Except.pure]
        cases upsertRow (view db rows) id a (min pair.2 m) (fun _ => min pair.2 m)
          (rows (.progress (id, a))) <;> rfl
      · rfl

/-- The calls that go on to write, what they have read for it, and the row they write. -/
theorem select_write {c : Access} {w : Write Key.Row Reply Exn}
    (h : select sha256 db c = .ok (.write w)) :
    (∃ id oldPwd newPwd row, c = .changePwd id oldPwd newPwd ∧
      exec1 (db.userlist.filter fun row => row.id = id) = .ok row ∧
      storedHash row = .ok (getPwdHash sha256 id oldPwd row.registerTime) ∧
      w = ⟨.user id, setPwdHash (getPwdHash sha256 id newPwd row.registerTime), .done true⟩) ∨
    (∃ id a n r, c = .setNickName id a ∧ getAchieve db id a = .ok (n, r) ∧ r ≤ n ∧
      w = ⟨.user id, fun user => .ok (user.map fun row => { row with nickname := a }),
        .done true⟩) ∨
    (∃ id a n r, c = .achieve id a ∧ getAchieve db id a = .ok (n, r) ∧ n < r ∧
      w = ⟨.progress (id, a), upsertRow db id a 1 (· + 1), .done (decide (r - n = 1))⟩) ∨
    ∃ id a m n r, c = .achieveProgress id a m ∧ getAchieve db id a = .ok (n, r) ∧
      (n < r ∧ n < m) ∧ w = ⟨.progress (id, a), upsertRow db id a (min r m) fun _ => min r m,
        .done (decide (r ≤ min r m))⟩ := by
  cases c with
  | findAccount email pwd =>
    obtain ⟨found, -, heq⟩ := bind_eq_ok.mp h
    cases heq
  | changePwd id oldPwd newPwd =>
    obtain ⟨row, hrow, h⟩ := bind_eq_ok.mp h
    obtain ⟨answer, hanswer, h⟩ := bind_eq_ok.mp h
    split at h
    · cases h
    · rename_i hmatch
      cases h
      rw [ne_eq, not_not] at hmatch
      exact .inl ⟨id, oldPwd, newPwd, row, rfl, hrow, hmatch ▸ hanswer, rfl⟩
  | setNickName id a =>
    obtain ⟨⟨n, r⟩, hget, h⟩ := bind_eq_ok.mp h
    simp only at h
    split at h
    · cases h
    · rename_i hle
      cases h
      exact .inr (.inl ⟨id, a, n, r, rfl, hget, not_lt.mp hle, rfl⟩)
  | achieve id a =>
    obtain ⟨⟨n, r⟩, hget, h⟩ := bind_eq_ok.mp h
    simp only at h
    split at h
    · rename_i hlt
      cases h
      exact .inr (.inr (.inl ⟨id, a, n, r, rfl, hget, hlt, rfl⟩))
    · cases h
  | achieveProgress id a m =>
    obtain ⟨⟨n, r⟩, hget, h⟩ := bind_eq_ok.mp h
    simp only at h
    split at h
    · rename_i hlt
      cases h
      exact .inr (.inr (.inr ⟨id, a, m, n, r, rfl, hget, hlt, rfl⟩))
    · cases h

/-! ## What a commit finds -/

/-- What the call has read holds still, as far as it matters for what it has written. -/
def InForce (sha256 : List Byte → Hash) (db : Database) : Access → Reply → Prop
  | .findAccount _ _, _ => True
  | .changePwd id oldPwd _, _ => ∃ row ∈ db.userlist, row.id = id ∧
      storedHash row = .ok (getPwdHash sha256 id oldPwd row.registerTime)
  | .setNickName id a, _ => ∃ n r, getAchieve db id a = .ok (n, r) ∧ r ≤ n
  | .achieve id a, reply => ∃ n r, getAchieve db id a = .ok (n, r) ∧ n < r ∧
      reply = .done (decide (r - n = 1))
  | .achieveProgress id a m, _ => ∃ n r, getAchieve db id a = .ok (n, r) ∧
      (n < min r m ∨ m < r ∧ db.userAchievement (id, a) = some m)

/-- The condition on a step: a commit finds in force what the call has read. -/
def Timely (sha256 : List Byte → Hash) (db : Database) (s : State) : Label Access → Prop
  | .commit i => match s.phase i with
    | .written c w _ => InForce sha256 (view db s.rows) c w.reply
    | _ => True
  | _ => True

/-- The calls that have ended gave the replies, and have left the rows, that they give and
leave one at a time in this order. -/
def Serial (sha256 : List Byte → Hash) (db : Database) (s : State) : Prop :=
  run (performed sha256) db s.log = some (view db s.rows)

variable {s : State}

theorem keeps_update_user (hk : Keeps db rows) {row : Option User}
    (hrow : row.map identity = (rows (.user id)).map identity) :
    Keeps db (Function.update rows (.user id) row) := by
  intro id'
  by_cases hid : id' = id
  · subst hid
    rw [Function.update_self, hrow, hk]
  · rw [Function.update_of_ne (by simpa using hid)]
    exact hk id'

theorem setPwdHash_identity {hash : Hash} {user row : Option User}
    (h : setPwdHash hash user = .ok row) : row.map identity = user.map identity := by
  obtain ⟨stored, -, heq⟩ := bind_eq_ok.mp h
  cases heq
  cases user <;> rfl

theorem keeps_step (c : Access) (rows rows' : Rows) (w : Write Key.Row Reply Exn)
    (row : w.key.Row) (hk : Keeps db rows') (hplan : plan sha256 db c rows = .ok (.write w))
    (hrow : w.update (rows' w.key) = .ok row) : Keeps db (Function.update rows' w.key row) := by
  have hcounts : ∀ k (row : Option Int), Keeps db (Function.update rows' (.progress k) row) := by
    intro k row id
    rw [Function.update_of_ne (by simp)]
    exact hk id
  rcases select_write hplan with ⟨id, _, _, _, -, -, -, rfl⟩ | ⟨id, _, _, _, -, -, -, rfl⟩ |
    ⟨id, a, _, _, -, -, -, rfl⟩ | ⟨id, a, _, _, _, -, -, -, rfl⟩
  · exact keeps_update_user hk (setPwdHash_identity hrow)
  · refine keeps_update_user hk ?_
    cases hrow
    cases rows' (.user id) <;> rfl
  · exact hcounts _ _
  · exact hcounts _ _

theorem exec1_eq_ok {α : Type} {l : List α} {row : α} : exec1 l = .ok row ↔ l = [row] := by
  unfold exec1
  split <;> simp_all

theorem getAchieve_view (hd : (db.userlist.map (·.id)).Nodup) (hk : Keeps db rows)
    (id : AccountId) (a : AchievementId) : getAchieve (view db rows) id a =
      match db.achievement a with
      | none => .error .unexpectedRows
      | some require =>
        .ok (((rows (.user id)).bind fun _ => rows (.progress (id, a))).getD 0, require) := by
  unfold getAchieve
  rw [hk.find hd]
  have hachievement : (view db rows).achievement a = db.achievement a := rfl
  rw [hachievement]
  cases db.achievement a with
  | none => rfl
  | some require =>
    cases hu : rows (.user id) with
    | none => rfl
    | some u =>
      simp only [Option.map_some, Option.bind_some, hk.id_eq hu]
      rfl

/-- The references of a new row are the same in all views. -/
theorem upsertRow_view {rows' : Rows} (hk : Keeps db rows) (hk' : Keeps db rows')
    (id : AccountId) (a : AchievementId) (value : Int) (update : Int → Int) :
    upsertRow (view db rows) id a value update = upsertRow (view db rows') id a value update := by
  have hany : ∀ {rows : Rows}, Keeps db rows →
      ((view db rows).userlist.any (fun row => row.id = id) = true ↔
        id ∈ db.userlist.map (·.id)) := by
    intro rows hk
    rw [← hk.ids]
    simp
  funext row
  cases row with
  | some count => rfl
  | none => simp only [upsertRow, hany hk, hany hk']; rfl

section Commit
variable {rows₀ : Rows} (hd : (db.userlist.map (·.id)).Nodup) (hk : Keeps db rows)
  (hk₀ : Keeps db rows₀)
include hd hk hk₀

theorem told_changePwd {oldPwd newPwd : Hash} {row₀ : User} {row : Option User}
    (hrow₀ : exec1 ((view db rows₀).userlist.filter fun row => row.id = id) = .ok row₀)
    (hw : setPwdHash (getPwdHash sha256 id newPwd row₀.registerTime) (rows (.user id)) = .ok row) :
    System.told (plan sha256 db) rows (.changePwd id oldPwd newPwd, .done true) =
        some (Function.update rows (.user id) row) ↔
      InForce sha256 (view db rows) (.changePwd id oldPwd newPwd) (.done true) := by
  -- the account has a row now as well, with the same time of registration
  have hrow₀ : rows₀ (.user id) = some row₀ := by
    rw [exec1_eq_ok, hk₀.filter hd] at hrow₀
    exact Option.toList_eq_singleton_iff.mp hrow₀
  obtain ⟨u, hu, hident⟩ : ∃ u, rows (.user id) = some u ∧ identity u = identity row₀ := by
    have h := (hk id).trans (hk₀ id).symm
    rw [hrow₀] at h
    exact Option.map_eq_some_iff.mp h
  have htime : u.registerTime = row₀.registerTime := congrArg (fun i => i.2.1) hident
  have hid : u.id = id := hk.id_eq hu
  have hforce : InForce sha256 (view db rows) (.changePwd id oldPwd newPwd) (.done true) ↔
      storedHash u = .ok (getPwdHash sha256 id oldPwd u.registerTime) := by
    constructor
    · rintro ⟨row, hmem, hrow, hstored⟩
      have hrow' := hk.mem.mp hmem
      rw [hrow, hu] at hrow'
      cases hrow'
      exact hstored
    · exact fun h => ⟨u, hk.mem.mpr (by rwa [hid]), hid, h⟩
  rw [hforce]
  unfold System.told System.alone plan select
  simp only [hk.filter hd, hu, Option.toList_some, exec1, bind, Except.bind]
  cases hstored : storedHash u with
  | error e => simp
  | ok answer =>
    simp only [Except.ok.injEq]
    by_cases hm : getPwdHash sha256 id oldPwd u.registerTime = answer
    · simp only [hm, ne_eq, not_true_eq_false, if_false, pure, Except.pure]
      rw [hu] at hw
      simp only [htime, hw, hu, if_true]
    · simp only [hm, ne_eq, not_false_eq_true, if_true, pure, Except.pure]
      exact iff_of_false (by simp) (Ne.symm hm)

theorem told_setNickName {a : AchievementId} {n r : Int} {row : Option User}
    (hget : getAchieve (view db rows₀) id a = .ok (n, r))
    (hw : row = (rows (.user id)).map fun row => { row with nickname := a }) :
    System.told (plan sha256 db) rows (.setNickName id a, .done true) =
        some (Function.update rows (.user id) row) ↔
      InForce sha256 (view db rows) (.setNickName id a) (.done true) := by
  rw [getAchieve_view hd hk₀] at hget
  cases hrequire : db.achievement a with
  | none =>
    rw [hrequire] at hget
    cases hget
  | some require =>
    have hnow := getAchieve_view hd hk id a
    rw [hrequire] at hnow
    simp only [InForce, hnow, Except.ok.injEq, Prod.mk.injEq, ↓existsAndEq, true_and]
    unfold System.told System.alone plan select
    simp only [hnow, bind, Except.bind]
    split_ifs with hlt
    · exact iff_of_false (by simp [pure, Except.pure]) (not_le.mpr hlt)
    · simp [pure, Except.pure, hw, not_lt.mp hlt]

/-- A row that is written by `Achieve` is not the row it was. -/
theorem told_achieve {a : AchievementId} {n r : Int} {row : Option Int}
    (hget : getAchieve (view db rows₀) id a = .ok (n, r))
    (hw : upsertRow (view db rows₀) id a 1 (· + 1) (rows (.progress (id, a))) = .ok row)
    (reply : Reply) :
    System.told (plan sha256 db) rows (.achieve id a, reply) =
        some (Function.update rows (.progress (id, a)) row) ↔
      InForce sha256 (view db rows) (.achieve id a) reply := by
  rw [getAchieve_view hd hk₀] at hget
  rw [upsertRow_view hk₀ hk] at hw
  have hne : row ≠ rows (.progress (id, a)) := by
    intro heq
    rw [← heq] at hw
    cases row with
    | some count =>
      simp only [upsertRow, Except.ok.injEq, Option.some.injEq] at hw
      omega
    | none =>
      simp only [upsertRow] at hw
      split at hw <;> cases hw
  cases hrequire : db.achievement a with
  | none =>
    rw [hrequire] at hget
    cases hget
  | some require =>
    have hnow := getAchieve_view hd hk id a
    rw [hrequire] at hnow
    simp only [InForce, hnow, Except.ok.injEq, Prod.mk.injEq, ↓existsAndEq, true_and]
    unfold System.told System.alone plan select
    simp only [hnow, bind, Except.bind]
    split_ifs with hlt
    · simp only [pure, Except.pure, hw, hlt, true_and]
      split_ifs with hreply
      · exact iff_of_true rfl hreply.symm
      · exact iff_of_false not_false fun h => hreply h.symm
    · refine iff_of_false ?_ fun h => hlt h.1
      simp only [pure, Except.pure]
      split_ifs
      · intro h
        refine hne ?_
        have hrow := congrFun (Option.some.inj h) (.progress (id, a))
        rw [Function.update_self] at hrow
        exact hrow.symm
      · exact not_false

theorem told_achieveProgress {a : AchievementId} {m n r : Int} {row : Option Int}
    (hget : getAchieve (view db rows₀) id a = .ok (n, r))
    (hw : upsertRow (view db rows₀) id a (min r m) (fun _ => min r m) (rows (.progress (id, a))) =
      .ok row) :
    System.told (plan sha256 db) rows (.achieveProgress id a m, .done (decide (r ≤ min r m))) =
        some (Function.update rows (.progress (id, a)) row) ↔
      InForce sha256 (view db rows) (.achieveProgress id a m) (.done (decide (r ≤ min r m))) := by
  rw [getAchieve_view hd hk₀] at hget
  rw [upsertRow_view hk₀ hk] at hw
  have hrow : row = some (min r m) := by
    cases hcount : rows (.progress (id, a)) with
    | some count =>
      rw [hcount] at hw
      cases hw
      rfl
    | none =>
      rw [hcount] at hw
      simp only [upsertRow] at hw
      split at hw <;> cases hw
      rfl
  cases hrequire : db.achievement a with
  | none =>
    rw [hrequire] at hget
    cases hget
  | some require =>
    rw [hrequire] at hget
    obtain rfl : require = r := congrArg (fun p => p.2) (Except.ok.inj hget)
    have hnow := getAchieve_view hd hk id a
    rw [hrequire] at hnow
    simp only [InForce, hnow, Except.ok.injEq, Prod.mk.injEq, ↓existsAndEq, true_and]
    unfold System.told System.alone plan select
    simp only [hnow, bind, Except.bind]
    split_ifs with hlt
    · simp only [pure, Except.pure, hw, if_true, true_iff]
      exact .inl (lt_min hlt.1 hlt.2)
    · have hless : ¬ ((rows (.user id)).bind fun _ => rows (.progress (id, a))).getD 0 <
          min require m := fun h => hlt (lt_min_iff.mp h)
      simp only [pure, Except.pure, hless, false_or]
      constructor
      · intro h
        split_ifs at h with hreply
        simp only [Reply.done.injEq, Bool.false_eq, decide_eq_false_iff_not, not_le] at hreply
        have hsame := congrFun (Option.some.inj h) (.progress (id, a))
        rw [Function.update_self, hrow] at hsame
        have hm : m < require := by omega
        refine ⟨hm, ?_⟩
        rw [min_eq_right hm.le] at hsame
        exact hsame
      · rintro ⟨hm, hcount⟩
        have hsame : rows (.progress (id, a)) = some m := hcount
        rw [hrow, min_eq_right hm.le, if_pos (by simp [hm]), ← hsame, Function.update_eq_self]

end Commit

/-! ## Runs -/

theorem unmoved_iff (hd : (db.userlist.map (·.id)).Nodup)
    (h : System.Guarded (plan sha256 db) (Keeps db) s) (l : Label Access) :
    System.Unmoved (plan sha256 db) s l ↔ Timely sha256 db s l := by
  cases l with
  | commit i =>
    cases hphase : s.phase i with
    | written c w row =>
      simp only [System.Unmoved, Timely, hphase]
      obtain ⟨-, hw, rows₀, hk₀, hplan⟩ := h.written i c w row hphase
      rcases select_write hplan with ⟨id, old, new, row₀, rfl, hrow₀, -, rfl⟩ |
        ⟨id, a, n, r, rfl, hget, -, rfl⟩ | ⟨id, a, n, r, rfl, hget, -, rfl⟩ |
        ⟨id, a, m, n, r, rfl, hget, -, rfl⟩
      · exact told_changePwd hd h.rows hk₀ hrow₀ hw
      · exact told_setNickName hd h.rows hk₀ hget (Except.ok.inj hw).symm
      · exact told_achieve hd h.rows hk₀ hget hw _
      · exact told_achieveProgress hd h.rows hk₀ hget hw
    | _ => simp only [System.Unmoved, Timely, hphase]
  | _ => exact Iff.rfl

theorem told_view (hk : Keeps db rows) (entry : Access × Reply) :
    (System.told (plan sha256 db) rows entry).map (view db) =
      performed sha256 (view db rows) entry := by
  unfold System.told performed
  rw [← alone_view hk]
  cases System.alone (plan sha256 db) entry.1 rows with
  | error e => rfl
  | ok r =>
    simp only [Except.map]
    split <;> rfl

theorem keeps_told {entry : Access × Reply} {rows' : Rows} (hk : Keeps db rows)
    (h : System.told (plan sha256 db) rows entry = some rows') : Keeps db rows' := by
  unfold System.told System.alone at h
  cases hplan : plan sha256 db entry.1 rows with
  | error e =>
    rw [hplan] at h
    cases h
  | ok decision =>
    rw [hplan] at h
    cases decision with
    | reply a =>
      simp only at h
      split at h <;> cases h
      exact hk
    | write w =>
      simp only at h
      cases hw : w.update (rows w.key) with
      | error e =>
        rw [hw] at h
        cases h
      | ok row =>
        rw [hw] at h
        simp only at h
        split at h <;> cases h
        exact keeps_step entry.1 rows rows w row hk hplan hw

/-- The calls one at a time, on rows and on the database. -/
theorem run_view (hk : Keeps db rows) (log : List (Access × Reply)) :
    (run (System.told (plan sha256 db)) rows log).map (view db) =
        run (performed sha256) (view db rows) log ∧
      ∀ rows', run (System.told (plan sha256 db)) rows log = some rows' → Keeps db rows' := by
  induction log generalizing rows with
  | nil =>
    refine ⟨rfl, fun rows' h => ?_⟩
    cases h
    exact hk
  | cons entry rest ih =>
    rw [run_cons, run_cons, ← told_view hk]
    cases htold : System.told (plan sha256 db) rows entry with
    | none => exact ⟨rfl, nofun⟩
    | some rows₁ => exact ih (keeps_told hk htold)

theorem serial_iff (hd : (db.userlist.map (·.id)).Nodup) (hk : Keeps db s.rows) :
    System.Serial (plan sha256 db) (rowsOf db) s ↔ Serial sha256 db s := by
  obtain ⟨hview, hkeeps⟩ := @run_view sha256 db _ (keeps_rowsOf db) s.log
  rw [view_rowsOf hd] at hview
  unfold System.Serial Serial
  rw [← hview, Option.map_eq_some_iff]
  constructor
  · exact fun h => ⟨s.rows, h, rfl⟩
  · rintro ⟨rows', hrun, heq⟩
    have hrows := rowsOf_view hd (hkeeps rows' hrun)
    rw [heq, rowsOf_view hd hk] at hrows
    rw [hrows]
    exact hrun

/-- **Overlapping calls are as good as calls one at a time as long as, and only as long as,**
each commit finds in force what its call has read: the old password of a change, a progress
that has not reached its goal, a nickname that has. -/
theorem always_serial_iff (hd : (db.userlist.map (·.id)).Nodup) (ls : List (Label Access)) :
    Always (System.step (plan sha256 db)) (Serial sha256 db) (System.start (rowsOf db)) ls ↔
      Meets (System.step (plan sha256 db)) (Timely sha256 db) (System.start (rowsOf db)) ls := by
  have hstep : ∀ (s : State) (l : Label Access) (t : State),
      System.Guarded (plan sha256 db) (Keeps db) s → System.step (plan sha256 db) s l = some t →
        System.Guarded (plan sha256 db) (Keeps db) t := fun s l t h hr =>
    h.step (fun c rows rows' w row _ hk hplan hw => keeps_step c rows rows' w row hk hplan hw) hr
  have hstart : System.Guarded (plan sha256 db) (Keeps db)
      (System.start (rowsOf db) : State) := System.guarded_start (keeps_rowsOf db)
  rw [← always_congr hstep (fun s h => serial_iff hd h.rows) ls hstart,
    System.always_serial_iff_unmoved]
  constructor
  · exact meets_of_meets (fun _ l h => (unmoved_iff hd h l).mp)
      (fun s l t h _ hr => hstep s l t h hr) hstart
  · exact meets_of_meets (fun _ l h => (unmoved_iff hd h l).mpr)
      (fun s l t h _ hr => hstep s l t h hr) hstart

/-- Two accounts, and an achievement with the goal 2. -/
def sample : Database where
  achievement a := if a = 4 then some 2 else none
  userlist := [⟨17, sampleTime, 1, "player@drgb".toList, []⟩,
    ⟨23, sampleTime, 1, "other@drgb".toList, []⟩]
  userAchievement k := if k = (23, 4) then some 1 else none
  idSeq := 23

/-- Two calls for one account read a count of 0, so neither reports that they have reached the goal
together. The call for the other account does. -/
def unnoticed : List (Label Access) :=
  [.select 0 (.achieve 17 4), .select 1 (.achieve 17 4), .select 2 (.achieve 23 4), .write 0,
    .write 2, .commit 0, .commit 2, .write 1, .commit 1]

theorem always_serial_iff_unnoticed :
    (Always (System.step (plan sampleSha256 sample)) (Serial sampleSha256 sample)
        (System.start (rowsOf sample)) unnoticed ↔
      Meets (System.step (plan sampleSha256 sample)) (Timely sampleSha256 sample)
        (System.start (rowsOf sample)) unnoticed) ∧
    ∃ s : State, run (System.step (plan sampleSha256 sample)) (System.start (rowsOf sample))
      unnoticed = some s ∧ s.rows (.progress (17, 4)) = some 2 ∧
        s.rows (.progress (23, 4)) = some 2 ∧
        s.log.map (·.2) = [.done false, .done true, .done false] :=
  ⟨always_serial_iff (by decide) _, exists_run_of_any (by decide +kernel)⟩

end DrgbServer.Postgres.Overlapping
