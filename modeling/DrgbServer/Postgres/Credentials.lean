import DrgbServer.Postgres.MyPostgres

/-! # The password that was set last

The accounts as the calls have made them, an e-mail with the id and the password set last,
against the rows of `userlist` with their encoded hashes. The hash is assumed to tell
passwords apart. The e-mail of an account is the one the column has stored. -/
namespace DrgbServer.Postgres
open DrgbServer.Utils DrgbServer.Lib.Transition MyPostgres

theorem ok_bind {α β : Type} (a : α) (f : α → Except Exn β) : (Except.ok a >>= f) = f a := rfl

/-! ## Hashes in rows -/

theorem varchar_eq_ok {n : Nat} {value stored : Text} (h : varchar n value = .ok stored) :
    stored = value.take n := by
  unfold varchar at h
  split at h
  · cases h
    rfl
  · cases h

/-- A Base64 text of a hash fills its column. -/
theorem char_encode (h : Hash) :
    char 43 (Encoder.encodeBase64 h.toList) = .ok (Encoder.encodeBase64 h.toList) := by
  have hlen : (Encoder.encodeBase64 h.toList).length = 43 := by
    rw [Encoder.length_encodeBase64, Vector.length_toList]
  have hdrop : (Encoder.encodeBase64 h.toList).drop 43 = [] :=
    List.drop_eq_nil_of_le (by omega)
  have htake : (Encoder.encodeBase64 h.toList).take 43 = Encoder.encodeBase64 h.toList :=
    List.take_of_length_le (by omega)
  rw [char, varchar, hdrop, htake]
  simp [Except.map, hlen]

theorem storedHash_encode (row : User) (h : Hash) :
    storedHash { row with pwdHash := Encoder.encodeBase64 h.toList } = .ok h := by
  have hlen : ¬ h.toList.length < 32 := by
    rw [Vector.length_toList]
    omega
  rw [storedHash, Encoder.decodeBase64_encodeBase64]
  show (if h.toList.length < 32 then _ else _) = _
  rw [if_neg hlen, toHash_toList]

theorem updatePwdHash_eq (db : Database) (id : AccountId) (h : Hash) :
    updatePwdHash db id h = .ok { db with userlist := db.userlist.map fun row =>
      if row.id = id then { row with pwdHash := Encoder.encodeBase64 h.toList } else row } := by
  rw [updatePwdHash, char_encode]
  rfl

/-- Columns that a map of the rows leaves. -/
theorem map_key {κ : Type} {key : User → κ} {f : User → User} (hf : ∀ row, key (f row) = key row)
    (l : List User) : (l.map f).map key = l.map key := by
  rw [List.map_map]
  exact List.map_congr_left fun row _ => hf row

/-- The row of `id` with the hash of `pwd`, another row as it is. -/
def rehash (sha256 : List Byte → Hash) (id : AccountId) (pwd : Hash) (row : User) : User :=
  if row.id = id then { row with
    pwdHash := Encoder.encodeBase64 (getPwdHash sha256 id pwd row.registerTime).toList }
  else row

@[simp] theorem rehash_id (sha256 : List Byte → Hash) (id : AccountId) (pwd : Hash) (row : User) :
    (rehash sha256 id pwd row).id = row.id := by
  unfold rehash
  split <;> rfl

@[simp] theorem rehash_email (sha256 : List Byte → Hash) (id : AccountId) (pwd : Hash)
    (row : User) : (rehash sha256 id pwd row).email = row.email := by
  unfold rehash
  split <;> rfl

@[simp] theorem rehash_registerTime (sha256 : List Byte → Hash) (id : AccountId) (pwd : Hash)
    (row : User) : (rehash sha256 id pwd row).registerTime = row.registerTime := by
  unfold rehash
  split <;> rfl

/-! ## The accounts -/

/-- The id and the password of an e-mail. -/
abbrev Accounts := Text → Option (AccountId × Hash)

/-- The e-mail as the column stores it. -/
def storedEmail (email : Text) : Text := email.take 50

namespace Accounts

/-- What a call that has returned sets. -/
def record (m : Accounts) : Call → Except Exn Reply → Accounts
  | .registerAccount email pwd _ _, .ok (.account id) =>
    Function.update m (storedEmail email) (some (id, pwd))
  | .changePwd id _ newPwd, .ok (.done true) =>
    fun email => (m email).map fun a => if a.1 = id then (id, newPwd) else a
  | _, _ => m

@[simp] theorem record_error (m : Accounts) (c : Call) (e : Exn) : m.record c (.error e) = m := by
  cases c <;> rfl

/-- What the calls have set. -/
def set (sha256 : List Byte → Hash) (m : Accounts) (db : Database) : List Call → Accounts
  | [] => m
  | c :: rest => set sha256 (m.record c (db.reply sha256 c)) (db.after sha256 c) rest

end Accounts

/-- The rows are those of the accounts. -/
structure Represents (sha256 : List Byte → Hash) (m : Accounts) (db : Database) : Prop where
  ids : (db.userlist.map (·.id)).Nodup
  emails : (db.userlist.map (·.email)).Nodup
  positive : ∀ row ∈ db.userlist, 0 < row.id ∧ row.id ≤ db.idSeq
  rows : ∀ row ∈ db.userlist, ∃ pwd, m row.email = some (row.id, pwd) ∧
    storedHash row = .ok (getPwdHash sha256 row.id pwd row.registerTime)
  accounts : ∀ email id pwd, m email = some (id, pwd) →
    ∃ row ∈ db.userlist, row.email = email ∧ row.id = id

namespace Represents
variable {sha256 : List Byte → Hash} {m : Accounts} {db db' : Database}

/-- The row of an account. -/
theorem row (h : Represents sha256 m db) {email : Text} {id : AccountId} {pwd : Hash}
    (hm : m email = some (id, pwd)) : ∃ row ∈ db.userlist, row.email = email ∧ row.id = id ∧
      storedHash row = .ok (getPwdHash sha256 id pwd row.registerTime) := by
  obtain ⟨row, hrow, rfl, rfl⟩ := h.accounts email id pwd hm
  obtain ⟨pwd', hm', hs⟩ := h.rows row hrow
  rw [hm] at hm'
  cases hm'
  exact ⟨row, hrow, rfl, rfl, hs⟩

/-- Rows changed in what the accounts do not show. -/
theorem congr (h : Represents sha256 m db) {f : User → User}
    (hf : ∀ row, (f row).id = row.id ∧ (f row).email = row.email ∧
      (f row).pwdHash = row.pwdHash ∧ (f row).registerTime = row.registerTime)
    (hu : db'.userlist = db.userlist.map f) (hs : db'.idSeq = db.idSeq) :
    Represents sha256 m db' := by
  refine ⟨?_, ?_, ?_, ?_, ?_⟩
  · rw [hu, map_key fun row => (hf row).1]
    exact h.ids
  · rw [hu, map_key fun row => (hf row).2.1]
    exact h.emails
  · intro row' hrow'
    rw [hu] at hrow'
    obtain ⟨row, hrow, rfl⟩ := List.mem_map.mp hrow'
    rw [(hf row).1, hs]
    exact h.positive row hrow
  · intro row' hrow'
    rw [hu] at hrow'
    obtain ⟨row, hrow, rfl⟩ := List.mem_map.mp hrow'
    have hstored : storedHash (f row) = storedHash row := by
      rw [storedHash, storedHash, (hf row).2.2.1]
    rw [(hf row).1, (hf row).2.1, (hf row).2.2.2, hstored]
    exact h.rows row hrow
  · intro email id pwd hm
    obtain ⟨row, hrow, he, hid⟩ := h.accounts email id pwd hm
    refine ⟨f row, ?_, (hf row).2.1.trans he, (hf row).1.trans hid⟩
    rw [hu]
    exact List.mem_map_of_mem hrow

/-! ## The three functions -/

variable (hinj : ∀ id time, Function.Injective fun pwd => getPwdHash sha256 id pwd time)

include hinj in
theorem findAccount_eq (h : Represents sha256 m db) (email : Text) (pwd : Hash) :
    findAccount sha256 db email pwd = match m email with
      | none => .error .unexpectedRows
      | some (id, p) => .ok (if p = pwd then id else 0) := by
  cases hm : m email with
  | none =>
    have hnil : db.userlist.filter (fun row => row.email = email) = [] := by
      refine List.filter_eq_nil_iff.mpr ?_
      intro row hrow he
      obtain ⟨p, hp, -⟩ := h.rows row hrow
      rw [of_decide_eq_true he, hm] at hp
      cases hp
    rw [findAccount, hnil]
    rfl
  | some a =>
    obtain ⟨id, p⟩ := a
    obtain ⟨row, hrow, rfl, rfl, hs⟩ := h.row hm
    rw [findAccount, filter_eq_singleton h.emails hrow]
    show (storedHash row >>= _) = _
    rw [hs]
    show Except.ok _ = Except.ok _
    have hiff : getPwdHash sha256 row.id pwd row.registerTime =
        getPwdHash sha256 row.id p row.registerTime ↔ p = pwd :=
      ⟨fun heq => (hinj _ _ heq).symm, fun heq => by rw [heq]⟩
    simp only [hiff]

include hinj in
theorem changePwd_eq (h : Represents sha256 m db) (id : AccountId) (oldPwd newPwd : Hash) :
    (∀ email pwd, m email = some (id, pwd) → changePwd sha256 db id oldPwd newPwd =
      .ok (if pwd = oldPwd then
        (true, { db with userlist := db.userlist.map (rehash sha256 id newPwd) })
      else (false, db))) ∧
    ((∀ email pwd, m email ≠ some (id, pwd)) →
      changePwd sha256 db id oldPwd newPwd = .error .unexpectedRows) := by
  constructor
  · intro email pwd hm
    obtain ⟨row, hrow, rfl, rfl, hs⟩ := h.row hm
    have hiff : getPwdHash sha256 row.id oldPwd row.registerTime =
        getPwdHash sha256 row.id pwd row.registerTime ↔ pwd = oldPwd :=
      ⟨fun heq => (hinj _ _ heq).symm, fun heq => by rw [heq]⟩
    rw [changePwd, filter_eq_singleton h.ids hrow]
    show (storedHash row >>= _) = _
    rw [hs]
    show (if getPwdHash sha256 row.id oldPwd row.registerTime ≠
      getPwdHash sha256 row.id pwd row.registerTime then _ else _) = _
    by_cases hp : pwd = oldPwd
    · rw [if_neg (not_not_intro (hiff.mpr hp)), if_pos hp, updatePwdHash_eq]
      show Except.ok _ = Except.ok _
      refine congrArg (fun l => Except.ok (true, { db with userlist := l })) ?_
      refine List.map_congr_left fun row' hrow' => ?_
      rw [rehash]
      by_cases hid : row'.id = row.id
      · rw [List.inj_on_of_nodup_map h.ids hrow' hrow hid]
      · rw [if_neg hid, if_neg hid]
    · rw [if_pos (fun heq => hp (hiff.mp heq)), if_neg hp]
  · intro hnone
    have hnil : db.userlist.filter (fun row => row.id = id) = [] := by
      refine List.filter_eq_nil_iff.mpr ?_
      intro row hrow hid
      obtain ⟨p, hp, -⟩ := h.rows row hrow
      rw [of_decide_eq_true hid] at hp
      exact hnone row.email p hp
    rw [changePwd, hnil]
    rfl

/-- The placeholder is gone when the call returns. -/
theorem registerAccount_eq (h : Represents sha256 m db) {email : Text} (pwd : Hash) (now : Text)
    (skip : Nat) (hfits : varchar 50 email = .ok (storedEmail email)) :
    registerAccount sha256 db email pwd now skip =
      if (m (storedEmail email)).isSome then .error .uniqueViolation
      else .ok (db.idSeq + skip + 1, { db with
        userlist := db.userlist ++ [⟨db.idSeq + skip + 1, now, 1, storedEmail email,
          Encoder.encodeBase64 (getPwdHash sha256 (db.idSeq + skip + 1) pwd now).toList⟩]
        idSeq := db.idSeq + skip + 1 }) := by
  have hplace : ∃ placeholder, char 43 "UnRegistered-temporaryquote".toList = .ok placeholder :=
    ⟨_, rfl⟩
  obtain ⟨placeholder, hplace⟩ := hplace
  have hused : (db.userlist.any fun row => row.email = storedEmail email) =
      (m (storedEmail email)).isSome := by
    cases hm : m (storedEmail email) with
    | none =>
      refine List.any_eq_false.mpr ?_
      intro row hrow he
      obtain ⟨p, hp, -⟩ := h.rows row hrow
      rw [of_decide_eq_true he, hm] at hp
      cases hp
    | some a =>
      obtain ⟨row, hrow, he, -⟩ := h.accounts _ a.1 a.2 hm
      exact List.any_eq_true.mpr ⟨row, hrow, decide_eq_true he⟩
  rw [registerAccount, hfits, ok_bind, hplace, ok_bind]
  show (if (db.userlist.any fun row => row.email = storedEmail email) = true then _ else _) = _
  rw [hused]
  split
  · rfl
  · have hold : ∀ row ∈ db.userlist, row.id ≠ db.idSeq + skip + 1 := by
      intro row hrow hid
      have hle : (db.idSeq + skip + 1 : Nat) ≤ db.idSeq := hid ▸ (h.positive row hrow).2
      omega
    show (updatePwdHash _ _ _ >>= _) = _
    rw [updatePwdHash_eq, ok_bind]
    refine congrArg (fun l => Except.ok (db.idSeq + skip + 1,
      { db with userlist := l, idSeq := db.idSeq + skip + 1 })) ?_
    rw [List.map_append]
    refine congrArg₂ _ ?_ ?_
    · refine (List.map_congr_left fun row hrow => ?_).trans (List.map_id _)
      exact if_neg (hold row hrow)
    · simp

/-! ## A call -/

/-- A new account. -/
theorem append (h : Represents sha256 m db) {email now : Text} {id : AccountId} (pwd : Hash)
    (hid : db.idSeq < id) (hnew : m email = none) :
    Represents sha256 (Function.update m email (some (id, pwd))) { db with
      userlist := db.userlist ++ [⟨id, now, 1, email,
        Encoder.encodeBase64 (getPwdHash sha256 id pwd now).toList⟩]
      idSeq := id } := by
  have hids : ∀ row ∈ db.userlist, row.id ≠ id := fun row hrow heq =>
    absurd (heq ▸ (h.positive row hrow).2) (not_le.mpr hid)
  have hemails : ∀ row ∈ db.userlist, row.email ≠ email := by
    intro row hrow he
    obtain ⟨p, hp, -⟩ := h.rows row hrow
    rw [he, hnew] at hp
    cases hp
  refine ⟨?_, ?_, ?_, ?_, ?_⟩
  · simpa [List.nodup_append, h.ids] using hids
  · simpa [List.nodup_append, h.emails] using hemails
  · intro row hrow
    rcases List.mem_append.mp hrow with hrow | hrow
    · exact ⟨(h.positive row hrow).1, (h.positive row hrow).2.trans hid.le⟩
    · rw [List.mem_singleton.mp hrow]
      exact ⟨Nat.zero_lt_of_lt hid, le_refl id⟩
  · intro row hrow
    rcases List.mem_append.mp hrow with hrow | hrow
    · rw [Function.update_of_ne (hemails row hrow)]
      exact h.rows row hrow
    · rw [List.mem_singleton.mp hrow]
      exact ⟨pwd, Function.update_self _ _ _,
        storedHash_encode ⟨id, now, 1, email, []⟩ (getPwdHash sha256 id pwd now)⟩
  · intro email' id' pwd' hm
    by_cases he : email' = email
    · rw [he, Function.update_self] at hm
      cases hm
      exact ⟨_, List.mem_append_right _ List.mem_cons_self, he.symm, rfl⟩
    · rw [Function.update_of_ne he] at hm
      obtain ⟨row, hrow, hrest⟩ := h.accounts email' id' pwd' hm
      exact ⟨row, List.mem_append_left _ hrow, hrest⟩

/-- A password that is changed. -/
theorem change (h : Represents sha256 m db) (id : AccountId) (newPwd : Hash) :
    Represents sha256 (fun email => (m email).map fun a => if a.1 = id then (id, newPwd) else a)
      { db with userlist := db.userlist.map (rehash sha256 id newPwd) } := by
  refine ⟨?_, ?_, ?_, ?_, ?_⟩
  · rw [map_key (rehash_id sha256 id newPwd)]
    exact h.ids
  · rw [map_key (rehash_email sha256 id newPwd)]
    exact h.emails
  · intro row' hrow'
    obtain ⟨row, hrow, rfl⟩ := List.mem_map.mp hrow'
    rw [rehash_id]
    exact h.positive row hrow
  · intro row' hrow'
    obtain ⟨row, hrow, rfl⟩ := List.mem_map.mp hrow'
    obtain ⟨pwd, hm, hs⟩ := h.rows row hrow
    rw [rehash_id, rehash_email, rehash_registerTime, hm]
    by_cases hid : row.id = id
    · subst hid
      refine ⟨newPwd, congrArg some (if_pos rfl), ?_⟩
      rw [rehash, if_pos rfl]
      exact storedHash_encode row _
    · refine ⟨pwd, congrArg some (if_neg hid), ?_⟩
      rw [rehash, if_neg hid]
      exact hs
  · intro email id' pwd hm
    obtain ⟨⟨id₀, pwd₀⟩, hm₀, heq⟩ := Option.map_eq_some_iff.mp hm
    obtain ⟨row, hrow, he, hid⟩ := h.accounts email id₀ pwd₀ hm₀
    have hid' : id₀ = id' := by
      by_cases hc : id₀ = id
      · rw [if_pos hc] at heq
        exact hc.trans (congrArg Prod.fst heq)
      · rw [if_neg hc] at heq
        exact congrArg Prod.fst heq
    exact ⟨_, List.mem_map_of_mem hrow, (rehash_email ..).trans he,
      (rehash_id ..).trans (hid.trans hid')⟩

/-- The counts of achievements are in another table. -/
theorem upsert (h : Represents sha256 m db) {account : AccountId} {a : AchievementId}
    {value : Int} {update : Int → Int} (hup : MyPostgres.upsert db account a value update = .ok db') :
    Represents sha256 m db' := by
  have hf : db'.userlist = db.userlist ∧ db'.idSeq = db.idSeq := by
    unfold MyPostgres.upsert at hup
    split at hup
    · cases hup
      exact ⟨rfl, rfl⟩
    · split at hup
      · cases hup
        exact ⟨rfl, rfl⟩
      · cases hup
  exact h.congr (f := id) (fun _ => ⟨rfl, rfl, rfl, rfl⟩) (hf.1.trans (List.map_id _).symm) hf.2

include hinj in
/-- The rows follow what the calls set. -/
theorem step (h : Represents sha256 m db) (c : Call) :
    Represents sha256 (m.record c (db.reply sha256 c)) (db.after sha256 c) := by
  cases hp : db.perform sha256 c with
  | error e =>
    rw [Database.reply_of_error hp, Database.after_of_error hp, Accounts.record_error]
    exact h
  | ok pair =>
    obtain ⟨rep, db'⟩ := pair
    rw [Database.reply_of_ok hp, Database.after_of_ok hp]
    cases c with
    | registerAccount email pwd now skip =>
      obtain ⟨⟨id, db₁⟩, hcall, hpair⟩ := map_eq_ok.mp hp
      cases hpair
      obtain ⟨stored, hfits, -⟩ := bind_eq_ok.mp hcall
      obtain rfl := varchar_eq_ok hfits
      rw [h.registerAccount_eq pwd now skip hfits] at hcall
      split at hcall
      · cases hcall
      · next hnew =>
        cases hcall
        refine h.append pwd (Nat.lt_succ_of_le (Nat.le_add_right _ _)) ?_
        simpa using hnew
    | findAccount email pwd =>
      obtain ⟨found, -, hpair⟩ := map_eq_ok.mp hp
      cases hpair
      exact h
    | changePwd id oldPwd newPwd =>
      obtain ⟨⟨result, db₁⟩, hcall, hpair⟩ := map_eq_ok.mp hp
      cases hpair
      obtain ⟨hset, hnone⟩ := h.changePwd_eq hinj id oldPwd newPwd
      by_cases hm : ∃ email pwd, m email = some (id, pwd)
      · obtain ⟨email, pwd, hm⟩ := hm
        rw [hset email pwd hm] at hcall
        split at hcall
        · cases hcall
          exact h.change id newPwd
        · cases hcall
          exact h
      · rw [hnone fun email pwd he => hm ⟨email, pwd, he⟩] at hcall
        cases hcall
    | setNickName account a =>
      obtain ⟨⟨result, db₁⟩, hcall, hpair⟩ := map_eq_ok.mp hp
      cases hpair
      obtain ⟨_, _, -, ⟨-, hsame⟩ | ⟨-, hset⟩⟩ := setNickName_eq_ok hcall
      · cases hsame
        exact h
      · cases hset
        refine h.congr ?_ rfl rfl
        intro row
        split <;> exact ⟨rfl, rfl, rfl, rfl⟩
    | achieve account a =>
      obtain ⟨⟨result, db₁⟩, hcall, hpair⟩ := map_eq_ok.mp hp
      cases hpair
      obtain ⟨_, _, -, hsame | ⟨-, -, hup⟩⟩ := achieve_eq_ok hcall
      · cases hsame
        exact h
      · exact h.upsert hup
    | achieveProgress account a n =>
      obtain ⟨⟨result, db₁⟩, hcall, hpair⟩ := map_eq_ok.mp hp
      cases hpair
      obtain ⟨_, _, -, hsame | ⟨-, -, -, hup⟩⟩ := achieveProgress_eq_ok hcall
      · cases hsame
        exact h
      · exact h.upsert hup

end Represents

/-! ## The check of a hash's size -/

/-- The check has not thrown. -/
def Sized {α : Type} (x : Except Exn α) : Prop := ∀ text, x ≠ .error (.stackTrace text)

namespace Sized
variable {α β : Type}

theorem ok (a : α) : Sized (.ok a) := fun _ h => nomatch h

theorem map {x : Except Exn α} (h : Sized x) (f : α → β) : Sized (x.map f) := by
  cases x with
  | ok a => exact ok (f a)
  | error e =>
    intro text he
    cases he
    exact h text rfl

theorem bind {x : Except Exn α} {f : α → Except Exn β} (h : Sized x) (hf : ∀ a, Sized (f a)) :
    Sized (x >>= f) := by
  cases x with
  | ok a => exact hf a
  | error e =>
    intro text he
    cases he
    exact h text rfl

theorem varchar (n : Nat) (value : Text) : Sized (Postgres.varchar n value) := by
  unfold Postgres.varchar
  split
  · exact ok _
  · exact fun _ h => nomatch h

theorem getAchieve (db : Database) (account : AccountId) (a : AchievementId) :
    Sized (MyPostgres.getAchieve db account a) := by
  unfold MyPostgres.getAchieve
  split
  · exact fun _ h => nomatch h
  · exact ok _

theorem upsert (db : Database) (account : AccountId) (a : AchievementId) (value : Int)
    (update : Int → Int) : Sized (MyPostgres.upsert db account a value update) := by
  unfold MyPostgres.upsert
  split
  · exact ok _
  · split
    · exact ok _
    · exact fun _ h => nomatch h

end Sized

/-! ## Runs -/

/-- What the calls answer for the accounts. -/
structure Answers (sha256 : List Byte → Hash) (m : Accounts) (db : Database) : Prop where
  /-- an id is given to one e-mail -/
  ids : ∀ email id pwd, m email = some (id, pwd) → 0 < id ∧
    ∀ email' pwd', m email' = some (id, pwd') → email' = email
  found : ∀ email pwd id, 0 < id → (db.reply sha256 (.findAccount email pwd) = .ok (.account id) ↔
    m email = some (id, pwd))
  notFound : ∀ email pwd, (∀ id, m email ≠ some (id, pwd)) →
    db.reply sha256 (.findAccount email pwd) = .ok (.account 0) ∨
      ∃ e, db.reply sha256 (.findAccount email pwd) = .error e
  changed : ∀ id oldPwd newPwd, db.reply sha256 (.changePwd id oldPwd newPwd) = .ok (.done true) ↔
    ∃ email, m email = some (id, oldPwd)
  unchanged : ∀ id oldPwd newPwd,
    db.reply sha256 (.changePwd id oldPwd newPwd) ≠ .ok (.done true) →
      db.after sha256 (.changePwd id oldPwd newPwd) = db
  registered : ∀ email pwd now skip, (m (storedEmail email)).isSome →
    (∃ e, db.reply sha256 (.registerAccount email pwd now skip) = .error e) ∧
      db.after sha256 (.registerAccount email pwd now skip) = db
  sized : ∀ c, Sized (db.reply sha256 c)

namespace Represents
variable {sha256 : List Byte → Hash} {m : Accounts} {db db' : Database}
  (hinj : ∀ id time, Function.Injective fun pwd => getPwdHash sha256 id pwd time)

theorem run (hinj : ∀ id time, Function.Injective fun pwd => getPwdHash sha256 id pwd time)
    (h : Represents sha256 m db) (calls : List Call) :
    ∃ db', Lib.Transition.run (Database.step sha256) db calls = some db' ∧
      Represents sha256 (Accounts.set sha256 m db calls) db' := by
  induction calls generalizing m db with
  | nil => exact ⟨db, rfl, h⟩
  | cons c rest ih =>
    obtain ⟨db', hrun, hr⟩ := ih (h.step hinj c)
    exact ⟨db', hrun, hr⟩

include hinj in
theorem reply_find (h : Represents sha256 m db) (email : Text) (pwd : Hash) :
    db.reply sha256 (.findAccount email pwd) = match m email with
      | none => .error .unexpectedRows
      | some (id, p) => .ok (.account (if p = pwd then id else 0)) := by
  rw [Database.reply, Database.perform, h.findAccount_eq hinj]
  cases m email <;> rfl

include hinj in
/-- What `changePwd` answers, and the database where it does not answer true. -/
theorem change_cases (h : Represents sha256 m db) (id : AccountId) (oldPwd newPwd : Hash) :
    (db.reply sha256 (.changePwd id oldPwd newPwd) = .ok (.done true) ∧
      ∃ email, m email = some (id, oldPwd)) ∨
    ((db.reply sha256 (.changePwd id oldPwd newPwd) = .ok (.done false) ∨
      db.reply sha256 (.changePwd id oldPwd newPwd) = .error .unexpectedRows) ∧
      (¬ ∃ email, m email = some (id, oldPwd)) ∧
      db.after sha256 (.changePwd id oldPwd newPwd) = db) := by
  obtain ⟨hset, hnone⟩ := h.changePwd_eq hinj id oldPwd newPwd
  have hperform : db.perform sha256 (.changePwd id oldPwd newPwd) =
    (changePwd sha256 db id oldPwd newPwd).map (Prod.map .done fun db' => db') := rfl
  by_cases hm : ∃ email pwd, m email = some (id, pwd)
  · obtain ⟨email, pwd, hm⟩ := hm
    rw [hset email pwd hm] at hperform
    by_cases hp : pwd = oldPwd
    · rw [if_pos hp] at hperform
      exact .inl ⟨Database.reply_of_ok hperform, email, hp ▸ hm⟩
    · rw [if_neg hp] at hperform
      refine .inr ⟨.inl (Database.reply_of_ok hperform), ?_, Database.after_of_ok hperform⟩
      rintro ⟨email', hm'⟩
      have hs := hset email' oldPwd hm'
      rw [if_pos rfl, hset email pwd hm, if_neg hp] at hs
      cases hs
  · rw [hnone fun email pwd he => hm ⟨email, pwd, he⟩] at hperform
    refine .inr ⟨.inr (Database.reply_of_error hperform), ?_, Database.after_of_error hperform⟩
    rintro ⟨email, he⟩
    exact hm ⟨email, oldPwd, he⟩

/-- An e-mail that is there, or one that does not fit. -/
theorem register_existing (h : Represents sha256 m db) {email : Text} (pwd : Hash) (now : Text)
    (skip : Nat) (hm : (m (storedEmail email)).isSome) :
    ∃ e, db.perform sha256 (.registerAccount email pwd now skip) = .error e := by
  rw [Database.perform]
  cases hv : varchar 50 email with
  | error e => exact ⟨e, by rw [registerAccount, hv]; rfl⟩
  | ok stored =>
    obtain rfl := varchar_eq_ok hv
    exact ⟨.uniqueViolation, by rw [h.registerAccount_eq pwd now skip hv, if_pos hm]; rfl⟩

include hinj in
theorem sized (h : Represents sha256 m db) (c : Call) : Sized (db.reply sha256 c) := by
  cases c with
  | registerAccount email pwd now skip =>
    refine Sized.map ?_ _
    refine Sized.map ?_ _
    cases hv : varchar 50 email with
    | error e =>
      rw [registerAccount, hv]
      intro text he
      cases he
      exact Sized.varchar 50 email text hv
    | ok stored =>
      obtain rfl := varchar_eq_ok hv
      rw [h.registerAccount_eq pwd now skip hv]
      split
      · exact fun _ he => nomatch he
      · exact Sized.ok _
  | findAccount email pwd =>
    rw [h.reply_find hinj]
    split
    · exact fun _ he => nomatch he
    · exact Sized.ok _
  | changePwd id oldPwd newPwd =>
    rcases h.change_cases hinj id oldPwd newPwd with ⟨hr, -⟩ | ⟨hr | hr, -⟩
    · exact hr ▸ Sized.ok _
    · exact hr ▸ Sized.ok _
    · exact hr ▸ fun _ he => nomatch he
  | setNickName account a =>
    refine ((Sized.bind (Sized.getAchieve db account a) ?_).map _).map _
    intro found
    split
    split
    · exact Sized.ok _
    · exact Sized.ok _
  | achieve account a =>
    refine ((Sized.bind (Sized.getAchieve db account a) ?_).map _).map _
    intro found
    split
    split
    · exact Sized.bind (Sized.upsert _ _ _ _ _) fun _ => Sized.ok _
    · exact Sized.ok _
  | achieveProgress account a n =>
    refine ((Sized.bind (Sized.getAchieve db account a) ?_).map _).map _
    intro found
    split
    split
    · exact Sized.bind (Sized.upsert _ _ _ _ _) fun _ => Sized.ok _
    · exact Sized.ok _

include hinj in
theorem answers (h : Represents sha256 m db) : Answers sha256 m db where
  ids email id pwd hm := by
    obtain ⟨row, hrow, rfl, rfl⟩ := h.accounts email id pwd hm
    refine ⟨(h.positive row hrow).1, ?_⟩
    intro email' pwd' hm'
    obtain ⟨row', hrow', rfl, hid⟩ := h.accounts email' _ pwd' hm'
    rw [List.inj_on_of_nodup_map h.ids hrow' hrow hid]
  found email pwd id hpos := by
    rw [h.reply_find hinj]
    cases hm : m email with
    | none => simp
    | some a =>
      obtain ⟨id', p⟩ := a
      have hpos' : 0 < id' := by
        obtain ⟨row, hrow, -, rfl⟩ := h.accounts email id' p hm
        exact (h.positive row hrow).1
      by_cases hp : p = pwd
      · simp [hp]
      · simp [hp, hpos.ne]
  notFound email pwd hm := by
    rw [h.reply_find hinj]
    cases hm' : m email with
    | none => exact .inr ⟨_, rfl⟩
    | some a =>
      obtain ⟨id, p⟩ := a
      have hp : p ≠ pwd := fun hp => hm id (hp ▸ hm')
      exact .inl (by simp [hp])
  changed id oldPwd newPwd := by
    rcases h.change_cases hinj id oldPwd newPwd with ⟨hr, hm⟩ | ⟨hr | hr, hm, -⟩
    · exact iff_of_true hr hm
    · exact iff_of_false (by simp [hr]) hm
    · exact iff_of_false (by simp [hr]) hm
  unchanged id oldPwd newPwd hne := by
    rcases h.change_cases hinj id oldPwd newPwd with ⟨hr, -⟩ | ⟨-, -, ha⟩
    · exact absurd hr hne
    · exact ha
  registered email pwd now skip hm := by
    obtain ⟨e, he⟩ := h.register_existing pwd now skip hm
    exact ⟨⟨e, Database.reply_of_error he⟩, Database.after_of_error he⟩
  sized := h.sized hinj

end Represents

/-- **The password that was set last.** -/
theorem the_password_set_last_is_the_password {sha256 : List Byte → Hash}
    (hinj : ∀ id time, Function.Injective fun pwd => getPwdHash sha256 id pwd time)
    {db : Database} (hd : db.userlist = []) (calls : List Call) :
    ∃ db', run (Database.step sha256) db calls = some db' ∧
      Answers sha256 (Accounts.set sha256 (fun _ => none) db calls) db' := by
  have hstart : Represents sha256 (fun _ => none) db := by
    refine ⟨?_, ?_, ?_, ?_, ?_⟩
    · simp [hd]
    · simp [hd]
    · simp [hd]
    · simp [hd]
    · intro email id pwd hm
      cases hm
  obtain ⟨db', hrun, h⟩ := hstart.run hinj calls
  exact ⟨db', hrun, h.answers hinj⟩

theorem sampleSha256_injective (id : AccountId) (time : Text) :
    Function.Injective fun pwd => getPwdHash sampleSha256 id pwd time := by
  refine Function.Injective.iterate ?_ _
  have hstep : ∀ result : Hash, sampleSha256 (result.toList ++ bytesOf time) =
      if bytesOf time = bytesOf sampleTime then Equiv.swap samplePwd sampleDigest result
      else result := by
    intro result
    have hlen : result.toList.length = 32 := Vector.length_toList
    rw [sampleSha256, List.drop_left' hlen, List.take_left' hlen, toHash_toList]
  intro a b hab
  simp only [hstep] at hab
  split at hab
  · exact (Equiv.swap samplePwd sampleDigest).injective hab
  · exact hab

/-- Before any account, when 16 values of the sequence are gone. -/
def noAccounts : Database := ⟨fun _ => none, [], fun _ => none, 16⟩

def sampleEmail : Text := "player@drgb".toList

/-- Account 17 is found with its password. -/
theorem the_password_set_last_is_the_password_17 :
    Accounts.set sampleSha256 (fun _ => none) noAccounts
      [.registerAccount sampleEmail samplePwd sampleTime 0] sampleEmail = some (17, samplePwd) ∧
    ∃ db', run (Database.step sampleSha256) noAccounts
      [.registerAccount sampleEmail samplePwd sampleTime 0] = some db' ∧
      db'.reply sampleSha256 (.findAccount sampleEmail samplePwd) = .ok (.account 17) := by
  have hset : Accounts.set sampleSha256 (fun _ => none) noAccounts
      [.registerAccount sampleEmail samplePwd sampleTime 0] sampleEmail = some (17, samplePwd) := by
    decide +kernel
  have hempty : noAccounts.userlist = [] := rfl
  obtain ⟨db', hrun, ha⟩ := the_password_set_last_is_the_password sampleSha256_injective
    hempty [.registerAccount sampleEmail samplePwd sampleTime 0]
  exact ⟨hset, db', hrun, (ha.found sampleEmail samplePwd 17 (by decide)).mpr hset⟩

/-- Fifty places and a blank. -/
def longEmail : Text := List.replicate 50 'a' ++ [' ']

/-- The account of an e-mail that the column cuts is not found with the e-mail given. -/
theorem cut_email_not_found :
    (∀ id time, Function.Injective fun pwd => getPwdHash sampleSha256 id pwd time) ∧
    noAccounts.reply sampleSha256 (.registerAccount longEmail samplePwd sampleTime 0) =
      .ok (.account 17) ∧
    (noAccounts.after sampleSha256 (.registerAccount longEmail samplePwd sampleTime 0)).reply
      sampleSha256 (.findAccount longEmail samplePwd) = .error .unexpectedRows := by
  refine ⟨sampleSha256_injective, ?_, ?_⟩
  · decide +kernel
  · decide +kernel

end DrgbServer.Postgres
