import DrgbServer.Lib.History
import DrgbServer.Postgres.MyPostgres

/-! # Achievements are reached once

`Achieve` counts up and `AchieveProgress` raises to a maximum; both stop at the requirement.
A call that changes a count raises it, and it returns true exactly if it raises it to the
requirement, so there is one such call at most, and a nickname that was reached stays
reached. -/
namespace DrgbServer.Postgres
open DrgbServer.Utils DrgbServer.Lib.Transition DrgbServer.Lib.History MyPostgres

namespace Database
variable {sha256 : List Byte → Hash} {db db' : Database} {c : Call} {rep : Reply}
  {k : AccountId × AchievementId}

/-- The count of an account for an achievement. -/
def count (db : Database) (k : AccountId × AchievementId) : Int := (db.userAchievement k).getD 0

/-- The account has reached the requirement of the achievement. -/
def Reached (db : Database) (k : AccountId × AchievementId) : Prop :=
  ∃ r, db.achievement k.2 = some r ∧ r ≤ db.count k

def raise (db : Database) (k : AccountId × AchievementId) (n : Int) : Database :=
  { db with userAchievement := Function.update db.userAchievement k (some n) }

/-- The account and achievement a call makes progress for. -/
def progressOf : Call → Option (AccountId × AchievementId)
  | .achieve id achieve => some (id, achieve)
  | .achieveProgress id achieve _ => some (id, achieve)
  | _ => none

theorem raise_userAchievement (db : Database) (k : AccountId × AchievementId) (n : Int) :
    (db.raise k n).userAchievement = Function.update db.userAchievement k (some n) := rfl

@[simp] theorem count_raise_self (db : Database) (k : AccountId × AchievementId) (n : Int) :
    (db.raise k n).count k = n := by simp [count, raise]

theorem count_raise_of_ne {k' : AccountId × AchievementId} (h : k' ≠ k) (n : Int) :
    (db.raise k n).count k' = db.count k' := by simp [count, raise, h]

/-- What the tables hold between calls. -/
structure Inv (db : Database) : Prop where
  /-- the default nickname requires nothing -/
  newbie : db.achievement 1 = some 0
  references : ∀ k n, db.userAchievement k = some n → ∃ row ∈ db.userlist, row.id = k.1
  bound : ∀ k n, db.userAchievement k = some n →
    0 ≤ n ∧ ∃ r, db.achievement k.2 = some r ∧ n ≤ r
  nickname : ∀ row ∈ db.userlist, db.Reached (row.id, row.nickname)
  required : ∀ a r, db.achievement a = some r → 0 ≤ r

/-! ## What a call does -/

/-- `GetAchieve` reads the count and the requirement. -/
theorem getAchieve_eq_ok (hi : Inv db) {account : AccountId} {a : AchievementId} {n r : Int} :
    getAchieve db account a = .ok (n, r) ↔
      db.achievement a = some r ∧ n = db.count (account, a) := by
  unfold getAchieve
  cases ha : db.achievement a with
  | none => simp
  | some require =>
    have hread : (((db.userlist.find? fun row => row.id = account).map (·.id)).bind
        fun id => db.userAchievement (id, a)).getD 0 = db.count (account, a) := by
      cases hf : db.userlist.find? fun row => row.id = account with
      | some row =>
        have hid : row.id = account := by simpa using List.find?_some hf
        rw [← hid]
        rfl
      | none =>
        rw [count]
        cases hc : db.userAchievement (account, a) with
        | none => rfl
        | some n =>
          obtain ⟨row, hrow, hid⟩ := hi.references _ _ hc
          exact absurd hid (by simpa using List.find?_eq_none.mp hf row hrow)
    simp only [hread, Except.ok.injEq, Prod.mk.injEq, Option.some.injEq]
    constructor
    · intro h
      obtain ⟨rfl, rfl⟩ := h
      exact ⟨rfl, rfl⟩
    · intro h
      obtain ⟨rfl, rfl⟩ := h
      exact ⟨rfl, rfl⟩

/-- The row is there or made, for an account there is. -/
theorem upsert_eq_ok (hi : Inv db) {account : AccountId} {a : AchievementId} {value : Int}
    {update : Int → Int} (hv : value = update 0) (h : upsert db account a value update = .ok db') :
    db' = db.raise (account, a) (update (db.count (account, a))) ∧
      ∃ row ∈ db.userlist, row.id = account := by
  unfold upsert at h
  rw [count]
  cases hc : db.userAchievement (account, a) with
  | some n =>
    rw [hc] at h
    cases h
    exact ⟨rfl, hi.references _ _ hc⟩
  | none =>
    rw [hc] at h
    simp only at h
    split at h
    · next hrefs =>
      cases h
      rw [hv]
      exact ⟨rfl, by simpa using hrefs.1⟩
    · cases h

/-- A call raises one count, and says whether it has raised it to the requirement. -/
structure Raises (db db' : Database) (k : AccountId × AchievementId) (rep : Reply) : Prop where
  account : ∃ row ∈ db.userlist, row.id = k.1
  raised : ∃ n r, db' = db.raise k n ∧ db.achievement k.2 = some r ∧ db.count k < n ∧ n ≤ r ∧
    rep = .done (decide (n = r))

/-- A call for progress that throws nothing. -/
theorem progress_cases (hi : Inv db) (hk : progressOf c = some k)
    (h : db.perform sha256 c = .ok (rep, db')) :
    (db' = db ∧ rep = .done false) ∨ Raises db db' k rep := by
  cases c with
  | achieve account a =>
    cases hk
    obtain ⟨⟨result, db₁⟩, hcall, hpair⟩ := map_eq_ok.mp h
    cases hpair
    obtain ⟨n, r, hget, hcase⟩ := achieve_eq_ok hcall
    obtain ⟨hr, rfl⟩ := (getAchieve_eq_ok hi).mp hget
    rcases hcase with hsame | ⟨hlt, hresult, hup⟩
    · cases hsame
      exact .inl ⟨rfl, rfl⟩
    · obtain ⟨hraise, hacc⟩ := upsert_eq_ok hi (by norm_num) hup
      have hiff : r - db.count (account, a) = 1 ↔ db.count (account, a) + 1 = r := by omega
      simp only [hiff] at hresult
      exact .inr ⟨hacc, _, r, hraise, hr, by omega, by omega, congrArg Reply.done hresult⟩
  | achieveProgress account a n =>
    cases hk
    obtain ⟨⟨result, db₁⟩, hcall, hpair⟩ := map_eq_ok.mp h
    cases hpair
    obtain ⟨m, r, hget, hcase⟩ := achieveProgress_eq_ok hcall
    obtain ⟨hr, rfl⟩ := (getAchieve_eq_ok hi).mp hget
    rcases hcase with hsame | ⟨hlt, hmore, hresult, hup⟩
    · cases hsame
      exact .inl ⟨rfl, rfl⟩
    · obtain ⟨hraise, hacc⟩ := upsert_eq_ok hi rfl hup
      have hiff : r ≤ min r n ↔ min r n = r := by omega
      simp only [hiff] at hresult
      exact .inr ⟨hacc, _, r, hraise, hr, by omega, by omega, congrArg Reply.done hresult⟩
  | registerAccount email pwd now skip => cases hk
  | findAccount email pwd => cases hk
  | changePwd account oldPwd newPwd => cases hk
  | setNickName account a => cases hk

/-- A call leaves the counts alone, keeps the accounts there are, and gives out only
nicknames that are reached. -/
structure Leaves (db db' : Database) : Prop where
  achievement : db'.achievement = db.achievement
  counts : db'.userAchievement = db.userAchievement
  accounts : ∀ row ∈ db.userlist, ∃ row' ∈ db'.userlist, row'.id = row.id
  nickname : ∀ row' ∈ db'.userlist, (∃ row ∈ db.userlist, row.id = row'.id ∧
    row.nickname = row'.nickname) ∨ row'.nickname = 1 ∨ db.Reached (row'.id, row'.nickname)

theorem Leaves.refl (db : Database) : Leaves db db :=
  ⟨rfl, rfl, fun row h => ⟨row, h, rfl⟩, fun row h => .inl ⟨row, h, rfl, rfl⟩⟩

/-- Rows replaced by rows of the same accounts. -/
theorem Leaves.map {f : User → User} (hid : ∀ row, (f row).id = row.id)
    (hnick : ∀ row ∈ db.userlist, (f row).nickname = row.nickname ∨
      db.Reached (row.id, (f row).nickname)) :
    Leaves db { db with userlist := db.userlist.map f } where
  achievement := rfl
  counts := rfl
  accounts row h := ⟨f row, List.mem_map_of_mem h, hid row⟩
  nickname row' h := by
    obtain ⟨row, hrow, rfl⟩ := List.mem_map.mp h
    rcases hnick row hrow with hn | hr
    · exact .inl ⟨row, hrow, (hid row).symm, hn.symm⟩
    · rw [hid]
      exact .inr (.inr hr)

theorem updatePwdHash_eq_ok {account : AccountId} {hash : Hash}
    (h : updatePwdHash db account hash = .ok db') : ∃ stored,
      db' = { db with userlist := db.userlist.map fun row =>
        if row.id = account then { row with pwdHash := stored } else row } := by
  obtain ⟨stored, -, hrest⟩ := bind_eq_ok.mp h
  cases hrest
  exact ⟨stored, rfl⟩

theorem Leaves.updatePwdHash {account : AccountId} {hash : Hash}
    (h : MyPostgres.updatePwdHash db account hash = .ok db') : Leaves db db' := by
  obtain ⟨stored, rfl⟩ := updatePwdHash_eq_ok h
  refine Leaves.map ?_ ?_
  · intro row
    split <;> rfl
  · intro row _
    split
    · exact .inl rfl
    · exact .inl rfl

theorem Leaves.trans {db₁ db₂ : Database} (h : Leaves db db₁) (h' : Leaves db₁ db₂) :
    Leaves db db₂ where
  achievement := h'.achievement.trans h.achievement
  counts := h'.counts.trans h.counts
  accounts row hrow := by
    obtain ⟨row₁, hrow₁, hid₁⟩ := h.accounts row hrow
    obtain ⟨row₂, hrow₂, hid₂⟩ := h'.accounts row₁ hrow₁
    exact ⟨row₂, hrow₂, hid₂.trans hid₁⟩
  nickname row hrow := by
    rcases h'.nickname row hrow with ⟨row₁, hrow₁, hid, hnick⟩ | hone | ⟨r, hr, hle⟩
    · rw [← hid, ← hnick]
      exact h.nickname row₁ hrow₁
    · exact .inr (.inl hone)
    · refine .inr (.inr ⟨r, ?_, ?_⟩)
      · rwa [h.achievement] at hr
      · rwa [count, h.counts] at hle

/-- A row with the default nickname is added. -/
theorem Leaves.append {row : User} (hn : row.nickname = 1) (idSeq : Nat) :
    Leaves db { db with userlist := db.userlist ++ [row], idSeq := idSeq } where
  achievement := rfl
  counts := rfl
  accounts row' h := ⟨row', List.mem_append_left _ h, rfl⟩
  nickname row' h := by
    rcases List.mem_append.mp h with h | h
    · exact .inl ⟨row', h, rfl, rfl⟩
    · rw [List.mem_singleton.mp h]
      exact .inr (.inl hn)

/-- Every other call. -/
theorem other_leaves (hi : Inv db) (hk : progressOf c = none)
    (h : db.perform sha256 c = .ok (rep, db')) : Leaves db db' := by
  cases c with
  | achieve account a => cases hk
  | achieveProgress account a n => cases hk
  | registerAccount email pwd now skip =>
    obtain ⟨⟨account, db₁⟩, hcall, hpair⟩ := map_eq_ok.mp h
    cases hpair
    obtain ⟨email', -, hrest⟩ := bind_eq_ok.mp hcall
    obtain ⟨placeholder, -, hrest⟩ := bind_eq_ok.mp hrest
    split at hrest
    · cases hrest
    · obtain ⟨db₂, hup, hdone⟩ := bind_eq_ok.mp hrest
      cases hdone
      exact (Leaves.append rfl _).trans (Leaves.updatePwdHash hup)
  | findAccount email pwd =>
    obtain ⟨found, -, hpair⟩ := map_eq_ok.mp h
    cases hpair
    exact Leaves.refl db
  | changePwd account oldPwd newPwd =>
    obtain ⟨⟨result, db₁⟩, hcall, hpair⟩ := map_eq_ok.mp h
    cases hpair
    obtain ⟨row, -, hrest⟩ := bind_eq_ok.mp hcall
    obtain ⟨answer, -, hrest⟩ := bind_eq_ok.mp hrest
    split at hrest
    · cases hrest
      exact Leaves.refl db
    · obtain ⟨db₂, hup, hdone⟩ := bind_eq_ok.mp hrest
      cases hdone
      exact Leaves.updatePwdHash hup
  | setNickName account a =>
    obtain ⟨⟨result, db₁⟩, hcall, hpair⟩ := map_eq_ok.mp h
    cases hpair
    obtain ⟨n, r, hget, hcase⟩ := setNickName_eq_ok hcall
    obtain ⟨hr, rfl⟩ := (getAchieve_eq_ok hi).mp hget
    rcases hcase with ⟨-, hsame⟩ | ⟨hge, hset⟩
    · cases hsame
      exact Leaves.refl db
    · cases hset
      refine Leaves.map ?_ ?_
      · intro row
        split <;> rfl
      · intro row _
        split
        · next hid =>
          rw [hid]
          exact .inr ⟨r, hr, hge⟩
        · exact .inl rfl

/-! ## The invariant -/

theorem Inv.leaves (hi : Inv db) (h : Leaves db db') : Inv db' where
  newbie := h.achievement ▸ hi.newbie
  references k n hk := by
    rw [h.counts] at hk
    obtain ⟨row, hrow, hid⟩ := hi.references k n hk
    obtain ⟨row', hrow', hid'⟩ := h.accounts row hrow
    exact ⟨row', hrow', hid'.trans hid⟩
  bound := by
    rw [h.counts, h.achievement]
    exact hi.bound
  nickname row' hrow' := by
    rw [Reached, h.achievement, count, h.counts]
    rcases h.nickname row' hrow' with ⟨row, hrow, hid, hnick⟩ | hone | hreached
    · rw [← hid, ← hnick]
      exact hi.nickname row hrow
    · rw [hone]
      refine ⟨0, hi.newbie, ?_⟩
      cases hc : db.userAchievement (row'.id, 1) with
      | none => exact le_refl 0
      | some n => exact (hi.bound _ _ hc).1
    · exact hreached
  required := h.achievement ▸ hi.required

theorem Inv.count_nonneg (hi : Inv db) (k : AccountId × AchievementId) : 0 ≤ db.count k := by
  unfold count
  cases hc : db.userAchievement k with
  | none => exact le_refl 0
  | some n => exact (hi.bound _ _ hc).1

theorem Inv.raises (hi : Inv db) (h : Raises db db' k rep) : Inv db' := by
  obtain ⟨n, r, rfl, hr, hlt, hle, -⟩ := h.raised
  refine ⟨hi.newbie, ?_, ?_, ?_, hi.required⟩
  · intro k' m hk'
    by_cases hkk : k' = k
    · rw [hkk]
      exact h.account
    · rw [raise_userAchievement, Function.update_of_ne hkk] at hk'
      exact hi.references k' m hk'
  · intro k' m hk'
    by_cases hkk : k' = k
    · rw [hkk, raise_userAchievement, Function.update_self] at hk'
      cases hk'
      rw [hkk]
      exact ⟨(hi.count_nonneg k).trans hlt.le, r, hr, hle⟩
    · rw [raise_userAchievement, Function.update_of_ne hkk] at hk'
      exact hi.bound k' m hk'
  · intro row hrow
    obtain ⟨r', hr', hle'⟩ := hi.nickname row hrow
    refine ⟨r', hr', ?_⟩
    by_cases hkk : (row.id, row.nickname) = k
    · rw [hkk, count_raise_self]
      rw [hkk] at hle'
      omega
    · rwa [count_raise_of_ne hkk]

/-- A count that is stored is at least as large afterwards. -/
def Grows (db db' : Database) : Prop :=
  ∀ k n, db.userAchievement k = some n → ∃ n', db'.userAchievement k = some n' ∧ n ≤ n'

theorem Leaves.grows (h : Leaves db db') : Grows db db' := by
  intro k n hk
  exact ⟨n, by rwa [h.counts], le_refl n⟩

theorem Raises.grows (h : Raises db db' k rep) : Grows db db' := by
  obtain ⟨n, r, rfl, -, hlt, -, -⟩ := h.raised
  intro k' m hk'
  by_cases hkk : k' = k
  · subst hkk
    refine ⟨n, Function.update_self _ _ _, ?_⟩
    rw [count, hk'] at hlt
    exact hlt.le
  · exact ⟨m, (Function.update_of_ne hkk _ _).trans hk', le_refl m⟩

/-- The call returns true and is for progress of `k`. -/
def Completes (sha256 : List Byte → Hash) (db : Database) (c : Call)
    (k : AccountId × AchievementId) : Prop :=
  progressOf c = some k ∧ db.reply sha256 c = .ok (.done true)

/-- **A call.** It keeps the invariant and the table of achievements, lets no count fall, and
returns true for progress exactly where it raises a count to its requirement. -/
structure CallSpec (sha256 : List Byte → Hash) (db : Database) (c : Call) : Prop where
  inv : Inv (db.after sha256 c)
  achievement : (db.after sha256 c).achievement = db.achievement
  grows : Grows db (db.after sha256 c)
  completes : ∀ k, Completes sha256 db c k ↔ ∃ r, db.achievement k.2 = some r ∧
    db.count k < r ∧ (db.after sha256 c).count k = r

theorem callSpec_of_unchanged (hi : Inv db) (ha : db.after sha256 c = db)
    (hn : ∀ k, ¬ Completes sha256 db c k) : CallSpec sha256 db c where
  inv := by rwa [ha]
  achievement := by rw [ha]
  grows := by
    rw [ha]
    exact (Leaves.refl db).grows
  completes k := by
    rw [ha]
    refine iff_of_false (hn k) ?_
    intro h
    obtain ⟨r, -, hlt, heq⟩ := h
    omega

theorem callSpec (hi : Inv db) (c : Call) : CallSpec sha256 db c := by
  cases hp : db.perform sha256 c with
  | error e =>
    refine callSpec_of_unchanged hi (after_of_error hp) ?_
    rintro k ⟨-, hr⟩
    rw [reply_of_error hp] at hr
    cases hr
  | ok pair =>
    obtain ⟨rep, db'⟩ := pair
    have hafter := after_of_ok hp
    have hreply := reply_of_ok hp
    cases hk : progressOf c with
    | none =>
      have hl := other_leaves hi hk hp
      refine ⟨hafter ▸ hi.leaves hl, hafter ▸ hl.achievement, hafter ▸ hl.grows, ?_⟩
      intro k
      refine iff_of_false ?_ ?_
      · intro h
        obtain ⟨hk', -⟩ := h
        rw [hk] at hk'
        cases hk'
      · intro h
        obtain ⟨r, -, hlt, heq⟩ := h
        rw [hafter, count, hl.counts, ← count] at heq
        omega
    | some k =>
      rcases progress_cases hi hk hp with ⟨rfl, rfl⟩ | hraises
      · refine callSpec_of_unchanged hi hafter ?_
        rintro k' ⟨-, hr⟩
        rw [hreply] at hr
        cases hr
      · refine ⟨hafter ▸ hi.raises hraises, ?_, hafter ▸ hraises.grows, ?_⟩
        · obtain ⟨n, r, rfl, -⟩ := hraises.raised
          rw [hafter]
          rfl
        · intro k'
          obtain ⟨n, r, rfl, hr, hlt, hle, hrep⟩ := hraises.raised
          rw [hafter, Completes, hk, hreply, hrep]
          constructor
          · intro h
            obtain ⟨hkk, hdone⟩ := h
            cases hkk
            have hnr : n = r := by simpa using hdone
            exact ⟨r, hr, by omega, by rw [count_raise_self, hnr]⟩
          · intro h
            obtain ⟨r', hr', hlt', heq⟩ := h
            by_cases hkk : k' = k
            · subst hkk
              rw [hr] at hr'
              cases hr'
              rw [count_raise_self] at heq
              exact ⟨rfl, by simp [heq]⟩
            · rw [count_raise_of_ne hkk] at heq
              omega

/-! ## Runs -/

/-- One entry for each call that returns true for progress of `k`. -/
def completions (sha256 : List Byte → Hash) (k : AccountId × AchievementId) (db : Database)
    (c : Call) : List Call :=
  match progressOf c, db.reply sha256 c with
  | some k', .ok (.done true) => if k' = k then [c] else []
  | _, _ => []

theorem completions_cases (sha256 : List Byte → Hash) (k : AccountId × AchievementId)
    (db : Database) (c : Call) :
    (Completes sha256 db c k ∧ completions sha256 k db c = [c]) ∨
      (¬ Completes sha256 db c k ∧ completions sha256 k db c = []) := by
  unfold completions Completes
  split
  · next k' hk hr =>
    rw [hk, hr]
    by_cases hkk : k' = k
    · rw [hkk, if_pos rfl]
      exact .inl ⟨⟨rfl, rfl⟩, rfl⟩
    · rw [if_neg hkk]
      exact .inr ⟨fun h => hkk (Option.some.inj h.1), rfl⟩
  · next hne =>
    refine .inr ⟨?_, rfl⟩
    intro hgiven
    obtain ⟨hk, hr⟩ := hgiven
    exact hne k hk hr

theorem Grows.count_le (hi' : Inv db') (h : Grows db db') : db.count k ≤ db'.count k := by
  rw [count, count]
  cases hc : db.userAchievement k with
  | none => exact hi'.count_nonneg k
  | some n =>
    obtain ⟨n', hn', hle⟩ := h k n hc
    rw [hn']
    exact hle

/-- Once the requirement is reached no call completes; before, one call can. -/
theorem length_completions (calls : List Call) (hi : Inv db) {r : Int}
    (hr : db.achievement k.2 = some r) :
    (collect (step sha256) (completions sha256 k) db calls).length ≤
      if db.count k < r then 1 else 0 := by
  induction calls generalizing db with
  | nil => exact Nat.zero_le _
  | cons c rest ih =>
    have hspec : CallSpec sha256 db c := callSpec hi c
    rw [collect_cons rfl, List.length_append]
    have hrest := ih hspec.inv (hspec.achievement ▸ hr)
    rcases completions_cases sha256 k db c with ⟨hc, heq⟩ | ⟨-, heq⟩
    · obtain ⟨r', hr', hlt, hreached⟩ := (hspec.completes k).mp hc
      rw [hr] at hr'
      cases hr'
      rw [hreached, if_neg (lt_irrefl r)] at hrest
      rw [heq, if_pos hlt]
      simpa using hrest
    · have hle : db.count k ≤ (db.after sha256 c).count k := hspec.grows.count_le hspec.inv
      rw [heq, List.length_nil, Nat.zero_add]
      refine hrest.trans ?_
      split_ifs
      · exact le_refl 1
      · omega
      · exact Nat.zero_le 1
      · exact le_refl 0

/-- An achievement that is not in the table is never completed. -/
theorem no_completions (calls : List Call) (hi : Inv db) (hn : db.achievement k.2 = none) :
    collect (step sha256) (completions sha256 k) db calls = [] := by
  induction calls generalizing db with
  | nil => rfl
  | cons c rest ih =>
    have hspec : CallSpec sha256 db c := callSpec hi c
    rw [collect_cons rfl]
    have hrest := ih hspec.inv (hspec.achievement ▸ hn)
    rcases completions_cases sha256 k db c with ⟨hc, -⟩ | ⟨-, heq⟩
    · obtain ⟨r, hr, -⟩ := (hspec.completes k).mp hc
      rw [hn] at hr
      cases hr
    · rw [heq, List.nil_append]
      exact hrest

theorem step_inv (db : Database) (c : Call) (h : Inv db) :
    ∃ db', step sha256 db c = some db' ∧ Inv db' := ⟨_, rfl, (callSpec h c).inv⟩

theorem run_achievement (calls : List Call) (hi : Inv db)
    (hrun : run (step sha256) db calls = some db') : db'.achievement = db.achievement := by
  induction calls generalizing db with
  | nil =>
    cases hrun
    rfl
  | cons c rest ih =>
    rw [run_cons_of_some rfl] at hrun
    exact (ih (callSpec hi c).inv hrun).trans (callSpec hi c).achievement

/-- The tables before any progress: no requirement is negative, the default nickname requires
nothing, and everybody has it. -/
structure Initial (db : Database) : Prop where
  required : ∀ a r, db.achievement a = some r → 0 ≤ r
  newbie : db.achievement 1 = some 0
  nickname : ∀ row ∈ db.userlist, row.nickname = 1
  empty : ∀ k, db.userAchievement k = none

theorem Initial.inv (h : Initial db) : Inv db where
  newbie := h.newbie
  references k n hk := by
    rw [h.empty] at hk
    cases hk
  bound k n hk := by
    rw [h.empty] at hk
    cases hk
  nickname row hrow := by
    rw [h.nickname row hrow]
    refine ⟨0, h.newbie, ?_⟩
    rw [count, h.empty]
    exact le_refl 0
  required := h.required

/-- **Progress is monotone, capped, and completed once.** After any calls: no count exceeds
its requirement, every nickname is reached, and for an account and an achievement one call at
most has returned true. The next call lets no count fall, and it returns true for progress
exactly where it raises a count from below the requirement to it. -/
theorem achievements_are_completed_once (hd : Initial db) (calls : List Call) :
    ∃ db', run (step sha256) db calls = some db' ∧ db'.achievement = db.achievement ∧
      (∀ k n, db'.userAchievement k = some n → ∃ r, db.achievement k.2 = some r ∧ n ≤ r) ∧
      (∀ row ∈ db'.userlist, ∃ r, db.achievement row.nickname = some r ∧
        r ≤ db'.count (row.id, row.nickname)) ∧
      (∀ k, (collect (step sha256) (completions sha256 k) db calls).length ≤ 1) ∧
      (∀ c, Grows db' (db'.after sha256 c) ∧
        ∀ k, Completes sha256 db' c k ↔ ∃ r, db.achievement k.2 = some r ∧
          db'.count k < r ∧ (db'.after sha256 c).count k = r) := by
  obtain ⟨db', hrun, hi⟩ := run_total step_inv calls hd.inv
  have ha := run_achievement calls hd.inv hrun
  refine ⟨db', hrun, ha, ?_, ?_, ?_, ?_⟩
  · intro k n hk
    rw [← ha]
    exact (hi.bound k n hk).2
  · intro row hrow
    rw [← ha]
    exact hi.nickname row hrow
  · intro k
    cases hr : db.achievement k.2 with
    | none =>
      rw [no_completions calls hd.inv hr]
      exact Nat.zero_le 1
    | some r =>
      refine (length_completions calls hd.inv hr).trans ?_
      split
      · exact le_refl 1
      · exact Nat.zero_le 1
  · intro c
    rw [← ha]
    exact ⟨(callSpec hi c).grows, (callSpec hi c).completes⟩

/-- The tables of `initdb.sql`, and 16 values of the sequence gone. -/
def initdb : Database where
  achievement a := if a = 0 then none else [0, 1, 3, 2, 2, 5, 1, 5, 10, 15, 30, 1, 1, 1][a - 1]?
  userlist := []
  userAchievement _ := none
  idSeq := 16

/-- An account uses the nickname of the achievement 4 when `achieve` has made progress twice. -/
def firstCalls : List Call :=
  [.registerAccount "player@drgb".toList samplePwd sampleTime 0, .achieve 17 4,
    .setNickName 17 4, .achieve 17 4, .setNickName 17 4, .achieveProgress 17 4 7]

theorem initdb_initial : Initial initdb where
  required a r ha := by
    unfold initdb at ha
    simp only at ha
    split at ha
    · cases ha
    · have hmem := List.mem_of_getElem? ha
      clear ha
      revert r
      decide
  newbie := rfl
  nickname row h := nomatch h
  empty _ := rfl

theorem achievements_are_completed_once_initdb :
    collect (step sampleSha256) (completions sampleSha256 (17, 4)) initdb firstCalls =
      [.achieve 17 4] ∧
    ∃ db', run (step sampleSha256) initdb firstCalls = some db' ∧
      (∀ row ∈ db'.userlist, ∃ r, initdb.achievement row.nickname = some r ∧
        r ≤ db'.count (row.id, row.nickname)) ∧
      (collect (step sampleSha256) (completions sampleSha256 (17, 4)) initdb firstCalls).length ≤
        1 := by
  obtain ⟨db', hrun, -, -, hnick, honce, -⟩ :=
    achievements_are_completed_once initdb_initial firstCalls
  exact ⟨rfl, db', hrun, hnick, honce (17, 4)⟩

end Database
end DrgbServer.Postgres
