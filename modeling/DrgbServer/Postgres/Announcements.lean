import DrgbServer.Postgres.Overlapping

/-! # Achievements on several connections

`MyBattle::AchieveProgress` counts most achievements with `Achieve` and announces one when
that returns true. Calls that overlap may each find the goal not reached yet; how many more
that makes is limited by the connections they have. -/
namespace DrgbServer.Postgres.Overlapping
open DrgbServer.Utils DrgbServer.Lib.Transition DrgbServer.Lib.ReadCommitted
open DrgbServer.Postgres.MyPostgres

/-- `Achieve` of this account and achievement. -/
def isAchieve (k : AccountId × AchievementId) : Access → Bool
  | .achieve id a => (id, a) = k
  | _ => false

/-- The transaction is going to count up. -/
def underWay (k : AccountId × AchievementId) : Phase Key.Row Access Reply Exn → Nat
  | .idle => 0
  | .decided c _ | .written c _ _ => if isAchieve k c then 1 else 0

/-- The transaction is going to return true. -/
def promising (k : AccountId × AchievementId) : Phase Key.Row Access Reply Exn → Nat
  | .idle => 0
  | .decided c w | .written c w _ => if isAchieve k c ∧ w.reply = .done true then 1 else 0

def countOf (s : State) (k : AccountId × AchievementId) : Int := (s.rows (.progress k)).getD 0

/-- The calls of `Achieve` that have returned true. -/
def announcements (s : State) (k : AccountId × AchievementId) : Nat :=
  s.log.countP fun entry => isAchieve k entry.1 ∧ entry.2 = .done true

/-- The label uses one of `n` connections, and the achievement is counted with `Achieve` only. -/
def Allowed (n : Nat) (k : AccountId × AchievementId) (l : Label Access) : Prop :=
  l.connection < n ∧ ∀ i m, l ≠ .select i (.achieveProgress k.1 k.2 m)

/-- The count passes the goal by fewer than the connections, and it is announced at most once
for each of them. -/
structure Bounded (n : Nat) (k : AccountId × AchievementId) (goal : Int) (s : State) : Prop where
  count : countOf s k ≤ goal + (n - 1 : Nat)
  announced : announcements s k ≤ n

/-- The invariant: what is under way is counted already. -/
structure Counted (sha256 : List Byte → Hash) (db : Database) (n : Nat)
    (k : AccountId × AchievementId) (goal : Int) (s : State) : Prop where
  guarded : System.Guarded (plan sha256 db) (Keeps db) s
  counting : ∀ i c w, s.phase i = .decided c w ∨ (∃ row, s.phase i = .written c w row) →
    (w.key = .progress k ↔ isAchieve k c = true)
  count : countOf s k + s.weigh n (underWay k) ≤ goal + (n - 1 : Nat)
  promised : ∀ i, promising k (s.phase i) = 1 → goal ≤ countOf s k + 1
  announced : announcements s k + s.weigh n (promising k) ≤ n
  silent : countOf s k < goal → announcements s k = 0

variable {sha256 : List Byte → Hash} {db : Database} {n : Nat}
  {k : AccountId × AchievementId} {goal : Int} {s t : State} {l : Label Access}

theorem underWay_le (p : Phase Key.Row Access Reply Exn) : underWay k p ≤ 1 := by
  cases p <;> simp only [underWay] <;> (try split) <;> omega

theorem promising_le (p : Phase Key.Row Access Reply Exn) : promising k p ≤ 1 := by
  cases p <;> simp only [promising] <;> (try split) <;> omega

theorem Counted.bounded (h : Counted sha256 db n k goal s) : Bounded n k goal s where
  count := by
    have := h.count
    omega
  announced := by
    have := h.announced
    omega

theorem isAchieve_iff {c : Access} : isAchieve k c = true ↔ c = .achieve k.1 k.2 := by
  cases c <;> simp [isAchieve, Prod.ext_iff]

/-- What `Achieve` has decided for an account there is. -/
theorem plan_achieve (hd : (db.userlist.map (·.id)).Nodup) {rows : Rows} (hk : Keeps db rows)
    (hid : k.1 ∈ db.userlist.map (·.id)) (hgoal : db.achievement k.2 = some goal)
    (d : Decision Key.Row Reply Exn) (h : plan sha256 db (.achieve k.1 k.2) rows = .ok d) :
    d = .reply (.done false) ∨ (rows (.progress k)).getD 0 < goal ∧ ∃ update,
      d = .write ⟨.progress k, update, .done (decide (goal - (rows (.progress k)).getD 0 = 1))⟩ := by
  obtain ⟨u, hu⟩ := Option.isSome_iff_exists.mp (hk.isSome.mpr hid)
  have hget := getAchieve_view hd hk k.1 k.2
  rw [hgoal, hu] at hget
  unfold plan select at h
  simp only [hget, bind, Except.bind, Option.bind_some] at h
  split at h
  · rename_i hlt
    cases h
    exact .inr ⟨hlt, _, rfl⟩
  · cases h
    exact .inl rfl

/-- Where `AchieveProgress` is not used, only `Achieve` writes the count. -/
theorem key_iff {rows : Rows} {c : Access} {w : Write Key.Row Reply Exn}
    (hplan : plan sha256 db c rows = .ok (.write w))
    (hc : ∀ m, c ≠ .achieveProgress k.1 k.2 m) : w.key = .progress k ↔ isAchieve k c = true := by
  rcases select_write hplan with ⟨_, _, _, _, rfl, -, -, rfl⟩ | ⟨_, _, _, _, rfl, -, -, rfl⟩ |
    ⟨_, _, _, _, rfl, -, -, rfl⟩ | ⟨id, a, m, _, _, rfl, -, -, rfl⟩
  · simp [isAchieve]
  · simp [isAchieve]
  · simp [isAchieve]
  · have hne : (id, a) ≠ k := by
      rintro rfl
      exact hc m rfl
    simp [isAchieve, hne]

/-- `Achieve` counts up by one. -/
theorem row_achieve {rows : Rows} {c : Access} {w : Write Key.Row Reply Exn} {rows' : Rows}
    {row : w.key.Row} (hplan : plan sha256 db c rows = .ok (.write w))
    (hc : isAchieve k c = true) (hrow : w.update (rows' w.key) = .ok row) :
    ((Function.update rows' w.key row : Rows) (.progress k)).getD 0 =
      (rows' (.progress k)).getD 0 + 1 := by
  rw [isAchieve_iff] at hc
  subst hc
  rcases select_write hplan with ⟨_, _, _, _, hc, -⟩ | ⟨_, _, _, _, hc, -⟩ |
    ⟨_, _, _, _, hc, -, -, rfl⟩ | ⟨_, _, _, _, _, hc, -⟩ <;> cases hc
  rw [Function.update_self]
  cases hcount : rows' (.progress k) with
  | some count =>
    rw [hcount] at hrow
    cases hrow
    rfl
  | none =>
    rw [hcount] at hrow
    simp only [upsertRow] at hrow
    split at hrow <;> cases hrow
    rfl

/-! ## Steps -/

/-- A transaction that has written nothing, or whose row is given back, ends. -/
theorem Counted.drop (h : Counted sha256 db n k goal s) {i : Nat} (hi : i < n)
    (hg : System.Guarded (plan sha256 db) (Keeps db) t) (hrows : t.rows = s.rows)
    (hphase : t.phase = (s.enter i .idle).phase) (hlog : t.log = s.log) :
    Counted sha256 db n k goal t := by
  have hcount : countOf t k = countOf s k := by rw [countOf, hrows, countOf]
  have hannounced : announcements t k = announcements s k := by
    rw [announcements, hlog, announcements]
  have hweigh : ∀ weight, weight (.idle : Phase Key.Row Access Reply Exn) = 0 →
      t.weigh n weight ≤ s.weigh n weight := by
    intro weight hidle
    have henter := s.weigh_enter hi weight .idle
    have heq : t.weigh n weight = (s.enter i .idle).weigh n weight := by
      rw [System.weigh, hphase, System.weigh]
    omega
  have hsame : ∀ j p, p ≠ .idle → t.phase j = p → s.phase j = p := by
    intro j p hp hj
    rw [hphase] at hj
    by_cases hne : j = i
    · rw [hne, System.enter_phase_self] at hj
      exact absurd hj.symm hp
    · rwa [System.enter_phase_of_ne s hne] at hj
  refine ⟨hg, fun j c w hj => h.counting j c w ?_, ?_, fun j hj => ?_, ?_, ?_⟩
  · rcases hj with hj | ⟨row, hj⟩
    · exact .inl (hsame j _ (by rintro ⟨⟩) hj)
    · exact .inr ⟨row, hsame j _ (by rintro ⟨⟩) hj⟩
  · have hless := hweigh (underWay k) rfl
    have := h.count
    omega
  · rw [hcount]
    have hbusy : t.phase j ≠ .idle := by
      intro hidle
      rw [hidle] at hj
      cases hj
    refine h.promised j ?_
    rwa [hsame j (t.phase j) hbusy rfl]
  · have hless := hweigh (promising k) rfl
    have := h.announced
    omega
  · rw [hcount, hannounced]
    exact h.silent

/-- A transaction goes on from its read, or from its write, with the same call. -/
theorem Counted.go (h : Counted sha256 db n k goal s) {i : Nat} (hi : i < n)
    {p : Phase Key.Row Access Reply Exn} (hg : System.Guarded (plan sha256 db) (Keeps db) t)
    (hrows : t.rows = s.rows) (hphase : t.phase = (s.enter i p).phase) (hlog : t.log = s.log)
    (hcounting : ∀ c w, p = .decided c w ∨ (∃ row, p = .written c w row) →
      (w.key = .progress k ↔ isAchieve k c = true))
    (hunder : underWay k (s.phase i) < underWay k p → countOf s k < goal)
    (hpromising : promising k (s.phase i) < promising k p →
      countOf s k < goal ∧ goal ≤ countOf s k + 1) : Counted sha256 db n k goal t := by
  have hcount : countOf t k = countOf s k := by rw [countOf, hrows, countOf]
  have hannounced : announcements t k = announcements s k := by
    rw [announcements, hlog, announcements]
  have hweigh : ∀ weight, t.weigh n weight + weight (s.phase i) = s.weigh n weight + weight p := by
    intro weight
    rw [← s.weigh_enter hi weight p, System.weigh, hphase, System.weigh]
  refine ⟨hg, fun j c w hj => ?_, ?_, fun j hj => ?_, ?_, ?_⟩
  · rw [hphase] at hj
    by_cases hne : j = i
    · rw [hne, System.enter_phase_self] at hj
      exact hcounting c w hj
    · rw [System.enter_phase_of_ne s hne] at hj
      exact h.counting j c w hj
  · have hsum := hweigh (underWay k)
    have hle := t.weigh_le n (underWay_le (k := k))
    have hbefore := h.count
    by_cases hmore : underWay k (s.phase i) < underWay k p
    · have hless := hunder hmore
      omega
    · omega
  · rw [hcount]
    rw [hphase] at hj
    by_cases hne : j = i
    · rw [hne, System.enter_phase_self] at hj
      rcases Nat.lt_or_ge (promising k (s.phase i)) (promising k p) with hmore | hkeeps
      · exact (hpromising hmore).2
      · refine h.promised i (Nat.le_antisymm (promising_le _) ?_)
        omega
    · rw [System.enter_phase_of_ne s hne] at hj
      exact h.promised j hj
  · rw [hannounced]
    have hsum := hweigh (promising k)
    have hle := t.weigh_le n (promising_le (k := k))
    have hbefore := h.announced
    by_cases hmore : promising k (s.phase i) < promising k p
    · have hnone := h.silent (hpromising hmore).1
      omega
    · omega
  · rw [hcount, hannounced]
    exact h.silent

/-- A commit: the count goes up for `Achieve`, and stays for every other call. -/
theorem Counted.commit (h : Counted sha256 db n k goal s) {i : Nat} (hi : i < n) {c : Access}
    {w : Write Key.Row Reply Exn} {row : w.key.Row} (hphase : s.phase i = .written c w row)
    (ht : t = { s.release i w.key with
      rows := Function.update s.rows w.key row, log := s.log ++ [(c, w.reply)] })
    (hg : System.Guarded (plan sha256 db) (Keeps db) t) : Counted sha256 db n k goal t := by
  obtain ⟨-, hrow, rows₀, -, hplan⟩ := h.guarded.written i c w row hphase
  have hkey := h.counting i c w (.inr ⟨row, hphase⟩)
  have hcount : countOf t k = countOf s k + if isAchieve k c = true then 1 else 0 := by
    subst ht
    unfold countOf
    split_ifs with hc
    · exact row_achieve hplan hc hrow
    · rw [add_zero]
      have hne : Key.progress k ≠ w.key := fun heq => hc (hkey.mp heq.symm)
      exact congrArg (fun row => Option.getD row 0) (Function.update_of_ne hne _ _)
  have hannounced : announcements t k = announcements s k + promising k (s.phase i) := by
    subst ht
    simp only [announcements, List.countP_append, List.countP_singleton, hphase, promising,
      decide_eq_true_eq]
  have hweigh : ∀ weight, weight (.idle : Phase Key.Row Access Reply Exn) = 0 →
      t.weigh n weight + weight (s.phase i) = s.weigh n weight := by
    intro weight hidle
    have henter := s.weigh_enter hi weight .idle
    subst ht
    rw [hidle] at henter
    exact henter
  have hunder : underWay k (s.phase i) = if isAchieve k c = true then 1 else 0 := by
    rw [hphase, underWay]
  have hpromise : promising k (s.phase i) = 1 → isAchieve k c = true := by
    rw [hphase, promising]
    split_ifs with hc
    · exact fun _ => hc.1
    · exact nofun
  have hsame : ∀ j p, p ≠ .idle → t.phase j = p → s.phase j = p := by
    subst ht
    intro j p hp hj
    change (s.enter i .idle).phase j = p at hj
    by_cases hne : j = i
    · rw [hne, System.enter_phase_self] at hj
      exact absurd hj.symm hp
    · rwa [System.enter_phase_of_ne s hne] at hj
  have hgrows : countOf s k ≤ countOf t k := by
    rw [hcount]
    split <;> omega
  refine ⟨hg, fun j c w hj => h.counting j c w ?_, ?_, fun j hj => ?_, ?_, fun hless => ?_⟩
  · rcases hj with hj | ⟨row, hj⟩
    · exact .inl (hsame j _ nofun hj)
    · exact .inr ⟨row, hsame j _ nofun hj⟩
  · have hsum := hweigh (underWay k) rfl
    have hbefore := h.count
    rw [hunder] at hsum
    rw [hcount]
    split_ifs at hsum ⊢ <;> omega
  · have hbusy : t.phase j ≠ .idle := by
      intro hidle
      rw [hidle] at hj
      cases hj
    have hpromised := h.promised j (by rwa [hsame j (t.phase j) hbusy rfl])
    omega
  · have hsum := hweigh (promising k) rfl
    have hbefore := h.announced
    omega
  · -- a call that returns true has reached the goal
    have hnone := h.silent (by omega)
    have hquiet : promising k (s.phase i) ≠ 1 := by
      intro hone
      have hpromised := h.promised i hone
      rw [hcount, if_pos (hpromise hone)] at hless
      omega
    have hle := promising_le (k := k) (s.phase i)
    omega

theorem Counted.step (hd : (db.userlist.map (·.id)).Nodup) (hid : k.1 ∈ db.userlist.map (·.id))
    (hgoal : db.achievement k.2 = some goal) (h : Counted sha256 db n k goal s)
    (hl : Allowed n k l) (hr : System.step (plan sha256 db) s l = some t) :
    Counted sha256 db n k goal t := by
  have hg : System.Guarded (plan sha256 db) (Keeps db) t := h.guarded.step
    (fun c rows rows' w row _ hk hplan hw => keeps_step c rows rows' w row hk hplan hw) hr
  cases System.moves_of_step hr with
  | failed => exact h
  | @replied i c a hplan =>
    -- a reply without a write is never true
    have hquiet : ¬ (isAchieve k c = true ∧ a = .done true) := by
      rintro ⟨hc, rfl⟩
      rw [isAchieve_iff] at hc
      subst hc
      rcases plan_achieve hd h.guarded.rows hid hgoal _ hplan with heq | ⟨-, _, heq⟩ <;> cases heq
    have hannounced : announcements { s with log := s.log ++ [(c, a)] } k = announcements s k := by
      simp only [announcements, List.countP_append, List.countP_singleton, decide_eq_true_eq]
      rw [if_neg hquiet, add_zero]
    refine ⟨hg, h.counting, h.count, h.promised, ?_, ?_⟩
    · rw [hannounced]
      exact h.announced
    · rw [hannounced]
      exact h.silent
  | @decided i c w hphase hplan =>
    have hc : ∀ m, c ≠ .achieveProgress k.1 k.2 m := by
      rintro m rfl
      exact hl.2 i m rfl
    have hdecided : isAchieve k c = true → countOf s k < goal ∧
        w.reply = .done (decide (goal - countOf s k = 1)) := by
      intro hachieve
      rw [isAchieve_iff] at hachieve
      subst hachieve
      rcases plan_achieve hd h.guarded.rows hid hgoal _ hplan with heq | ⟨hlt, _, heq⟩ <;>
        cases heq
      exact ⟨hlt, rfl⟩
    refine h.go (i := i) hl.1 hg rfl rfl rfl (fun c' w' hp => ?_) (fun hmore => ?_) fun hmore => ?_
    · rcases hp with hp | ⟨row, hp⟩ <;> cases hp
      exact key_iff hplan hc
    · rw [hphase] at hmore
      simp only [underWay] at hmore
      split at hmore
      · rename_i hachieve
        exact (hdecided hachieve).1
      · omega
    · rw [hphase] at hmore
      simp only [promising] at hmore
      split at hmore
      · rename_i hachieve
        obtain ⟨hlt, hreply⟩ := hdecided hachieve.1
        have hone : goal - countOf s k = 1 := by simpa [hreply] using hachieve.2
        exact ⟨hlt, by omega⟩
      · omega
  | @written i c w row hphase hlock hrow =>
    refine h.go (i := i) hl.1 hg rfl rfl rfl (fun c' w' hp => ?_) (fun hmore => ?_) fun hmore => ?_
    · rcases hp with hp | ⟨row, hp⟩ <;> cases hp
      exact h.counting i c w (.inl hphase)
    · rw [hphase] at hmore
      exact absurd hmore (lt_irrefl _)
    · rw [hphase] at hmore
      exact absurd hmore (lt_irrefl _)
  | dropped hphase => exact h.drop hl.1 hg rfl rfl rfl
  | released hphase => exact h.drop hl.1 hg rfl rfl rfl
  | committed hphase => exact h.commit hl.1 hphase rfl hg

theorem counted_start (hk : (db.userAchievement k).getD 0 ≤ goal) :
    Counted sha256 db n k goal (System.start (rowsOf db)) := by
  have hweigh : ∀ weight, weight (.idle : Phase Key.Row Access Reply Exn) = 0 →
      (System.start (rowsOf db) : State).weigh n weight = 0 :=
    fun weight hidle => Finset.sum_eq_zero fun _ _ => hidle
  refine ⟨System.guarded_start (keeps_rowsOf db), ?_, ?_, nofun, ?_, fun _ => rfl⟩
  · rintro i c w (hp | ⟨row, hp⟩) <;> cases hp
  · rw [hweigh _ rfl]
    have hcount : countOf (System.start (rowsOf db) : State) k = (db.userAchievement k).getD 0 := rfl
    omega
  · rw [hweigh _ rfl]
    exact Nat.zero_le n

/-- **Calls that overlap on `n` connections** pass the goal of an achievement by fewer than `n`,
and announce it at most `n` times. -/
theorem always_bounded (hd : (db.userlist.map (·.id)).Nodup)
    (hid : k.1 ∈ db.userlist.map (·.id)) (hgoal : db.achievement k.2 = some goal)
    (hk : (db.userAchievement k).getD 0 ≤ goal) {ls : List (Label Access)}
    (hl : ∀ l ∈ ls, Allowed n k l) :
    Always (System.step (plan sha256 db)) (Bounded n k goal) (System.start (rowsOf db)) ls :=
  always_of_meets (fun _ h => h.bounded) (fun _ _ _ h hl hr => h.step hd hid hgoal hl hr)
    (counted_start hk) (meets_of_forall hl _)

/-- One call, and then three that all find the count at 1. -/
def crowded : List (Label Access) :=
  let select i := Label.select i (Access.achieve 17 4)
  [select 0, .write 0, .commit 0, select 0, select 1, select 2, .write 0, .commit 0, .write 1,
    .commit 1, .write 2, .commit 2]

theorem allowed_crowded : ∀ l ∈ crowded, Allowed 3 (17, 4) l := by
  intro l hl
  refine ⟨?_, ?_⟩
  · revert l
    simp [crowded, Label.connection]
  · rintro i m rfl
    simp [crowded] at hl

theorem always_bounded_crowded :
    Always (System.step (plan sampleSha256 sample)) (Bounded 3 (17, 4) 2)
      (System.start (rowsOf sample)) crowded ∧
    ∃ s : State, run (System.step (plan sampleSha256 sample)) (System.start (rowsOf sample))
      crowded = some s ∧ countOf s (17, 4) = 2 + (3 - 1) ∧ announcements s (17, 4) = 3 :=
  ⟨always_bounded (by decide) (by decide) rfl (by decide) allowed_crowded,
    exists_run_of_any (by decide +kernel)⟩

end DrgbServer.Postgres.Overlapping
