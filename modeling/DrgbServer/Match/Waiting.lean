import DrgbServer.Match.MatchRound
import DrgbServer.Match.Queueing

/-! # How long two players can wait beside each other

Each `Process` adds one to the counters of those it leaves, so the coverage of a player with
games grows from round to round. Two players left have failed their test in every round, and
no two ratios are more than one apart. -/
namespace DrgbServer.Match
open DrgbServer.Utils DrgbServer.Lib QueueElement

namespace QueueElement
variable {e f : QueueElement} {counts : List Int}

theorem count_wait_self (hv : e.waitCount < counts.length) :
    e.count (wait counts e) = (e.count counts + 1).bmod (2 ^ 32) := by
  unfold count wait
  rw [List.getD_eq_getElem?_getD, List.getD_eq_getElem?_getD, List.getElem?_modify_eq,
    List.getElem?_eq_getElem hv]
  rfl

theorem count_wait_of_ne (h : f.waitCount ≠ e.waitCount) :
    e.count (wait counts f) = e.count counts := by
  unfold count wait
  rw [List.getD_eq_getElem?_getD, List.getD_eq_getElem?_getD, List.getElem?_modify]
  simp [h]

theorem count_foldl_wait_of_not_mem {es : List QueueElement}
    (h : e.waitCount ∉ es.map (·.waitCount)) : e.count (es.foldl wait counts) = e.count counts := by
  induction es generalizing counts with
  | nil => rfl
  | cons f rest ih =>
    rw [List.map_cons, List.mem_cons, not_or] at h
    rw [List.foldl_cons, ih h.2, count_wait_of_ne (Ne.symm h.1)]

/-- `Wait` on each of the elements, whose counters are their own. -/
theorem count_foldl_wait {es : List QueueElement} (hv : e.waitCount < counts.length)
    (hn : (es.map (·.waitCount)).Nodup) (he : e ∈ es) :
    e.count (es.foldl wait counts) = (e.count counts + 1).bmod (2 ^ 32) := by
  induction es generalizing counts with
  | nil => cases he
  | cons f rest ih =>
    rw [List.map_cons, List.nodup_cons] at hn
    rw [List.foldl_cons]
    rcases List.mem_cons.mp he with rfl | he
    · rw [count_foldl_wait_of_not_mem hn.1, count_wait_self hv]
    · have hne : f.waitCount ≠ e.waitCount := by
        intro heq
        exact hn.1 (heq ▸ List.mem_map_of_mem he)
      rw [ih (by rwa [length_wait]) hn.2 he, count_wait_of_ne hne]

end QueueElement

namespace MyMatchMaker
variable {ar : Arith} {mm : MyMatchMaker} {e x y : QueueElement}

/-! ## What a round does to the counters -/

/-- The counters when the round comes to its calls of `Wait`. -/
def tested (ar : Arith) (mm : MyMatchMaker) : List Int :=
  (pairUp ar mm.waitQueue mm.counts).2.2

theorem process_sublist (ar : Arith) (mm : MyMatchMaker) :
    (mm.process ar).waitQueue.Sublist mm.waitQueue := pairUp_sublist ar _ _

theorem tested_eq (ar : Arith) (mm : MyMatchMaker) :
    mm.tested ar = touchAll (met (mm.log ar)) mm.counts := pairUp_counts ar _ _

theorem length_tested (ar : Arith) (mm : MyMatchMaker) :
    (mm.tested ar).length = mm.counts.length := by rw [tested_eq, length_touchAll]

theorem met_log_subset (ar : Arith) (mm : MyMatchMaker) : met (mm.log ar) ⊆ mm.waitQueue :=
  met_subset fun _ ht => ⟨(tests_of ht).lhs, (tests_of ht).rhs⟩

theorem OwnCounters.process (h : mm.OwnCounters) (ar : Arith) : (mm.process ar).OwnCounters where
  valid e he := by
    show e.waitCount < ((mm.process ar).waitQueue.foldl wait (mm.tested ar)).length
    rw [length_foldl_wait, length_tested]
    exact h.valid e ((process_sublist ar mm).subset he)
  nodup := h.nodup.sublist ((process_sublist ar mm).map _)

/-- The tests set the counter of a player without games they meet, and no other one. -/
theorem OwnCounters.count_tested (h : mm.OwnCounters) (he : e ∈ mm.waitQueue) :
    e.count (mm.tested ar) =
      if e.games = 0 ∧ e ∈ met (mm.log ar) then 10 else e.count mm.counts := by
  rw [tested_eq, count_touchAll (h.valid e he)]
  intro f hf hw
  exact h.eq he (met_log_subset ar mm hf) hw

/-- Two players left have been compared. -/
theorem mem_met_of_left (hxy : [x, y].Sublist (mm.process ar).waitQueue) :
    x ∈ met (mm.log ar) ∧ y ∈ met (mm.log ar) := by
  obtain ⟨c, hmem, -⟩ := pairUp_failed hxy
  exact ⟨List.mem_flatMap.mpr ⟨_, hmem, by simp⟩, List.mem_flatMap.mpr ⟨_, hmem, by simp⟩⟩

/-- `Wait` adds one to the counter of a player who is left. -/
theorem OwnCounters.count_process (h : mm.OwnCounters) (he : e ∈ (mm.process ar).waitQueue) :
    e.count (mm.process ar).counts = (e.count (mm.tested ar) + 1).bmod (2 ^ 32) := by
  refine count_foldl_wait ?_ (h.process ar).nodup he
  rw [← tested, length_tested]
  exact h.valid e ((process_sublist ar mm).subset he)

/-- Two players left are further apart than the coverage of either. -/
theorem OwnCounters.apart (h : mm.OwnCounters) (hr : ∀ q, ar.rnd q = q)
    (hxy : [x, y].Sublist (mm.process ar).waitQueue) :
    mm.inForce x * ar.interpolate < |x.ratio ar - y.ratio ar| ∧
      mm.inForce y * ar.interpolate < |x.ratio ar - y.ratio ar| := by
  obtain ⟨c, hmem, hf⟩ := pairUp_failed hxy
  have hof := tests_of hmem
  have hx : x.count c = mm.inForce x := h.count_test hof (.inl rfl)
  have hy : y.count c = mm.inForce y := h.count_test hof (.inr rfl)
  have hlt := not_le.mp (of_decide_eq_false hf)
  rw [hr, max_lt_iff, coverage, coverage, hr, hr, ← count, ← count, hx, hy] at hlt
  exact hlt

/-! ## Players with sound statistics -/

/-- No statistic is negative and their sum is an `int`. -/
structure Regular (e : QueueElement) : Prop where
  win : 0 ≤ e.win
  draw : 0 ≤ e.draw
  loose : 0 ≤ e.loose
  sum : e.win + e.loose + e.draw < 2 ^ 31

theorem Regular.games (h : Regular e) : e.games = e.win + e.loose + e.draw := by
  have h1 := h.win
  have h2 := h.draw
  have h3 := h.loose
  have h4 := h.sum
  exact Int.bmod_eq_of_le (by omega) (by omega)

theorem Regular.ratio_mem (h : Regular e) (hr : ∀ q, ar.rnd q = q) :
    0 ≤ e.ratio ar ∧ e.ratio ar ≤ 1 := by
  have h1 := h.win
  have h2 := h.draw
  have h3 := h.loose
  rw [ratio, hr, h.games]
  split
  · have hw : e.win = 0 := by omega
    simp [hw]
  · have hpos : (0 : ℚ) < ((e.win + e.loose + e.draw : ℤ) : ℚ) := by
      exact_mod_cast (by omega : 0 < e.win + e.loose + e.draw)
    have hle : (e.win : ℚ) ≤ ((e.win + e.loose + e.draw : ℤ) : ℚ) := by
      exact_mod_cast (by omega : e.win ≤ e.win + e.loose + e.draw)
    exact ⟨div_nonneg (by exact_mod_cast h1) hpos.le, (div_le_one hpos).mpr hle⟩

theorem Regular.ratio_of_no_games (h : Regular e) (hr : ∀ q, ar.rnd q = q) (hg : e.games = 0) :
    e.ratio ar = 0 := by
  have h1 := h.win
  have h2 := h.draw
  have h3 := h.loose
  have hsum := h.games
  have hw : e.win = 0 := by omega
  rw [ratio, hr, hw, Int.cast_zero, zero_div]

/-! ## Rounds one after the other -/

/-- The matchmaker after `k` calls of `Process`. -/
def rounds (ar : Arith) (mm : MyMatchMaker) (k : Nat) : MyMatchMaker := (process ar)^[k] mm

theorem rounds_succ (ar : Arith) (mm : MyMatchMaker) (k : Nat) :
    mm.rounds ar (k + 1) = (mm.rounds ar k).process ar := Function.iterate_succ_apply' _ _ _

/-- As long as more than one player is left, no counter is incremented past the range of `int`. -/
def NoOverflow (ar : Arith) (mm : MyMatchMaker) (n : Nat) : Prop :=
  ∀ k < n, 2 ≤ (mm.rounds ar (k + 1)).waitQueue.length →
    ∀ e ∈ (mm.rounds ar (k + 1)).waitQueue, e.count ((mm.rounds ar k).tested ar) + 1 < 2 ^ 31

theorem rounds_sublist (ar : Arith) (mm : MyMatchMaker) {j k : Nat} (h : j ≤ k) :
    (mm.rounds ar k).waitQueue.Sublist (mm.rounds ar j).waitQueue := by
  induction k, h using Nat.le_induction with
  | base => exact List.Sublist.refl _
  | succ k _ ih =>
    rw [rounds_succ]
    exact (process_sublist ar _).trans ih

theorem OwnCounters.rounds (h : mm.OwnCounters) (ar : Arith) (k : Nat) :
    (mm.rounds ar k).OwnCounters := by
  induction k with
  | zero => exact h
  | succ k ih =>
    rw [rounds_succ]
    exact ih.process ar

theorem exists_pair {l : List QueueElement} (h : 2 ≤ l.length) : ∃ x y, [x, y].Sublist l := by
  match l, h with
  | x :: y :: rest, _ => exact ⟨x, y, ((List.nil_sublist rest).cons_cons y).cons_cons x⟩

/-- Every one of two or more has another one beside him. -/
theorem exists_company {l : List QueueElement} (h : 2 ≤ l.length) (he : e ∈ l) :
    ∃ f, [e, f].Sublist l ∨ [f, e].Sublist l := by
  obtain ⟨before, after, rfl⟩ := List.append_of_mem he
  cases after with
  | cons f after =>
    refine ⟨f, .inl ?_⟩
    exact (((List.nil_sublist after).cons_cons f).cons_cons e).trans
      (List.sublist_append_right before _)
  | nil =>
    cases before with
    | nil => simp at h
    | cons f before =>
      refine ⟨f, .inr ?_⟩
      exact ((List.sublist_append_right before [e])).cons_cons f

/-- After `k` rounds a player with games who is left has a count of at least `k + 1`. -/
theorem OwnCounters.le_count_rounds (h : mm.OwnCounters) {n : Nat} (hno : mm.NoOverflow ar n)
    (hlen : 2 ≤ (mm.rounds ar n).waitQueue.length) (he : e ∈ (mm.rounds ar n).waitQueue)
    (hg : e.games ≠ 0) (h1 : 1 ≤ e.count mm.counts) {k : Nat} (hk : k ≤ n) :
    (k : ℤ) + 1 ≤ e.count (mm.rounds ar k).counts := by
  induction k with
  | zero => simpa [MyMatchMaker.rounds] using h1
  | succ k ih =>
    have hsub := rounds_sublist ar mm hk
    have hleft : e ∈ (mm.rounds ar (k + 1)).waitQueue := hsub.subset he
    have hlast : e.count ((mm.rounds ar k).tested ar) = e.count (mm.rounds ar k).counts := by
      rw [(h.rounds ar k).count_tested ((rounds_sublist ar mm (Nat.le_succ k)).subset hleft),
        if_neg (fun hmet => hg hmet.1)]
    have hfit := hno k hk (hlen.trans hsub.length_le) e hleft
    have hround : e ∈ ((mm.rounds ar k).process ar).waitQueue := by rwa [← rounds_succ]
    have hcount := (h.rounds ar k).count_process hround
    have hk' := ih (Nat.le_of_succ_le hk)
    rw [hlast] at hfit
    rw [rounds_succ, hcount, hlast, Int.bmod_eq_of_le (by omega) (by omega)]
    push_cast
    omega

/-- The differences of the ratios of sound statistics are at most one. -/
theorem Regular.abs_sub_le (hx : Regular x) (hy : Regular y) (hr : ∀ q, ar.rnd q = q) :
    |x.ratio ar - y.ratio ar| ≤ 1 := by
  obtain ⟨hx0, hx1⟩ := hx.ratio_mem hr
  obtain ⟨hy0, hy1⟩ := hy.ratio_mem hr
  rw [abs_le]
  constructor <;> linarith

theorem one_le_ceil_mul {c : ℚ} (hc : 0 < c) : 1 ≤ (⌈1 / c⌉₊ : ℚ) * c := by
  have hle : 1 / c ≤ (⌈1 / c⌉₊ : ℚ) := Nat.le_ceil _
  calc 1 = 1 / c * c := (div_mul_cancel₀ 1 hc.ne').symm
    _ ≤ ⌈1 / c⌉₊ * c := mul_le_mul_of_nonneg_right hle hc.le

/-- **Bounded waiting**: with exact arithmetic, after ⌈1/c⌉ calls of `Process` no two players
of sound statistics and counts still wait. -/
theorem at_most_one_is_left (hr : ∀ q, ar.rnd q = q) (hc : 0 < ar.interpolate)
    (hown : mm.OwnCounters) (hq : ∀ e ∈ mm.waitQueue, Regular e ∧ 1 ≤ e.count mm.counts)
    (hno : mm.NoOverflow ar ⌈1 / ar.interpolate⌉₊) :
    (mm.rounds ar ⌈1 / ar.interpolate⌉₊).waitQueue.length ≤ 1 := by
  by_contra hlt
  have hlen : 2 ≤ (mm.rounds ar ⌈1 / ar.interpolate⌉₊).waitQueue.length := by omega
  have hone := one_le_ceil_mul hc
  generalize hn : ⌈1 / ar.interpolate⌉₊ = n at hlen hno hone
  obtain ⟨x, y, hxy⟩ := exists_pair hlen
  have hx : x ∈ (mm.rounds ar n).waitQueue := hxy.subset (by simp)
  have hy : y ∈ (mm.rounds ar n).waitQueue := hxy.subset (by simp)
  have hsub : (mm.rounds ar n).waitQueue ⊆ mm.waitQueue := (rounds_sublist ar mm n.zero_le).subset
  obtain ⟨hrx, hcx⟩ := hq x (hsub hx)
  obtain ⟨hry, hcy⟩ := hq y (hsub hy)
  obtain ⟨k, rfl⟩ : ∃ k, n = k + 1 := by
    refine Nat.exists_eq_succ_of_ne_zero ?_
    rintro rfl
    norm_num at hone
  rw [rounds_succ] at hxy
  obtain ⟨hfx, hfy⟩ := (hown.rounds ar k).apart hr hxy
  have hle := hrx.abs_sub_le hry hr
  -- a counter that has grown so far covers all ratios
  have hgrown : ∀ e, e ∈ (mm.rounds ar (k + 1)).waitQueue → 1 ≤ e.count mm.counts →
      e.games ≠ 0 → 1 ≤ (mm.rounds ar k).inForce e * ar.interpolate := by
    intro e he h1 hg
    have hk := hown.le_count_rounds hno hlen he hg h1 (Nat.le_succ k)
    rw [inForce, if_neg hg]
    refine hone.trans (mul_le_mul_of_nonneg_right ?_ hc.le)
    exact_mod_cast hk
  by_cases hgx : x.games = 0
  · by_cases hgy : y.games = 0
    · rw [hrx.ratio_of_no_games hr hgx, hry.ratio_of_no_games hr hgy, inForce, if_pos hgx] at hfx
      norm_num at hfx
      linarith
    · exact absurd (hgrown y hy hcy hgy) (by linarith)
  · exact absurd (hgrown x hx hcx hgx) (by linarith)

/-- No counter overflows as long as ⌈1/c⌉ is an `int`: a count whose increment would is
above 1/c, and no one stays beside another with such a coverage. -/
theorem noOverflow_of_lt (hr : ∀ q, ar.rnd q = q) (hc : 0 < ar.interpolate)
    (hown : mm.OwnCounters) (hq : ∀ e ∈ mm.waitQueue, Regular e)
    (hn : ⌈1 / ar.interpolate⌉₊ < 2 ^ 31) (n : Nat) : mm.NoOverflow ar n := by
  intro k _ hlen e he
  have hsub := rounds_sublist ar mm (Nat.zero_le (k + 1))
  have hown' := hown.rounds ar k
  have hek : e ∈ (mm.rounds ar k).waitQueue := (rounds_sublist ar mm (Nat.le_succ k)).subset he
  obtain ⟨f, hf⟩ := exists_company hlen he
  have hreg : Regular e ∧ Regular f := by
    rcases hf with hf | hf
    · exact ⟨hq e (hsub.subset (hf.subset (by simp))), hq f (hsub.subset (hf.subset (by simp)))⟩
    · exact ⟨hq e (hsub.subset (hf.subset (by simp))), hq f (hsub.subset (hf.subset (by simp)))⟩
  have hforce : (mm.rounds ar k).inForce e * ar.interpolate < 1 := by
    rw [rounds_succ] at hf
    rcases hf with hf | hf
    · exact (hown'.apart hr hf).1.trans_le (hreg.1.abs_sub_le hreg.2 hr)
    · exact (hown'.apart hr hf).2.trans_le (hreg.2.abs_sub_le hreg.1 hr)
  have hlt : (mm.rounds ar k).inForce e < (⌈1 / ar.interpolate⌉₊ : ℤ) := by
    have h := lt_of_mul_lt_mul_right (hforce.trans_le (one_le_ceil_mul hc)) hc.le
    exact_mod_cast h
  have hint : ((2 ^ 31 : ℕ) : ℤ) = 2 ^ 31 := by norm_num
  have hn' : (⌈1 / ar.interpolate⌉₊ : ℤ) < 2 ^ 31 := by
    rw [← hint]
    exact_mod_cast hn
  rw [hown'.count_tested hek]
  by_cases hg : e.games = 0
  · have hmet : e ∈ met ((mm.rounds ar k).log ar) := by
      rw [rounds_succ] at hf
      rcases hf with hf | hf
      · exact (mem_met_of_left hf).1
      · exact (mem_met_of_left hf).2
    rw [if_pos ⟨hg, hmet⟩]
    norm_num
  · rw [inForce, if_neg hg] at hlt
    rw [if_neg (fun h => hg h.1)]
    omega

/-- A new player and two who won one and four of five games wait. -/
def threeWaiting : MyMatchMaker :=
  ⟨[⟨2, 0, 0, 0, 0⟩, ⟨1, 1, 0, 4, 1⟩, ⟨3, 4, 0, 1, 2⟩], [], [1, 1, 1]⟩

theorem at_most_one_is_left_three :
    (threeWaiting.rounds Lobby.exact ⌈1 / Lobby.exact.interpolate⌉₊).waitQueue.length ≤ 1 := by
  have hown : threeWaiting.OwnCounters := ⟨by decide, by decide⟩
  have hq : ∀ e ∈ threeWaiting.waitQueue, Regular e ∧ 1 ≤ e.count threeWaiting.counts := by
    intro e he
    simp only [threeWaiting, List.mem_cons, List.not_mem_nil, or_false] at he
    rcases he with rfl | rfl | rfl <;> exact ⟨⟨by decide, by decide, by decide, by decide⟩, by decide⟩
  have hc : 0 < Lobby.exact.interpolate := by norm_num [Lobby.exact]
  have hn : ⌈1 / Lobby.exact.interpolate⌉₊ < 2 ^ 31 := by
    have h10 : (1 : ℚ) / Lobby.exact.interpolate = (10 : ℕ) := by norm_num [Lobby.exact]
    rw [h10, Nat.ceil_natCast]
    norm_num
  exact at_most_one_is_left (fun _ => rfl) hc hown hq
    (noOverflow_of_lt (fun _ => rfl) hc hown (fun e he => (hq e he).1) hn _)

end MyMatchMaker
end DrgbServer.Match
