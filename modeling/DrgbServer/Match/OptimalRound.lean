import DrgbServer.Lib.Pairing
import DrgbServer.Match.MatchRound
import DrgbServer.Match.Queueing

/-! # The number of matches of a round

Among players with games and one wait count no comparison sets a counter and one coverage
holds for all, so a round is first fit on the ratios, and `wait_queue` is in their order. -/
namespace DrgbServer.Match
open DrgbServer.Utils DrgbServer.Lib DrgbServer.Lib.Pairing QueueElement

namespace MyMatchMaker
variable {ar : Arith} {i : QueueElement} {l : List QueueElement} {counts : List Int} {w : Int}

/-- Players with games, all with the same wait count. -/
def Uniform (counts : List Int) (w : Int) (l : List QueueElement) : Prop :=
  ∀ e ∈ l, e.games ≠ 0 ∧ e.count counts = w

/-- The ratios are within the coverage of the wait count. -/
def near (ar : Arith) (w : Int) : QueueElement → QueueElement → Bool :=
  within (ratio ar) (w * ar.interpolate)

theorem touch_of_games {e : QueueElement} (h : e.games ≠ 0) : e.touch counts = counts :=
  if_neg h

theorem isMatchable_uniform (hr : ∀ q, ar.rnd q = q) {j : QueueElement}
    (hi : i.count counts = w) (hj : j.count counts = w) :
    i.isMatchable ar j counts = near ar w i j := by
  have hci : i.coverage ar counts = w * ar.interpolate := by rw [coverage, hr, ← hi, count]
  have hcj : j.coverage ar counts = w * ar.interpolate := by rw [coverage, hr, ← hj, count]
  rw [isMatchable, hci, hcj, max_self, hr, near, within]

/-- The inner loop finds the first element that is near. -/
theorem scan_uniform (hr : ∀ q, ar.rnd q = q) (hu : Uniform counts w (i :: l)) :
    (scan ar i l counts).2 = counts ∧
      (scan ar i l counts).1.map (fun p => p.2.1) = l.find? (near ar w i) ∧
      ∀ p, (scan ar i l counts).1 = some p → l.eraseP (near ar w i) = p.1 ++ p.2.2 := by
  induction l with
  | nil => exact ⟨rfl, rfl, fun p hp => nomatch hp⟩
  | cons j rest ih =>
    obtain ⟨hgi, hci⟩ := hu i List.mem_cons_self
    obtain ⟨hgj, hcj⟩ := hu j (by simp)
    have hrest : Uniform counts w (i :: rest) := by
      intro e he
      refine hu e ?_
      rcases List.mem_cons.mp he with rfl | he
      · exact List.mem_cons_self
      · simp [he]
    obtain ⟨ihc, ihf, ihe⟩ := ih hrest
    have htouch : j.touch (i.touch counts) = counts := by
      rw [touch_of_games hgi, touch_of_games hgj]
    have hm : i.isMatchable ar j (j.touch (i.touch counts)) = near ar w i j := by
      rw [htouch, isMatchable_uniform hr hci hcj]
    cases hn : near ar w i j with
    | true =>
      rw [(scan_cons_of_passed (hm.trans hn)).1, htouch, List.find?_cons_of_pos hn,
        List.eraseP_cons_of_pos hn]
      refine ⟨rfl, rfl, ?_⟩
      intro p hp
      cases hp
      rfl
    | false =>
      have hnot : ¬ near ar w i j = true := by rw [hn]; exact Bool.false_ne_true
      rw [(scan_cons_of_failed (hm.trans hn)).1, htouch, List.find?_cons_of_neg hnot,
        List.eraseP_cons_of_neg hnot]
      refine ⟨ihc, ?_, ?_⟩
      · rw [← ihf]
        cases (scan ar i rest counts).1 <;> rfl
      · intro p hp
        obtain ⟨q, hq, rfl⟩ := Option.map_eq_some_iff.mp hp
        rw [ihe q hq]
        rfl

theorem Uniform.sublist {l' : List QueueElement} (h : Uniform counts w l) (hs : l'.Sublist l) :
    Uniform counts w l' := fun e he => h e (hs.subset he)

/-- The pairs of a round are those of first fit. -/
theorem pairUp_uniform (hr : ∀ q, ar.rnd q = q) (hu : Uniform counts w l) :
    (pairUp ar l counts).1 = firstFit (near ar w) l := by
  induction l, counts using pairUp.induct ar with
  | case1 counts =>
    rw [pairUp, firstFit]
  | case2 counts i rest counts' h ih =>
    obtain ⟨hc, hf, -⟩ := scan_uniform hr hu
    rw [h] at hc hf
    cases hc
    rw [pairUp_of_none h, firstFit_of_none hf.symm]
    exact ih (hu.sublist (List.sublist_cons_self i rest))
  | case3 counts i rest before j after counts' h ih =>
    obtain ⟨hc, hf, he⟩ := scan_uniform hr hu
    rw [h] at hc hf he
    cases hc
    have herase : rest.eraseP (near ar w i) = before ++ after := he _ rfl
    rw [pairUp_of_some h, firstFit_of_some hf.symm, herase]
    refine congrArg _ (ih (hu.sublist ?_))
    rw [← herase]
    exact List.eraseP_sublist.cons i

/-- **A round makes as many matches as there can be**: with exact arithmetic, where all
who wait have games and one wait count, no set of disjoint pairs within the common coverage
is larger than the set of new matches. -/
theorem process_makes_the_most_matches (hr : ∀ q, ar.rnd q = q) (mm : MyMatchMaker)
    (hs : OrderedSet.Sorted (key ar) mm.waitQueue) (hu : Uniform mm.counts w mm.waitQueue) :
    ∃ new, (mm.process ar).matchQueue = mm.matchQueue ++ new ∧
      IsGreatest {n | ∃ M : List MatchPair, (players M).Subperm mm.waitQueue ∧
        (∀ m ∈ M, |m.1.ratio ar - m.2.ratio ar| ≤ w * ar.interpolate) ∧ M.length = n}
      new.length := by
  refine ⟨(pairUp ar mm.waitQueue mm.counts).1, rfl, ?_⟩
  have hpos : mm.waitQueue.Pairwise fun x y => x.ratio ar ≤ y.ratio ar := by
    refine List.Pairwise.imp ?_ hs
    intro x y hlt
    rcases Prod.Lex.toLex_lt_toLex.mp hlt with h | h
    · exact h.le
    · exact h.1.le
  have hpairing : ∀ M : List MatchPair,
      IsPairing (fun x y => near ar w x y = true) mm.waitQueue M ↔
        (players M).Subperm mm.waitQueue ∧
          ∀ m ∈ M, |m.1.ratio ar - m.2.ratio ar| ≤ w * ar.interpolate := by
    intro M
    constructor
    · rintro ⟨hd, hn⟩
      exact ⟨hd, fun m hm => within_iff.mp (hn m hm)⟩
    · rintro ⟨hd, hn⟩
      exact ⟨hd, fun m hm => within_iff.mpr (hn m hm)⟩
  have hbest : IsGreatest {n | ∃ M, IsPairing (fun x y => near ar w x y = true) mm.waitQueue M ∧
      M.length = n} (firstFit (near ar w) mm.waitQueue).length :=
    firstFit_isGreatest mm.waitQueue hpos
  rw [pairUp_uniform hr hu]
  simpa only [hpairing, and_assoc] using hbest

/-- Three who won one, two and four of five games; the first two are one coverage apart. -/
theorem process_makes_the_most_matches_three :
    ∃ new, (process ⟨id, 1 / 5⟩ ⟨[⟨3, 1, 0, 4, 0⟩, ⟨1, 2, 0, 3, 1⟩, ⟨2, 4, 0, 1, 2⟩], [],
        [1, 1, 1]⟩).matchQueue = [] ++ new ∧
      IsGreatest {n | ∃ M : List MatchPair, (players M).Subperm
          [⟨3, 1, 0, 4, 0⟩, ⟨1, 2, 0, 3, 1⟩, ⟨2, 4, 0, 1, 2⟩] ∧
        (∀ m ∈ M, |m.1.ratio ⟨id, 1 / 5⟩ - m.2.ratio ⟨id, 1 / 5⟩| ≤ (1 : ℤ) * (1 / 5)) ∧
        M.length = n} new.length := by
  refine process_makes_the_most_matches (fun _ => rfl) _ ?_ ?_
  · simp [OrderedSet.Sorted, key, Prod.Lex.toLex_lt_toLex, ratio, games]
    norm_num
  · unfold Uniform
    decide

end MyMatchMaker
end DrgbServer.Match
