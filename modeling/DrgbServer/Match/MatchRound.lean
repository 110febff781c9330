import DrgbServer.Match.MyMatchMaker

/-! # A round of matchmaking

`Process` compares two elements at a time and a comparison may set a counter, so which
coverage decides depends on what was compared before. `tests` is the log of a round: the
two elements of each comparison with the counters `isMatchable` reads. The pairs made
passed their test, and any two elements left were tested against each other and failed. -/
namespace DrgbServer.Match
open DrgbServer.Utils DrgbServer.Lib

namespace QueueElement

/-- The counter of the element. -/
def count (e : QueueElement) (counts : List Int) : Int := counts.getD e.waitCount 0

/-- The counters after the calls of `ratio` on the elements, in order. -/
def touchAll (es : List QueueElement) (counts : List Int) : List Int :=
  es.foldl (fun counts e => e.touch counts) counts

theorem touchAll_append (es fs : List QueueElement) (counts : List Int) :
    touchAll (es ++ fs) counts = touchAll fs (touchAll es counts) := List.foldl_append

variable {e f : QueueElement} {counts : List Int}

@[simp] theorem length_touch (e : QueueElement) (counts : List Int) :
    (e.touch counts).length = counts.length := by
  unfold touch
  split
  · exact List.length_set
  · rfl

@[simp] theorem length_touchAll (es : List QueueElement) (counts : List Int) :
    (touchAll es counts).length = counts.length := by
  induction es generalizing counts with
  | nil => rfl
  | cons f rest ih => exact (ih (f.touch counts)).trans (length_touch f counts)

theorem count_touch_self (hv : e.waitCount < counts.length) :
    e.count (e.touch counts) = if e.games = 0 then 10 else e.count counts := by
  unfold count touch
  split
  · rw [List.getD_eq_getElem?_getD, List.getElem?_set_self hv]
    rfl
  · rfl

theorem count_touch_of_ne (h : f.waitCount ≠ e.waitCount) :
    e.count (f.touch counts) = e.count counts := by
  unfold count touch
  split
  · rw [List.getD_eq_getElem?_getD, List.getD_eq_getElem?_getD, List.getElem?_set_ne h]
  · rfl

/-- **What comparisons do to a counter of its own**: that of a player without games is 10
once the player has been compared, every other one is as it was. -/
theorem count_touchAll {es : List QueueElement} (hv : e.waitCount < counts.length)
    (hown : ∀ f ∈ es, f.waitCount = e.waitCount → f = e) :
    e.count (touchAll es counts) = if e.games = 0 ∧ e ∈ es then 10 else e.count counts := by
  induction es generalizing counts with
  | nil => simp [touchAll]
  | cons f rest ih =>
    have hrest : ∀ f ∈ rest, f.waitCount = e.waitCount → f = e :=
      fun f hf => hown f (List.mem_cons_of_mem _ hf)
    rw [touchAll, List.foldl_cons, ← touchAll, ih (by rwa [length_touch]) hrest]
    by_cases hfe : f = e
    · subst hfe
      rw [count_touch_self hv]
      by_cases hg : f.games = 0
      · simp [hg]
      · simp [hg]
    · rw [count_touch_of_ne (fun h => hfe (hown f List.mem_cons_self h))]
      simp [Ne.symm hfe]

end QueueElement

namespace MyMatchMaker
open QueueElement

/-- A call of `isMatchable`, with the counters after its calls of `ratio`. -/
structure Test where
  lhs : QueueElement
  rhs : QueueElement
  counts : List Int

/-- The tests of the inner loop. -/
def scanTests (ar : Arith) (i : QueueElement) : List QueueElement → List Int → List Test
  | [], _ => []
  | j :: rest, counts =>
    let counts := j.touch (i.touch counts)
    ⟨i, j, counts⟩ :: if i.isMatchable ar j counts then [] else scanTests ar i rest counts

/-- The tests of the outer loop. -/
def tests (ar : Arith) (l : List QueueElement) (counts : List Int) : List Test :=
  match l with
  | [] => []
  | i :: rest => scanTests ar i rest counts ++
    match _h : scan ar i rest counts with
    | (none, counts) => tests ar rest counts
    | (some (before, _, after), counts) => tests ar (before ++ after) counts
termination_by l.length
decreasing_by
  · exact Nat.lt_succ_self _
  · rw [scan_eq_some _h]
    simp only [List.length_cons, List.length_append]
    omega

theorem tests_of_none {ar : Arith} {i : QueueElement} {rest : List QueueElement}
    {counts counts' : List Int} (h : scan ar i rest counts = (none, counts')) :
    tests ar (i :: rest) counts = scanTests ar i rest counts ++ tests ar rest counts' := by
  rw [tests]
  split <;> rename_i hs <;> rw [h] at hs <;> cases hs
  rfl

theorem tests_of_some {ar : Arith} {i j : QueueElement} {rest before after : List QueueElement}
    {counts counts' : List Int}
    (h : scan ar i rest counts = (some (before, j, after), counts')) :
    tests ar (i :: rest) counts =
      scanTests ar i rest counts ++ tests ar (before ++ after) counts' := by
  rw [tests]
  split <;> rename_i hs <;> rw [h] at hs <;> cases hs
  rfl

/-! ## The inner loop -/

variable {ar : Arith} {i j : QueueElement} {l before after : List QueueElement}
  {counts counts' : List Int}

/-- The first element that passes ends the loop. -/
theorem scan_cons_of_passed (h : i.isMatchable ar j (j.touch (i.touch counts)) = true) :
    scan ar i (j :: l) counts = (some ([], j, l), j.touch (i.touch counts)) ∧
      scanTests ar i (j :: l) counts = [⟨i, j, j.touch (i.touch counts)⟩] := by
  simp [scan, scanTests, h]

theorem scan_cons_of_failed (h : i.isMatchable ar j (j.touch (i.touch counts)) = false) :
    scan ar i (j :: l) counts =
        ((scan ar i l (j.touch (i.touch counts))).1.map fun p => (j :: p.1, p.2),
          (scan ar i l (j.touch (i.touch counts))).2) ∧
      scanTests ar i (j :: l) counts = ⟨i, j, j.touch (i.touch counts)⟩ ::
        scanTests ar i l (j.touch (i.touch counts)) := by
  refine ⟨?_, ?_⟩
  · rw [scan, h]
    split
    · contradiction
    · split <;> rename_i hs <;> rw [hs] <;> rfl
  · simp [scanTests, h]

/-- A loop that finds none goes past its first element. -/
theorem scan_cons_eq_none (h : scan ar i (j :: l) counts = (none, counts')) :
    i.isMatchable ar j (j.touch (i.touch counts)) = false ∧
      scan ar i l (j.touch (i.touch counts)) = (none, counts') := by
  cases hp : i.isMatchable ar j (j.touch (i.touch counts)) with
  | true =>
    rw [(scan_cons_of_passed (l := l) hp).1] at h
    cases h
  | false =>
    rw [(scan_cons_of_failed (l := l) hp).1] at h
    obtain ⟨hopt, hc⟩ := Prod.mk.inj h
    exact ⟨rfl, Prod.ext (Option.map_eq_none_iff.mp hopt) hc⟩

/-- A loop that finds a partner ends at its first element or goes past it. -/
theorem scan_cons_eq_some {k : QueueElement}
    (h : scan ar i (k :: l) counts = (some (before, j, after), counts')) :
    (i.isMatchable ar k (k.touch (i.touch counts)) = true ∧ before = [] ∧ j = k ∧ after = l ∧
        counts' = k.touch (i.touch counts)) ∨
      (i.isMatchable ar k (k.touch (i.touch counts)) = false ∧ ∃ before', before = k :: before' ∧
        scan ar i l (k.touch (i.touch counts)) = (some (before', j, after), counts')) := by
  cases hp : i.isMatchable ar k (k.touch (i.touch counts)) with
  | true =>
    rw [(scan_cons_of_passed (l := l) hp).1] at h
    cases h
    exact .inl ⟨rfl, rfl, rfl, rfl, rfl⟩
  | false =>
    rw [(scan_cons_of_failed (l := l) hp).1] at h
    obtain ⟨hopt, hc⟩ := Prod.mk.inj h
    obtain ⟨⟨before', j', after'⟩, hr, he⟩ := Option.map_eq_some_iff.mp hopt
    cases he
    exact .inr ⟨rfl, before', rfl, Prod.ext hr hc⟩

/-- Where the loop finds a partner, the last test passed. -/
theorem scan_some_test (h : scan ar i l counts = (some (before, j, after), counts')) :
    ∃ c, ⟨i, j, c⟩ ∈ scanTests ar i l counts ∧ i.isMatchable ar j c = true := by
  induction l generalizing counts before with
  | nil => cases h
  | cons k rest ih =>
    rcases scan_cons_eq_some h with ⟨hp, -, rfl, -, -⟩ | ⟨hp, before', -, hr⟩
    · rw [(scan_cons_of_passed (l := rest) hp).2]
      exact ⟨_, List.mem_singleton_self _, hp⟩
    · obtain ⟨c, hmem, hpass⟩ := ih hr
      rw [(scan_cons_of_failed (l := rest) hp).2]
      exact ⟨c, List.mem_cons_of_mem _ hmem, hpass⟩

/-- Where it finds none, every element failed its test. -/
theorem scan_none_test (h : scan ar i l counts = (none, counts')) (hj : j ∈ l) :
    ∃ c, ⟨i, j, c⟩ ∈ scanTests ar i l counts ∧ i.isMatchable ar j c = false := by
  induction l generalizing counts with
  | nil => cases hj
  | cons k rest ih =>
    obtain ⟨hp, hr⟩ := scan_cons_eq_none h
    rw [(scan_cons_of_failed (l := rest) hp).2]
    rcases List.mem_cons.mp hj with rfl | hj
    · exact ⟨_, List.mem_cons_self, hp⟩
    · obtain ⟨c, hmem, hfail⟩ := ih hr hj
      exact ⟨c, List.mem_cons_of_mem _ hmem, hfail⟩

theorem length_scanTests_le (ar : Arith) (i : QueueElement) (l : List QueueElement)
    (counts : List Int) : (scanTests ar i l counts).length ≤ l.length := by
  induction l generalizing counts with
  | nil => exact le_refl _
  | cons k rest ih =>
    cases hp : i.isMatchable ar k (k.touch (i.touch counts)) with
    | true =>
      rw [(scan_cons_of_passed (l := rest) hp).2]
      simp
    | false =>
      rw [(scan_cons_of_failed (l := rest) hp).2, List.length_cons, List.length_cons]
      exact Nat.succ_le_succ (ih _)

/-! ## The outer loop -/

/-- Every pair of the round has passed a test of the round. -/
theorem pairUp_passed {m : MatchPair} (hm : m ∈ (pairUp ar l counts).1) :
    ∃ c, ⟨m.1, m.2, c⟩ ∈ tests ar l counts ∧ m.1.isMatchable ar m.2 c = true := by
  induction l, counts using pairUp.induct ar with
  | case1 counts =>
    rw [pairUp] at hm
    cases hm
  | case2 counts i rest counts' h ih =>
    rw [pairUp_of_none h] at hm
    rw [tests_of_none h]
    obtain ⟨c, hmem, hp⟩ := ih hm
    exact ⟨c, List.mem_append_right _ hmem, hp⟩
  | case3 counts i rest before j after counts' h ih =>
    rw [pairUp_of_some h] at hm
    rw [tests_of_some h]
    rcases List.mem_cons.mp hm with rfl | hm
    · obtain ⟨c, hmem, hp⟩ := scan_some_test h
      exact ⟨c, List.mem_append_left _ hmem, hp⟩
    · obtain ⟨c, hmem, hp⟩ := ih hm
      exact ⟨c, List.mem_append_right _ hmem, hp⟩

/-- **Maximality**: of two elements left, the later one failed its test against the
earlier one. -/
theorem pairUp_failed {x y : QueueElement} (h : [x, y].Sublist (pairUp ar l counts).2.1) :
    ∃ c, ⟨x, y, c⟩ ∈ tests ar l counts ∧ x.isMatchable ar y c = false := by
  induction l, counts using pairUp.induct ar with
  | case1 counts =>
    rw [pairUp] at h
    cases h
  | case2 counts i rest counts' hs ih =>
    rw [pairUp_of_none hs] at h
    rw [tests_of_none hs]
    cases h with
    | cons _ h =>
      obtain ⟨c, hmem, hf⟩ := ih h
      exact ⟨c, List.mem_append_right _ hmem, hf⟩
    | cons_cons _ h =>
      have hy : y ∈ rest := (pairUp_sublist ar rest counts').subset (List.singleton_sublist.mp h)
      obtain ⟨c, hmem, hf⟩ := scan_none_test hs hy
      exact ⟨c, List.mem_append_left _ hmem, hf⟩
  | case3 counts i rest before j after counts' hs ih =>
    rw [pairUp_of_some hs] at h
    rw [tests_of_some hs]
    obtain ⟨c, hmem, hf⟩ := ih h
    exact ⟨c, List.mem_append_right _ hmem, hf⟩

/-- No two elements are tested twice. -/
theorem length_tests_le (ar : Arith) (l : List QueueElement) (counts : List Int) :
    2 * (tests ar l counts).length ≤ l.length * (l.length - 1) := by
  induction l, counts using pairUp.induct ar with
  | case1 counts => simp [tests]
  | case2 counts i rest counts' h ih =>
    have hscan := length_scanTests_le ar i rest counts
    rw [tests_of_none h, List.length_append, List.length_cons]
    cases hr : rest.length with
    | zero => simp_all
    | succ n =>
      rw [hr, Nat.add_sub_cancel] at ih
      rw [hr] at hscan
      rw [Nat.add_sub_cancel]
      calc 2 * (_ + _) ≤ 2 * (n + 1) + (n + 1) * n := by omega
        _ = (n + 1 + 1) * (n + 1) := by ring
  | case3 counts i rest before j after counts' h ih =>
    have hscan := length_scanTests_le ar i rest counts
    have hlen : rest.length = (before ++ after).length + 1 := by
      rw [scan_eq_some h, List.length_append, List.length_append, List.length_cons]
      omega
    rw [tests_of_some h, List.length_append, List.length_cons]
    rw [hlen] at hscan ⊢
    rw [Nat.add_sub_cancel]
    have hmul : (before ++ after).length * ((before ++ after).length - 1) ≤
        (before ++ after).length * ((before ++ after).length + 1) :=
      Nat.mul_le_mul_left _ (by omega)
    calc 2 * (_ + _) ≤ 2 * ((before ++ after).length + 1) +
          (before ++ after).length * ((before ++ after).length + 1) := by omega
      _ = ((before ++ after).length + 1 + 1) * ((before ++ after).length + 1) := by ring

/-! ## The counters -/

/-- The elements compared, in order. -/
def met (ts : List Test) : List QueueElement := ts.flatMap fun t => [t.lhs, t.rhs]

theorem met_append (ts us : List Test) : met (ts ++ us) = met ts ++ met us :=
  List.flatMap_append

theorem scan_counts (ar : Arith) (i : QueueElement) (l : List QueueElement) (counts : List Int) :
    (scan ar i l counts).2 = touchAll (met (scanTests ar i l counts)) counts := by
  induction l generalizing counts with
  | nil => rfl
  | cons k rest ih =>
    cases hp : i.isMatchable ar k (k.touch (i.touch counts)) with
    | true =>
      obtain ⟨hs, ht⟩ := scan_cons_of_passed (l := rest) hp
      rw [hs, ht]
      rfl
    | false =>
      obtain ⟨hs, ht⟩ := scan_cons_of_failed (l := rest) hp
      rw [hs, ht]
      exact ih _

/-- The counters after the round are those the tests leave. -/
theorem pairUp_counts (ar : Arith) (l : List QueueElement) (counts : List Int) :
    (pairUp ar l counts).2.2 = touchAll (met (tests ar l counts)) counts := by
  induction l, counts using pairUp.induct ar with
  | case1 counts =>
    rw [pairUp, tests]
    rfl
  | case2 counts i rest counts' h ih =>
    have hc : counts' = touchAll (met (scanTests ar i rest counts)) counts := by
      rw [← scan_counts, h]
    rw [pairUp_of_none h, tests_of_none h, met_append, touchAll_append, ← hc]
    exact ih
  | case3 counts i rest before j after counts' h ih =>
    have hc : counts' = touchAll (met (scanTests ar i rest counts)) counts := by
      rw [← scan_counts, h]
    rw [pairUp_of_some h, tests_of_some h, met_append, touchAll_append, ← hc]
    exact ih

/-- A test is of two of the elements, on the counters that earlier tests of such elements
and its own comparison leave. -/
structure TestOf (l : List QueueElement) (counts : List Int) (t : Test) : Prop where
  lhs : t.lhs ∈ l
  rhs : t.rhs ∈ l
  counts : ∃ es, es ⊆ l ∧ t.counts = touchAll (es ++ [t.lhs, t.rhs]) counts

theorem TestOf.mono {t : Test} {l' : List QueueElement} (h : TestOf l counts t) (hl : l ⊆ l') :
    TestOf l' counts t := by
  obtain ⟨es, hes, hc⟩ := h.counts
  exact ⟨hl h.lhs, hl h.rhs, es, fun _ he => hl (hes he), hc⟩

/-- A test on the counters that comparisons of such elements have left. -/
theorem TestOf.later {t : Test} (es : List QueueElement) (hes : es ⊆ l)
    (h : TestOf l (touchAll es counts) t) : TestOf l counts t := by
  obtain ⟨es', hes', hc⟩ := h.counts
  refine ⟨h.lhs, h.rhs, es ++ es', List.append_subset.mpr ⟨hes, hes'⟩, ?_⟩
  rw [List.append_assoc, touchAll_append, hc]

theorem scanTests_of {t : Test} (ht : t ∈ scanTests ar i l counts) : TestOf (i :: l) counts t := by
  induction l generalizing counts with
  | nil => cases ht
  | cons k rest ih =>
    have hhead : TestOf (i :: k :: rest) counts ⟨i, k, k.touch (i.touch counts)⟩ :=
      ⟨List.mem_cons_self, by simp, [], List.nil_subset _, rfl⟩
    cases hp : i.isMatchable ar k (k.touch (i.touch counts)) with
    | true =>
      rw [(scan_cons_of_passed (l := rest) hp).2] at ht
      rw [List.mem_singleton.mp ht]
      exact hhead
    | false =>
      rw [(scan_cons_of_failed (l := rest) hp).2] at ht
      rcases List.mem_cons.mp ht with rfl | ht
      · exact hhead
      · refine TestOf.later [i, k] (by simp) ((ih ht).mono ?_)
        exact List.cons_subset_cons i (List.subset_cons_self k rest)

theorem met_subset {ts : List Test} (h : ∀ t ∈ ts, t.lhs ∈ l ∧ t.rhs ∈ l) : met ts ⊆ l := by
  intro e he
  obtain ⟨t, ht, het⟩ := List.mem_flatMap.mp he
  rcases List.mem_pair.mp het with rfl | rfl
  · exact (h t ht).1
  · exact (h t ht).2

/-- A test after those of `i` with `rest`. -/
theorem TestOf.after_scan {rest : List QueueElement} {t : Test}
    (h : (scan ar i rest counts).2 = counts') (hl : l ⊆ i :: rest) (ht : TestOf l counts' t) :
    TestOf (i :: rest) counts t := by
  refine TestOf.later (met (scanTests ar i rest counts)) ?_ ?_
  · exact met_subset fun t ht => ⟨(scanTests_of ht).lhs, (scanTests_of ht).rhs⟩
  · rw [← scan_counts, h]
    exact ht.mono hl

theorem tests_of {t : Test} (ht : t ∈ tests ar l counts) : TestOf l counts t := by
  induction l, counts using pairUp.induct ar with
  | case1 counts =>
    rw [tests] at ht
    cases ht
  | case2 counts i rest counts' h ih =>
    rw [tests_of_none h] at ht
    rcases List.mem_append.mp ht with ht | ht
    · exact scanTests_of ht
    · exact (ih ht).after_scan (by rw [h]) (List.subset_cons_self i rest)
  | case3 counts i rest before j after counts' h ih =>
    rw [tests_of_some h] at ht
    rcases List.mem_append.mp ht with ht | ht
    · exact scanTests_of ht
    · refine (ih ht).after_scan (by rw [h]) ?_
      rw [scan_eq_some h]
      exact List.append_subset.mpr ⟨fun _ he => by simp [he], fun _ he => by simp [he]⟩

/-! ## The round -/

/-- Each waiting element has a counter of its own, as the constructor gives it one and a set
does not hold an element and its copy. -/
structure OwnCounters (mm : MyMatchMaker) : Prop where
  valid : ∀ e ∈ mm.waitQueue, e.waitCount < mm.counts.length
  nodup : (mm.waitQueue.map (·.waitCount)).Nodup

/-- The wait count that decides for the element during a round. -/
def inForce (mm : MyMatchMaker) (e : QueueElement) : Int :=
  if e.games = 0 then 10 else e.count mm.counts

theorem OwnCounters.eq {mm : MyMatchMaker} (h : mm.OwnCounters) {e f : QueueElement}
    (he : e ∈ mm.waitQueue) (hf : f ∈ mm.waitQueue) (hw : f.waitCount = e.waitCount) : f = e :=
  List.inj_on_of_nodup_map h.nodup hf he hw

/-- The elements of a test are compared on their counts in force. -/
theorem OwnCounters.count_test {mm : MyMatchMaker} (h : mm.OwnCounters) {t : Test}
    (ht : TestOf mm.waitQueue mm.counts t) {e : QueueElement} (he : e = t.lhs ∨ e = t.rhs) :
    e.count t.counts = mm.inForce e := by
  obtain ⟨es, hes, hc⟩ := ht.counts
  have hmem : e ∈ es ++ [t.lhs, t.rhs] := by
    rcases he with rfl | rfl
    · simp
    · simp
  have hsub : es ++ [t.lhs, t.rhs] ⊆ mm.waitQueue :=
    List.append_subset.mpr ⟨hes, by simp [ht.lhs, ht.rhs]⟩
  have hq := hsub hmem
  rw [hc, count_touchAll (h.valid e hq) (fun f hf hw => h.eq hq (hsub hf) hw), inForce]
  simp only [hmem, and_true]

/-- The tests of the round `process` runs. -/
def log (ar : Arith) (mm : MyMatchMaker) : List Test := tests ar mm.waitQueue mm.counts

/-- **A round of matchmaking.** `process` puts new matches behind the old ones; the players
of the new matches and those who still wait are the players who waited. Each new match
passed a test of the round, and of any two players left the later one failed its test
against the earlier one, in a round of at most n(n-1)/2 tests. Where counters are not
shared, every test reads 10 for a player without games and the count before the round for
every other one. -/
theorem process_makes_a_maximal_matching (ar : Arith) (mm : MyMatchMaker) :
    ∃ new, (mm.process ar).matchQueue = mm.matchQueue ++ new ∧
      (players new ++ (mm.process ar).waitQueue).Perm mm.waitQueue ∧
      (∀ m ∈ new, ∃ c, ⟨m.1, m.2, c⟩ ∈ mm.log ar ∧ m.1.isMatchable ar m.2 c = true) ∧
      (∀ x y, [x, y].Sublist (mm.process ar).waitQueue →
        ∃ c, ⟨x, y, c⟩ ∈ mm.log ar ∧ x.isMatchable ar y c = false) ∧
      2 * (mm.log ar).length ≤ mm.waitQueue.length * (mm.waitQueue.length - 1) ∧
      (mm.OwnCounters → ∀ t ∈ mm.log ar,
        t.lhs.count t.counts = mm.inForce t.lhs ∧ t.rhs.count t.counts = mm.inForce t.rhs) := by
  refine ⟨(pairUp ar mm.waitQueue mm.counts).1, rfl, pairUp_perm ar _ _, ?_, ?_,
    length_tests_le ar _ _, ?_⟩
  · intro m hm
    exact pairUp_passed hm
  · intro x y h
    exact pairUp_failed h
  · intro hown t ht
    have hof := tests_of ht
    exact ⟨hown.count_test hof (.inl rfl), hown.count_test hof (.inr rfl)⟩

end MyMatchMaker
end DrgbServer.Match
