import DrgbServer.Match.Waiting

/-! # Which players widen their coverage by waiting

`Wait` adds one to a counter, but `ratio` sets that of a player without games to 10 whenever
it is compared: in a round, and when another player enters. So a counter of such a player
that has passed 10 grows no further in company, and an insertion can lower it. -/
namespace DrgbServer.Match
open DrgbServer.Utils DrgbServer.Lib DrgbServer.Lib.Transition QueueElement

namespace MyMatchMaker
variable {ar : Arith} {i j e : QueueElement} {l r before after : List QueueElement}
  {counts counts' : List Int} {mm : MyMatchMaker}

/-! ## Who is compared in a round -/

/-- A partner in the front part ends the inner loop there. -/
theorem scan_append_of_some (h : scan ar i l counts = (some (before, j, after), counts')) :
    scan ar i (l ++ r) counts = (some (before, j, after ++ r), counts') ∧
      scanTests ar i (l ++ r) counts = scanTests ar i l counts := by
  induction l generalizing counts before with
  | nil => cases h
  | cons k rest ih =>
    rw [List.cons_append]
    rcases scan_cons_eq_some h with ⟨hp, rfl, rfl, rfl, rfl⟩ | ⟨hp, before', rfl, hr⟩
    · obtain ⟨-, ht⟩ := scan_cons_of_passed (l := after) hp
      obtain ⟨hs', ht'⟩ := scan_cons_of_passed (l := after ++ r) hp
      exact ⟨hs', ht'.trans ht.symm⟩
    · obtain ⟨-, ht⟩ := scan_cons_of_failed (l := rest) hp
      obtain ⟨hs', ht'⟩ := scan_cons_of_failed (l := rest ++ r) hp
      obtain ⟨ihs, iht⟩ := ih hr
      rw [hs', ht', ht, ihs, iht]
      exact ⟨rfl, rfl⟩

/-- Without one it goes on behind it. -/
theorem scan_append_of_none (h : scan ar i l counts = (none, counts')) :
    scanTests ar i (l ++ r) counts = scanTests ar i l counts ++ scanTests ar i r counts' := by
  induction l generalizing counts with
  | nil =>
    cases h
    rfl
  | cons k rest ih =>
    rw [List.cons_append]
    obtain ⟨hp, hr⟩ := scan_cons_eq_none h
    rw [(scan_cons_of_failed (l := rest ++ r) hp).2, (scan_cons_of_failed (l := rest) hp).2, ih hr]
    rfl

theorem head_mem_met (ar : Arith) (i j : QueueElement) (l : List QueueElement)
    (counts : List Int) : i ∈ met (scanTests ar i (j :: l) counts) ∧
      j ∈ met (scanTests ar i (j :: l) counts) := by
  have hmem : (⟨i, j, j.touch (i.touch counts)⟩ : Test) ∈ scanTests ar i (j :: l) counts :=
    List.mem_cons_self
  exact ⟨List.mem_flatMap.mpr ⟨_, hmem, by simp⟩, List.mem_flatMap.mpr ⟨_, hmem, by simp⟩⟩

theorem not_mem_met_scanTests (hn : e ∉ i :: l) : e ∉ met (scanTests ar i l counts) := fun h =>
  hn (met_subset (fun _ ht => ⟨(scanTests_of ht).lhs, (scanTests_of ht).rhs⟩) h)

/-- **Who is compared**: an element that is left has met another one unless it is the last
and those before it have been paired up among themselves. -/
theorem mem_met_tests_iff (hn : (before ++ e :: after).Nodup)
    (he : e ∈ (pairUp ar (before ++ e :: after) counts).2.1) :
    e ∈ met (tests ar (before ++ e :: after) counts) ↔
      after ≠ [] ∨ (pairUp ar before counts).2.1 ≠ [] := by
  induction before, counts using pairUp.induct ar with
  | case1 counts =>
    have hnot : e ∉ after := (List.nodup_cons.mp hn).1
    rw [List.nil_append] at he ⊢
    cases h : scan ar e after counts with
    | mk found c =>
      cases found with
      | some p =>
        obtain ⟨b, k, a⟩ := p
        rw [pairUp_of_some h] at he
        refine absurd ?_ hnot
        have hmem := (pairUp_sublist ar (b ++ a) c).subset he
        rw [scan_eq_some h]
        rcases List.mem_append.mp hmem with hmem | hmem
        · exact List.mem_append_left _ hmem
        · exact List.mem_append_right _ (List.mem_cons_of_mem _ hmem)
      | none =>
        rw [tests_of_none h, met_append, pairUp]
        cases after with
        | nil => simp [scanTests, tests, met]
        | cons k rest =>
          refine iff_of_true ?_ (.inl (List.cons_ne_nil _ _))
          exact List.mem_append_left _ (head_mem_met ar e k rest counts).1
  | case2 counts b bs c h _ =>
    refine iff_of_true ?_ (.inr ?_)
    · have hmem : e ∈ met (scanTests ar b (bs ++ e :: after) counts) := by
        rw [scan_append_of_none h, met_append]
        exact List.mem_append_right _ (head_mem_met ar b e after c).2
      rw [List.cons_append]
      cases hs : scan ar b (bs ++ e :: after) counts with
      | mk found c' =>
        cases found with
        | none =>
          rw [tests_of_none hs, met_append]
          exact List.mem_append_left _ hmem
        | some p =>
          obtain ⟨x, k, y⟩ := p
          rw [tests_of_some hs, met_append]
          exact List.mem_append_left _ hmem
    · rw [pairUp_of_none h]
      exact List.cons_ne_nil _ _
  | case3 counts b bs p k q c h ih =>
    obtain ⟨hs, ht⟩ := scan_append_of_some (r := e :: after) h
    rw [List.cons_append] at he hn ⊢
    have hnot : e ∉ b :: bs := by
      intro hmem
      rw [← List.cons_append] at hn
      exact (List.nodup_append.mp hn).2.2 e hmem e List.mem_cons_self rfl
    have hsub : ((p ++ q) ++ e :: after).Sublist (b :: (bs ++ e :: after)) := by
      refine List.Sublist.cons b (List.Sublist.append ?_ (List.Sublist.refl _))
      rw [scan_eq_some h]
      exact (List.Sublist.refl p).append (List.sublist_cons_self k q)
    rw [pairUp_of_some hs, ← List.append_assoc] at he
    rw [tests_of_some hs, met_append, List.mem_append, ht, ← List.append_assoc,
      ih (hn.sublist hsub) he, pairUp_of_some h]
    exact or_iff_right (not_mem_met_scanTests hnot)

/-- Someone waits behind the element, or someone before it is left over when those before it
are paired up among themselves. -/
def Company (ar : Arith) (mm : MyMatchMaker) (e : QueueElement) : Prop :=
  ∃ before after, mm.waitQueue = before ++ e :: after ∧
    (after ≠ [] ∨ (pairUp ar before mm.counts).2.1 ≠ [])

theorem mem_met_log_iff (hn : mm.waitQueue.Nodup) (he : e ∈ (mm.process ar).waitQueue) :
    e ∈ met (mm.log ar) ↔ Company ar mm e := by
  have hiff : ∀ before after, mm.waitQueue = before ++ e :: after →
      (e ∈ met (mm.log ar) ↔ after ≠ [] ∨ (pairUp ar before mm.counts).2.1 ≠ []) := by
    intro before after hq
    have hleft : e ∈ (pairUp ar mm.waitQueue mm.counts).2.1 := he
    rw [log, hq]
    exact mem_met_tests_iff (hq ▸ hn) (hq ▸ hleft)
  constructor
  · intro h
    obtain ⟨before, after, hq⟩ := List.append_of_mem ((process_sublist ar mm).subset he)
    exact ⟨before, after, hq, (hiff before after hq).mp h⟩
  · rintro ⟨before, after, hq, h⟩
    exact (hiff before after hq).mpr h

end MyMatchMaker

/-- The account an `Enter` is for. -/
def Op.entering : Op → Option AccountId
  | .enter who _ _ _ _ => some who
  | .reenter elem _ => some elem.id
  | _ => none

/-- The positions an insertion compares with. -/
def Op.visited : Op → List Nat
  | .enter _ _ _ _ visited => visited
  | .reenter _ visited => visited
  | _ => []

namespace Lobby
open MyMatchMaker
variable {ar : Arith} {s t : Lobby} {op : Op} {e f : QueueElement} {counts : List Int}

/-! ## The counters of the reachable states -/

/-- Every element in the hands of the matchmaker or of its user. -/
def held (s : Lobby) : List QueueElement :=
  s.mm.waitQueue ++ players s.mm.matchQueue ++ s.returned

/-- The values of an `int`. -/
def InRange (counts : List Int) : Prop := ∀ c ∈ counts, -2 ^ 31 ≤ c ∧ c < 2 ^ 31

/-- Elements with one counter are copies of each other. -/
structure Sound (ar : Arith) (s : Lobby) : Prop where
  sorted : OrderedSet.Sorted (key ar) s.mm.waitQueue
  valid : ∀ e ∈ s.held, e.waitCount < s.mm.counts.length
  own : ∀ e ∈ s.held, ∀ f ∈ s.held, e.waitCount = f.waitCount → e = f
  range : InRange s.mm.counts

theorem InRange.touch (h : InRange counts) (e : QueueElement) : InRange (e.touch counts) := by
  unfold QueueElement.touch
  split
  · intro c hc
    rcases List.mem_or_eq_of_mem_set hc with hc | rfl
    · exact h c hc
    · norm_num
  · exact h

theorem InRange.touchAll (h : InRange counts) (es : List QueueElement) :
    InRange (touchAll es counts) := by
  induction es generalizing counts with
  | nil => exact h
  | cons e rest ih => exact ih (h.touch e)

theorem InRange.wait (h : InRange counts) (e : QueueElement) : InRange (wait counts e) := by
  intro c hc
  unfold QueueElement.wait at hc
  obtain ⟨k, hk, rfl⟩ := List.getElem_of_mem hc
  rw [List.getElem_modify]
  split
  · exact ⟨Int.le_bmod (by norm_num), Int.bmod_lt (by norm_num)⟩
  · exact h _ (List.getElem_mem _)

theorem InRange.foldl_wait (h : InRange counts) (es : List QueueElement) :
    InRange (es.foldl QueueElement.wait counts) := by
  induction es generalizing counts with
  | nil => exact h
  | cons e rest ih => exact ih (h.wait e)

theorem InRange.append (h : InRange counts) {new : List Int} (hn : InRange new) :
    InRange (counts ++ new) := by
  intro c hc
  rcases List.mem_append.mp hc with hc | hc
  · exact h c hc
  · exact hn c hc

theorem InRange.one : InRange [1] := by
  intro c hc
  rw [List.mem_singleton.mp hc]
  norm_num

theorem InRange.count (h : InRange counts) (hv : e.waitCount < counts.length) :
    -2 ^ 31 ≤ e.count counts ∧ e.count counts < 2 ^ 31 := by
  rw [QueueElement.count, List.getD_eq_getElem?_getD, List.getElem?_eq_getElem hv]
  exact h _ (List.getElem_mem hv)

theorem start_sound (ar : Arith) : Sound ar start where
  sorted := List.Pairwise.nil
  valid e he := by simp [start, held, MyMatchMaker.start, players] at he
  own e he := by simp [start, held, MyMatchMaker.start, players] at he
  range c hc := by cases hc

/-- A step that hands out no counter. -/
theorem Sound.still (h : Sound ar s) (hs : OrderedSet.Sorted (key ar) t.mm.waitQueue)
    (hh : t.held ⊆ s.held) (hl : t.mm.counts.length = s.mm.counts.length)
    (hr : InRange t.mm.counts) : Sound ar t where
  sorted := hs
  valid e he := hl ▸ h.valid e (hh he)
  own e he f hf := h.own e (hh he) f (hh hf)
  range := hr

/-- A step that makes elements with new counters. -/
theorem Sound.grow (h : Sound ar s) (hs : OrderedSet.Sorted (key ar) t.mm.waitQueue)
    (n : List QueueElement) (hh : t.held ⊆ n ++ s.held)
    (hnew : ∀ e ∈ n, s.mm.counts.length ≤ e.waitCount ∧ e.waitCount < t.mm.counts.length)
    (hown : ∀ e ∈ n, ∀ f ∈ n, e.waitCount = f.waitCount → e = f)
    (hl : s.mm.counts.length ≤ t.mm.counts.length) (hr : InRange t.mm.counts) : Sound ar t where
  sorted := hs
  valid e he := by
    rcases List.mem_append.mp (hh he) with he | he
    · exact (hnew e he).2
    · exact (h.valid e he).trans_le hl
  own e he f hf heq := by
    rcases List.mem_append.mp (hh he) with he | he
    · rcases List.mem_append.mp (hh hf) with hf | hf
      · exact hown e he f hf heq
      · exact absurd heq (((h.valid f hf).trans_le (hnew e he).1).ne')
    · rcases List.mem_append.mp (hh hf) with hf | hf
      · exact absurd heq ((h.valid e he).trans_le (hnew f hf).1).ne
      · exact h.own e he f hf heq
  range := hr

theorem length_compared (mm : MyMatchMaker) (elem : QueueElement) (visited : List Nat) :
    (mm.compared elem visited).length = mm.counts.length := length_touchAll _ _

theorem InRange.compared {mm : MyMatchMaker} (h : InRange mm.counts) (elem : QueueElement)
    (visited : List Nat) : InRange (mm.compared elem visited) := h.touchAll _

theorem mem_held (s : Lobby) (e : QueueElement) : e ∈ s.held ↔
    e ∈ s.mm.waitQueue ∨ e ∈ players s.mm.matchQueue ∨ e ∈ s.returned := by
  rw [held, List.mem_append, List.mem_append, or_assoc]

/-- An element put into `wait_queue`. -/
theorem held_insert {elem : QueueElement}
    (hw : t.mm.waitQueue = OrderedSet.insert (QueueElement.less ar) elem s.mm.waitQueue)
    (hm : t.mm.matchQueue = s.mm.matchQueue) (hr : t.returned = s.returned) :
    t.held ⊆ elem :: s.held := by
  intro e he
  rw [mem_held, hw, hm, hr] at he
  rw [List.mem_cons, mem_held]
  rcases he with he | he | he
  · rcases OrderedSet.mem_of_mem_insert _ he with rfl | he
    · exact .inl rfl
    · exact .inr (.inl he)
  · exact .inr (.inr (.inl he))
  · exact .inr (.inr (.inr he))

theorem step_sound (s : Lobby) (op : Op) (t : Lobby) (h : Sound ar s)
    (hstep : step ar s op = some t) : Sound ar t := by
  cases op with
  | enter id win draw loose visited =>
    cases hstep
    by_cases hid : id ≤ 0
    · simpa only [enter, if_pos hid] using h
    · simp only [enter, if_neg hid]
      have hlen : ∀ (elem : QueueElement), (compared { s.mm with counts := s.mm.counts ++ [1] }
          elem visited).length = s.mm.counts.length + 1 := by
        intro elem
        rw [length_compared, List.length_append, List.length_singleton]
      refine h.grow (OrderedSet.sorted_insert (less_ordersBy ar) h.sorted _)
        [⟨id, win, draw, loose, s.mm.counts.length⟩] (held_insert rfl rfl rfl) ?_ ?_ ?_ ?_
      · intro e he
        rw [List.mem_singleton.mp he]
        exact ⟨le_refl _, by rw [MyMatchMaker.insert, hlen]; exact Nat.lt_succ_self _⟩
      · intro e he f hf _
        rw [List.mem_singleton.mp he, List.mem_singleton.mp hf]
      · rw [MyMatchMaker.insert, hlen]
        exact Nat.le_succ _
      · exact InRange.compared (h.range.append InRange.one) _ visited
  | reenter elem visited =>
    simp only [step] at hstep
    split at hstep
    · rename_i hmem
      cases hstep
      by_cases hid : elem.id ≤ 0
      · simpa only [enterElem, if_pos hid] using h
      · simp only [enterElem, if_neg hid]
        refine h.still (OrderedSet.sorted_insert (less_ordersBy ar) h.sorted _) ?_
          (length_compared _ _ _) (h.range.compared elem visited)
        refine List.Subset.trans (held_insert rfl rfl rfl)
          (List.cons_subset.mpr ⟨?_, List.Subset.refl _⟩)
        exact (mem_held s elem).mpr (.inr (.inr hmem))
    · cases hstep
  | exit id =>
    cases hstep
    refine h.still (h.sorted.sublist List.eraseP_sublist) ?_ rfl h.range
    intro e he
    rw [mem_held] at he ⊢
    exact he.imp_left List.mem_of_mem_eraseP
  | process =>
    cases hstep
    refine h.still (h.sorted.sublist (process_sublist ar s.mm)) ?_ ?_ ?_
    · intro e he
      rw [mem_held] at he ⊢
      have hperm := pairUp_perm ar s.mm.waitQueue s.mm.counts
      rcases he with he | he | he
      · exact .inl ((process_sublist ar s.mm).subset he)
      · obtain ⟨m, hm, hem⟩ := mem_players.mp he
        rcases List.mem_append.mp hm with hm | hm
        · exact .inr (.inl (mem_players.mpr ⟨m, hm, hem⟩))
        · exact .inl (hperm.subset (List.mem_append_left _ (mem_players.mpr ⟨m, hm, hem⟩)))
      · exact .inr (.inr he)
    · exact (length_foldl_wait _ _).trans (length_tested ar s.mm)
    · refine InRange.foldl_wait ?_ _
      rw [pairUp_counts]
      exact h.range.touchAll _
  | getMatch =>
    cases hstep
    cases hq : s.mm.matchQueue with
    | nil =>
      simp only [getMatch, hq]
      refine h.grow h.sorted [⟨0, 0, 0, 0, s.mm.counts.length⟩,
        ⟨0, 0, 0, 0, s.mm.counts.length + 1⟩] ?_ ?_ ?_ ?_ ?_
      · intro e he
        rw [List.mem_append, mem_held]
        rw [mem_held] at he
        simp only [List.mem_cons, hq] at he ⊢
        tauto
      · intro e he
        simp only [List.mem_cons, List.not_mem_nil, or_false] at he
        rcases he with rfl | rfl
        · simp
        · simp
      · intro e he f hf heq
        simp only [List.mem_cons, List.not_mem_nil, or_false] at he hf
        rcases he with rfl | rfl <;> rcases hf with rfl | rfl
        · rfl
        · simp at heq
        · simp at heq
        · rfl
      · simp
      · refine h.range.append ?_
        intro c hc
        simp only [List.mem_cons, List.not_mem_nil, or_false, or_self] at hc
        rw [hc]
        norm_num
    | cons m rest =>
      simp only [getMatch, hq]
      refine h.still h.sorted ?_ rfl h.range
      intro e he
      have hpair : e = m.1 ∨ e = m.2 → e ∈ players s.mm.matchQueue := fun hem =>
        mem_players.mpr ⟨m, hq ▸ List.mem_cons_self, hem⟩
      rw [mem_held] at he ⊢
      simp only [List.mem_cons] at he
      tauto
  | popMatch =>
    cases hstep
    refine h.still h.sorted ?_ rfl h.range
    intro e he
    rw [mem_held] at he ⊢
    refine he.imp_right (Or.imp_left ?_)
    intro hm
    obtain ⟨m, hm, hem⟩ := mem_players.mp hm
    exact mem_players.mpr ⟨m, List.mem_of_mem_tail hm, hem⟩

theorem mem_held_of_waiting (he : e ∈ s.mm.waitQueue) : e ∈ s.held := (mem_held s e).mpr (.inl he)

theorem Sound.nodup (h : Sound ar s) : s.mm.waitQueue.Nodup :=
  h.sorted.imp fun hlt heq => absurd (heq ▸ hlt) (lt_irrefl _)

/-- The reachable states share no counter between waiting elements. -/
theorem Sound.ownCounters (h : Sound ar s) : s.mm.OwnCounters where
  valid e he := h.valid e (mem_held_of_waiting he)
  nodup := h.nodup.map_on fun e he f hf heq => h.own e (mem_held_of_waiting he) f (mem_held_of_waiting hf) heq

/-! ## The claim about a step -/

/-- What a step should do to the counts of those who wait: a `Process` that leaves an element
raises its count, and nobody else's `Enter` lowers it. -/
def Widens (ar : Arith) (s : Lobby) (op : Op) : Prop :=
  ∀ t, step ar s op = some t → ∀ e ∈ s.mm.waitQueue,
    (op = .process → e ∈ t.mm.waitQueue → e.count s.mm.counts < e.count t.mm.counts) ∧
    (∀ who, op.entering = some who → e.id ≠ who → e.count s.mm.counts ≤ e.count t.mm.counts)

/-- The insertion compares with the element. -/
def Compared (s : Lobby) (op : Op) (e : QueueElement) : Prop :=
  ∃ k ∈ op.visited, s.mm.waitQueue[k]? = some e

/-- A player without games who is compared has a count of at most 10; every other count can
be incremented. -/
def Spared (ar : Arith) (s : Lobby) (op : Op) : Prop :=
  ∀ t, step ar s op = some t → ∀ e ∈ s.mm.waitQueue,
    (op = .process → e ∈ t.mm.waitQueue →
      (e.games = 0 ∧ Company ar s.mm e → e.count s.mm.counts ≤ 10) ∧
      (¬ (e.games = 0 ∧ Company ar s.mm e) → e.count s.mm.counts < 2 ^ 31 - 1)) ∧
    (∀ elem, s.brings op = some elem → e.id ≠ elem.id →
      e.games = 0 → Compared s op e → e.count s.mm.counts ≤ 10)

/-! ## A round -/

theorem lt_bmod_iff {n : Int} (h : -2 ^ 31 ≤ n ∧ n < 2 ^ 31) :
    n < (n + 1).bmod (2 ^ 32) ↔ n < 2 ^ 31 - 1 := by
  by_cases hn : n < 2 ^ 31 - 1
  · rw [Int.bmod_eq_of_le (by omega) (by omega)]
    omega
  · have heq : n = 2 ^ 31 - 1 := by omega
    rw [heq]
    decide

/-- An element that is left by a round. -/
theorem Sound.process_widens_iff (h : Sound ar s) (he : e ∈ (s.mm.process ar).waitQueue) :
    e.count s.mm.counts < e.count (s.mm.process ar).counts ↔
      (e.games = 0 ∧ Company ar s.mm e → e.count s.mm.counts ≤ 10) ∧
      (¬ (e.games = 0 ∧ Company ar s.mm e) → e.count s.mm.counts < 2 ^ 31 - 1) := by
  have hq : e ∈ s.mm.waitQueue := (process_sublist ar s.mm).subset he
  have hrange := h.range.count (h.valid e (mem_held_of_waiting hq))
  rw [h.ownCounters.count_process he, h.ownCounters.count_tested hq, ← mem_met_log_iff h.nodup he]
  by_cases hmet : e.games = 0 ∧ e ∈ met (s.mm.log ar)
  · have h11 : ((10 : Int) + 1).bmod (2 ^ 32) = 11 := by decide
    rw [if_pos hmet, h11]
    simp only [hmet, and_self, true_imp_iff, not_true_eq_false, false_imp_iff, and_true]
    omega
  · rw [if_neg hmet, lt_bmod_iff hrange]
    simp only [hmet, false_imp_iff, not_false_eq_true, true_imp_iff, true_and]

/-! ## An insertion -/

/-- What an insertion does to the count of an element that waits. -/
theorem count_compared {mm : MyMatchMaker} {elem : QueueElement} {visited : List Nat}
    (hv : e.waitCount < mm.counts.length) (hne : e ≠ elem)
    (hown : ∀ f ∈ elem :: mm.waitQueue, f.waitCount = e.waitCount → f = e) :
    e.count (mm.compared elem visited) =
      if e.games = 0 ∧ e ∈ visited.filterMap (mm.waitQueue[·]?) then 10
      else e.count mm.counts := by
  have hmet : ∀ f ∈ visited.filterMap (mm.waitQueue[·]?), f ∈ mm.waitQueue := by
    intro f hf
    obtain ⟨k, -, hk⟩ := List.mem_filterMap.mp hf
    exact List.mem_of_getElem? hk
  show e.count (touchAll (if (visited.filterMap (mm.waitQueue[·]?)).isEmpty then []
    else elem :: visited.filterMap (mm.waitQueue[·]?)) mm.counts) = _
  generalize visited.filterMap (mm.waitQueue[·]?) = compared at hmet ⊢
  cases compared with
  | nil => simp [touchAll]
  | cons x xs =>
    show e.count (touchAll (elem :: x :: xs) mm.counts) = _
    refine (count_touchAll hv ?_).trans ?_
    · intro f hf
      refine hown f ?_
      rcases List.mem_cons.mp hf with rfl | hf
      · exact List.mem_cons_self
      · exact List.mem_cons_of_mem _ (hmet f hf)
    · simp only [List.mem_cons, hne, false_or]

theorem count_append {c : List Int} (hv : e.waitCount < counts.length) :
    e.count (counts ++ c) = e.count counts := by
  rw [QueueElement.count, QueueElement.count, List.getD_eq_getElem?_getD,
    List.getD_eq_getElem?_getD, List.getElem?_append_left hv]

/-- The counters after an `Enter` that reaches the set. -/
theorem Sound.count_enter (h : Sound ar s) (hstep : step ar s op = some t)
    (he : e ∈ s.mm.waitQueue) {elem : QueueElement} (hb : s.brings op = some elem)
    (hne : e.id ≠ elem.id) :
    e.count t.mm.counts =
      if e.games = 0 ∧ e ∈ op.visited.filterMap (s.mm.waitQueue[·]?) then 10
      else e.count s.mm.counts := by
  have hv : e.waitCount < s.mm.counts.length := h.valid e (mem_held_of_waiting he)
  have hne' : e ≠ elem := fun heq => hne (heq ▸ rfl)
  cases op with
  | enter who win draw loose visited =>
    simp only [brings] at hb
    split at hb
    · cases hb
    · rename_i hid
      cases hb
      cases hstep
      simp only [enter, if_neg hid]
      refine (count_compared ?_ hne' ?_).trans ?_
      · rw [List.length_append]
        omega
      · intro f hf hw
        rcases List.mem_cons.mp hf with rfl | hf
        · exact absurd hw hv.ne'
        · exact h.own f (mem_held_of_waiting hf) e (mem_held_of_waiting he) hw
      · rw [count_append hv]
        rfl
  | reenter elem' visited =>
    simp only [brings] at hb
    simp only [step] at hstep
    split at hb
    · cases hb
    · rename_i hid
      cases hb
      split at hstep
      · rename_i hmem
        cases hstep
        simp only [enterElem, if_neg hid]
        refine count_compared hv hne' ?_
        intro f hf hw
        rcases List.mem_cons.mp hf with rfl | hf
        · exact h.own f ((mem_held s f).mpr (.inr (.inr hmem))) e (mem_held_of_waiting he) hw
        · exact h.own f (mem_held_of_waiting hf) e (mem_held_of_waiting he) hw
      · cases hstep
  | exit who => cases hb
  | process => cases hb
  | getMatch => cases hb
  | popMatch => cases hb

/-- An `Enter` without a valid account changes nothing. -/
theorem counts_of_brings_none (hstep : step ar s op = some t) {who : AccountId}
    (hw : op.entering = some who) (hb : s.brings op = none) : t.mm.counts = s.mm.counts := by
  cases op with
  | enter who' win draw loose visited =>
    simp only [brings] at hb
    split at hb
    · rename_i hid
      cases hstep
      simp only [enter, if_pos hid]
    · cases hb
  | reenter elem visited =>
    simp only [brings] at hb
    simp only [step] at hstep
    split at hb
    · rename_i hid
      split at hstep
      · cases hstep
        simp only [enterElem, if_pos hid]
      · cases hstep
    · cases hb
  | exit who' => cases hw
  | process => cases hw
  | getMatch => cases hw
  | popMatch => cases hw

theorem brings_id {elem : QueueElement} (hb : s.brings op = some elem) :
    op.entering = some elem.id := by
  cases op with
  | enter who win draw loose visited =>
    simp only [brings] at hb
    split at hb
    · cases hb
    · cases hb
      rfl
  | reenter elem' visited =>
    simp only [brings] at hb
    split at hb
    · cases hb
    · cases hb
      rfl
  | exit who => cases hb
  | process => cases hb
  | getMatch => cases hb
  | popMatch => cases hb

/-- An element that waits while another account enters. -/
theorem Sound.enter_widens_iff (h : Sound ar s) (hstep : step ar s op = some t)
    (he : e ∈ s.mm.waitQueue) :
    (∀ who, op.entering = some who → e.id ≠ who → e.count s.mm.counts ≤ e.count t.mm.counts) ↔
      ∀ elem, s.brings op = some elem → e.id ≠ elem.id →
        e.games = 0 → Compared s op e → e.count s.mm.counts ≤ 10 := by
  have hcompared : e ∈ op.visited.filterMap (s.mm.waitQueue[·]?) ↔ Compared s op e :=
    List.mem_filterMap
  constructor
  · intro hw elem hb hne hg hc
    have hle := hw elem.id (brings_id hb) hne
    rwa [h.count_enter hstep he hb hne, if_pos ⟨hg, hcompared.mpr hc⟩] at hle
  · intro hs who hwho hne
    cases hb : s.brings op with
    | none => rw [counts_of_brings_none hstep hwho hb]
    | some elem =>
      obtain rfl := Option.some.inj (hwho.symm.trans (brings_id hb))
      rw [h.count_enter hstep he hb hne]
      split
      · next hmet => exact hs elem hb hne hmet.1 (hcompared.mp hmet.2)
      · exact le_refl _

/-- **A step widens every coverage it should exactly if no player without games whom it
compares has passed 10, and no count is at its end.** -/
theorem Sound.widens_iff (h : Sound ar s) (op : Op) : Widens ar s op ↔ Spared ar s op := by
  refine forall_congr' fun t => forall_congr' fun hstep => forall_congr' fun e =>
    forall_congr' fun he => and_congr ?_ (h.enter_widens_iff hstep he)
  refine forall_congr' fun hop => forall_congr' fun hleft => ?_
  subst hop
  cases hstep
  exact h.process_widens_iff hleft

/-- **Waiting widens the coverage** in every step of a run exactly if in every step the
players without games who are compared have counts of at most 10, and the other players left
by a `Process` have counts that can be incremented. -/
theorem widens_iff_spared (ar : Arith) (ops : List Op) :
    Meets (step ar) (Widens ar) start ops ↔ Meets (step ar) (Spared ar) start ops := by
  constructor
  · intro hw
    refine meets_of_meets (I := Sound ar) (fun s op h => (h.widens_iff op).mp) ?_ (start_sound ar) hw
    exact fun s op t h _ => step_sound s op t h
  · intro hs
    refine meets_of_meets (I := Sound ar) (fun s op h => (h.widens_iff op).mpr) ?_ (start_sound ar) hs
    exact fun s op t h _ => step_sound s op t h

/-- Exact arithmetic and a coverage of one hundredth per count. -/
def hundredth : Arith := ⟨fun q => q, 1 / 100⟩

/-- A new player and the winner of a single game wait. -/
def newAndWinner (counts : List Int) : MyMatchMaker :=
  ⟨[⟨1, 0, 0, 0, 0⟩, ⟨2, 1, 0, 0, 1⟩], [], counts⟩

theorem newAndWinner_process {a b : Int}
    (hm : QueueElement.isMatchable hundredth ⟨1, 0, 0, 0, 0⟩ ⟨2, 1, 0, 0, 1⟩ [10, b] = false) :
    (newAndWinner [a, b]).process hundredth = newAndWinner [11, (b + 1).bmod (2 ^ 32)] := by
  have hs : scan hundredth ⟨1, 0, 0, 0, 0⟩ [⟨2, 1, 0, 0, 1⟩] [a, b] = (none, [10, b]) := by
    have h1 : QueueElement.touch ⟨1, 0, 0, 0, 0⟩ [a, b] = [10, b] := if_pos (by decide)
    have h2 : QueueElement.touch ⟨2, 1, 0, 0, 1⟩ [10, b] = [10, b] := if_neg (by decide)
    rw [scan, h1, h2, hm]
    rfl
  have hs' : scan hundredth ⟨2, 1, 0, 0, 1⟩ [] [10, b] = (none, [10, b]) := rfl
  have hp : pairUp hundredth [⟨1, 0, 0, 0, 0⟩, ⟨2, 1, 0, 0, 1⟩] [a, b] =
      ([], [⟨1, 0, 0, 0, 0⟩, ⟨2, 1, 0, 0, 1⟩], [10, b]) := by
    rw [pairUp_of_none hs, pairUp_of_none hs', pairUp]
  rw [newAndWinner, process, hp]
  rfl

/-- The counter of the new player stays at 11 in the second round, and goes back to 10 when
a third player enters. -/
theorem not_widens_new :
    ¬ Meets (step hundredth) (Widens hundredth) start
      [.enter 1 0 0 0 [], .enter 2 1 0 0 [0], .process, .process] ∧
    ¬ Meets (step hundredth) (Widens hundredth) start
      [.enter 1 0 0 0 [], .enter 2 1 0 0 [0], .process, .enter 3 1 0 0 [0, 1]] := by
  have hq : (start.mm.enter hundredth 1 0 0 0 []).enter hundredth 2 1 0 0 [0] =
      newAndWinner [10, 1] := by decide +kernel
  have h1 : (newAndWinner [10, 1]).process hundredth = newAndWinner [11, 2] :=
    newAndWinner_process (by decide +kernel)
  have h2 : (newAndWinner [11, 2]).process hundredth = newAndWinner [11, 3] :=
    newAndWinner_process (by decide +kernel)
  have hfirst : step hundredth start (.enter 1 0 0 0 []) =
      some ⟨start.mm.enter hundredth 1 0 0 0 [], []⟩ := rfl
  have hsecond : step hundredth ⟨start.mm.enter hundredth 1 0 0 0 [], []⟩ (.enter 2 1 0 0 [0]) =
      some ⟨newAndWinner [10, 1], []⟩ := by rw [step, hq]
  have hround : ∀ a b : MyMatchMaker, a.process hundredth = b →
      step hundredth ⟨a, []⟩ .process = some ⟨b, []⟩ := fun a b h => by rw [step, h]
  have hmem : ⟨1, 0, 0, 0, 0⟩ ∈ (newAndWinner [11, 2]).waitQueue := List.mem_cons_self
  constructor
  · intro h
    rw [meets_cons_of_some hfirst, meets_cons_of_some hsecond,
      meets_cons_of_some (hround _ _ h1), meets_cons_of_some (hround _ _ h2)] at h
    have hw := h.2.2.2.1 _ (hround _ _ h2) _ hmem
    exact absurd (hw.1 rfl List.mem_cons_self) (by decide)
  · intro h
    rw [meets_cons_of_some hfirst, meets_cons_of_some hsecond,
      meets_cons_of_some (hround _ _ h1), meets_cons_of_some rfl] at h
    have hw := h.2.2.2.1 _ rfl _ hmem
    exact absurd (hw.2 3 rfl (by decide)) (by decide +kernel)

end Lobby
end DrgbServer.Match
