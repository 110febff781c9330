import DrgbServer.Match.MyMatchMaker

/-! # What the two queues and the counters of the matchmaker agree on

`wait_queue` is in order, every player queued has a counter of its own, and a player
without games who stands in a match has the counter 10 that `isMatchable` gave it.
The invariant is kept by every operation (`coherent_enter`, `coherent_exit`,
`coherent_process`, `coherent_popMatch`) and by an element that comes back out of a
match (`Coherent.insert`). -/
namespace DrgbServer.Match
open DrgbServer.Utils DrgbServer.Lib

namespace MyMatchMaker
variable {ar : Arith} {mm : MyMatchMaker}

/-! ## What comparisons do to the counters -/

/-- Between the two only the counters of players of `es` without games were written. -/
structure Touched (es : List QueueElement) (counts counts' : List Int) : Prop where
  length : counts'.length = counts.length
  kept : ∀ k, counts'[k]? = counts[k]? ∨
    counts'[k]? = some 10 ∧ ∃ e ∈ es, e.games = 0 ∧ e.waitCount = k

section Touched
variable {es fs : List QueueElement} {counts counts' counts'' : List Int} {e : QueueElement}

theorem Touched.refl (es : List QueueElement) (counts : List Int) : Touched es counts counts :=
  ⟨rfl, fun _ => .inl rfl⟩

theorem Touched.trans (h : Touched es counts counts') (h' : Touched es counts' counts'') :
    Touched es counts counts'' := by
  refine ⟨h'.length.trans h.length, fun k => ?_⟩
  rcases h'.kept k with hk | hk
  · rw [hk]
    exact h.kept k
  · exact .inr hk

theorem Touched.mono (h : Touched es counts counts') (hs : es ⊆ fs) : Touched fs counts counts' := by
  refine ⟨h.length, fun k => ?_⟩
  rcases h.kept k with hk | ⟨hk, e, he, hg⟩
  · exact .inl hk
  · exact .inr ⟨hk, e, hs he, hg⟩

theorem touch_touched (he : e ∈ es) (counts : List Int) : Touched es counts (e.touch counts) := by
  unfold QueueElement.touch
  split
  · rename_i hg
    refine ⟨List.length_set, fun k => ?_⟩
    rw [List.getElem?_set]
    split
    · rename_i hk
      split
      · exact .inr ⟨rfl, e, he, hg, hk⟩
      · rename_i hlt
        exact .inl (by rw [List.getElem?_eq_none (by omega)])
    · exact .inl rfl
  · exact .refl es counts

theorem foldl_touched {l : List QueueElement} (hl : l ⊆ es) (counts : List Int) :
    Touched es counts (l.foldl (fun counts e => e.touch counts) counts) := by
  induction l generalizing counts with
  | nil => exact .refl es counts
  | cons e rest ih =>
    have he : e ∈ es := hl List.mem_cons_self
    exact (touch_touched he counts).trans (ih (fun _ h => hl (List.mem_cons_of_mem _ h)) _)

theorem compared_touched (mm : MyMatchMaker) (elem : QueueElement) (visited : List Nat) :
    Touched (elem :: mm.waitQueue) mm.counts (mm.compared elem visited) := by
  refine foldl_touched ?_ _
  have hmet : visited.filterMap (mm.waitQueue[·]?) ⊆ mm.waitQueue := by
    intro e he
    obtain ⟨i, _, hi⟩ := List.mem_filterMap.mp he
    exact List.mem_of_getElem? hi
  split
  · exact List.nil_subset _
  · exact List.cons_subset_cons _ hmet

theorem scan_touched (ar : Arith) (i : QueueElement) (l : List QueueElement) (counts : List Int) :
    Touched (i :: l) counts (scan ar i l counts).2 := by
  induction l generalizing counts with
  | nil => exact .refl _ counts
  | cons j rest ih =>
    have hi : Touched (i :: j :: rest) counts (i.touch counts) := touch_touched (by simp) _
    have hj : Touched (i :: j :: rest) counts (j.touch (i.touch counts)) :=
      hi.trans (touch_touched (by simp) _)
    have hrest := (ih (j.touch (i.touch counts))).mono
      (List.cons_subset_cons i (List.subset_cons_self j rest))
    rw [scan]
    split
    · exact hj
    · split
      · rename_i h
        rw [h] at hrest
        exact hj.trans hrest
      · rename_i h
        rw [h] at hrest
        exact hj.trans hrest

theorem pairUp_touched (ar : Arith) (l : List QueueElement) (counts : List Int) :
    Touched l counts (pairUp ar l counts).2.2 := by
  induction l, counts using pairUp.induct ar with
  | case1 counts =>
    rw [pairUp]
    exact .refl _ counts
  | case2 counts i rest counts' h ih =>
    have hs := scan_touched ar i rest counts
    rw [h] at hs
    rw [pairUp_of_none h]
    exact hs.trans (ih.mono (List.subset_cons_self i rest))
  | case3 counts i rest before j after counts' h ih =>
    have hs := scan_touched ar i rest counts
    rw [h] at hs
    rw [pairUp_of_some h]
    refine hs.trans (ih.mono fun e he => ?_)
    rw [scan_eq_some h]
    simp only [List.mem_append, List.mem_cons] at he ⊢
    tauto

/-- A player without games has the counter 10. -/
def Settled (counts : List Int) (e : QueueElement) : Prop :=
  e.games = 0 → counts[e.waitCount]? = some 10

theorem Settled.touched (hs : Settled counts e) (h : Touched es counts counts') :
    Settled counts' e := by
  intro hg
  rcases h.kept e.waitCount with hk | ⟨hk, _⟩
  · rw [hk]
    exact hs hg
  · exact hk

theorem touch_settled (h : e.waitCount < counts.length) : Settled (e.touch counts) e := by
  intro hg
  rw [QueueElement.touch, if_pos hg, List.getElem?_set_self h]

/-- The two players that `scan` brings together. -/
theorem scan_settled {i j : QueueElement} {l before after : List QueueElement}
    (h : scan ar i l counts = (some (before, j, after), counts'))
    (hi : i.waitCount < counts.length) (hl : ∀ e ∈ l, e.waitCount < counts.length) :
    Settled counts' i ∧ Settled counts' j := by
  induction l generalizing counts before with
  | nil => cases h
  | cons k rest ih =>
    have hi' : Touched [i] counts (i.touch counts) := touch_touched List.mem_cons_self _
    have hk' : Touched [k] (i.touch counts) (k.touch (i.touch counts)) :=
      touch_touched List.mem_cons_self _
    have hlen := hk'.length.trans hi'.length
    have hk : k.waitCount < (i.touch counts).length := hi'.length ▸ hl k List.mem_cons_self
    rw [scan] at h
    split at h
    · cases h
      exact ⟨(touch_settled hi).touched hk', touch_settled hk⟩
    · split at h
      · cases h
      · rename_i hr
        cases h
        refine ih hr (hlen ▸ hi) fun e he => ?_
        rw [hlen]
        exact hl e (List.mem_cons_of_mem _ he)

/-- **The players matched by `Process` are settled.** -/
theorem pairUp_settled (l : List QueueElement) (counts : List Int)
    (hl : ∀ e ∈ l, e.waitCount < counts.length) :
    ∀ e ∈ players (pairUp ar l counts).1, Settled (pairUp ar l counts).2.2 e := by
  induction l, counts using pairUp.induct ar with
  | case1 counts =>
    rw [pairUp]
    intro e he
    cases he
  | case2 counts i rest counts' h ih =>
    have hs := scan_touched ar i rest counts
    rw [h] at hs
    rw [pairUp_of_none h]
    refine ih fun e he => ?_
    rw [hs.length]
    exact hl e (List.mem_cons_of_mem _ he)
  | case3 counts i rest before j after counts' h ih =>
    have hs := scan_touched ar i rest counts
    rw [h] at hs
    rw [pairUp_of_some h]
    have hrest := pairUp_touched ar (before ++ after) counts'
    obtain ⟨hi, hj⟩ := scan_settled h (hl i List.mem_cons_self)
      fun e he => hl e (List.mem_cons_of_mem _ he)
    intro e he
    rcases List.mem_cons.mp he with rfl | he
    · exact hi.touched hrest
    rcases List.mem_cons.mp he with rfl | he
    · exact hj.touched hrest
    · refine ih (fun e he => ?_) e he
      rw [hs.length]
      refine hl e (List.mem_cons_of_mem _ ?_)
      rw [scan_eq_some h]
      simp only [List.mem_append, List.mem_cons] at he ⊢
      tauto

/-- `Wait` of others. -/
theorem foldl_wait_other {l : List QueueElement} {k : Nat} (hk : ∀ e ∈ l, e.waitCount ≠ k)
    (counts : List Int) : (l.foldl QueueElement.wait counts)[k]? = counts[k]? := by
  induction l generalizing counts with
  | nil => rfl
  | cons e rest ih =>
    rw [List.foldl_cons, ih (fun e he => hk e (List.mem_cons_of_mem _ he)), QueueElement.wait,
      List.getElem?_modify_ne _ _ (hk e List.mem_cons_self)]

end Touched

/-! ## The invariant -/

/-- Every element queued, waiting or matched. -/
def everyone (mm : MyMatchMaker) : List QueueElement := mm.waitQueue ++ players mm.matchQueue

structure Coherent (ar : Arith) (mm : MyMatchMaker) : Prop where
  sorted : OrderedSet.Sorted (key ar) mm.waitQueue
  positive : ∀ e ∈ mm.everyone, 0 < e.id
  /-- no two elements share a counter -/
  owned : (mm.everyone.map (·.waitCount)).Nodup
  counted : ∀ e ∈ mm.everyone, e.waitCount < mm.counts.length
  settled : ∀ e ∈ players mm.matchQueue, Settled mm.counts e

theorem coherent_start : Coherent ar start where
  sorted := List.Pairwise.nil
  positive e he := by cases he
  owned := List.nodup_nil
  counted e he := by cases he
  settled e he := by cases he

/-- An element with a counter of its own comes into `wait_queue`. -/
theorem Coherent.insert (h : Coherent ar mm) {elem : QueueElement} (hid : 0 < elem.id)
    (hown : elem.waitCount ∉ mm.everyone.map (·.waitCount))
    (hcount : elem.waitCount < mm.counts.length) (visited : List Nat) :
    Coherent ar (mm.insert ar elem visited) := by
  have ht := compared_touched mm elem visited
  rcases OrderedSet.insert_cases (less_ordersBy ar) h.sorted elem with ⟨_, heq⟩ | ⟨_, hperm⟩
  · have hall : (mm.insert ar elem visited).everyone = mm.everyone :=
      congrArg (· ++ players mm.matchQueue) heq
    refine ⟨OrderedSet.sorted_insert (less_ordersBy ar) h.sorted elem, ?_, ?_, ?_, ?_⟩
    · rw [hall]
      exact h.positive
    · rw [hall]
      exact h.owned
    · rw [hall]
      intro e he
      exact lt_of_lt_of_eq (h.counted e he) ht.length.symm
    · intro e he
      exact (h.settled e he).touched ht
  · have hall : (mm.insert ar elem visited).everyone.Perm (elem :: mm.everyone) :=
      hperm.append_right (players mm.matchQueue)
    refine ⟨OrderedSet.sorted_insert (less_ordersBy ar) h.sorted elem, ?_, ?_, ?_, ?_⟩
    · intro e he
      rcases List.mem_cons.mp (hall.mem_iff.mp he) with rfl | he
      · exact hid
      · exact h.positive e he
    · exact (hall.map _).nodup_iff.mpr (List.nodup_cons.mpr ⟨hown, h.owned⟩)
    · intro e he
      refine lt_of_lt_of_eq ?_ ht.length.symm
      rcases List.mem_cons.mp (hall.mem_iff.mp he) with rfl | he
      · exact hcount
      · exact h.counted e he
    · intro e he
      exact (h.settled e he).touched ht

theorem Coherent.newCounter (h : Coherent ar mm) (c : Int) :
    Coherent ar { mm with counts := mm.counts ++ [c] } where
  sorted := h.sorted
  positive := h.positive
  owned := h.owned
  counted e he := by
    have hlt := h.counted e he
    rw [List.length_append]
    exact Nat.lt_add_right _ hlt
  settled e he hg := by
    have hlt := h.counted e (List.mem_append_right _ he)
    rw [List.getElem?_append_left hlt]
    exact h.settled e he hg

theorem coherent_enter (h : Coherent ar mm) (id : AccountId) (win draw loose : Int)
    (visited : List Nat) : Coherent ar (mm.enter ar id win draw loose visited) := by
  unfold enter
  split
  · exact h
  · rename_i hid
    refine (h.newCounter 1).insert (not_le.mp hid) ?_ ?_ visited
    · intro hmem
      obtain ⟨e, he, hk⟩ := List.mem_map.mp hmem
      have hlt := h.counted e he
      change e.waitCount = mm.counts.length at hk
      omega
    · rw [List.length_append]
      exact Nat.lt_succ_self _

/-- Elements leave the queues. -/
theorem Coherent.sub {mm' : MyMatchMaker} (h : Coherent ar mm)
    (hw : mm'.waitQueue.Sublist mm.waitQueue) (hm : mm'.matchQueue.Sublist mm.matchQueue)
    (hc : mm'.counts = mm.counts) : Coherent ar mm' := by
  have hp : (players mm'.matchQueue).Sublist (players mm.matchQueue) := hm.flatMap _
  have hall : mm'.everyone.Sublist mm.everyone := hw.append hp
  refine ⟨h.sorted.sublist hw, fun e he => h.positive e (hall.subset he), ?_, ?_, ?_⟩
  · exact h.owned.sublist (hall.map _)
  · rw [hc]
    exact fun e he => h.counted e (hall.subset he)
  · rw [hc]
    exact fun e he => h.settled e (hp.subset he)

theorem coherent_exit (h : Coherent ar mm) (id : AccountId) : Coherent ar (mm.exit id) :=
  h.sub List.eraseP_sublist (List.Sublist.refl _) rfl

theorem coherent_popMatch (h : Coherent ar mm) : Coherent ar mm.popMatch :=
  h.sub (List.Sublist.refl _) (List.tail_sublist _) rfl

theorem coherent_process (h : Coherent ar mm) : Coherent ar (mm.process ar) := by
  have hperm := pairUp_perm ar mm.waitQueue mm.counts
  have ht := pairUp_touched ar mm.waitQueue mm.counts
  have hall : (mm.process ar).everyone.Perm mm.everyone := by
    have hp : (mm.process ar).everyone = (pairUp ar mm.waitQueue mm.counts).2.1 ++
        (players mm.matchQueue ++ players (pairUp ar mm.waitQueue mm.counts).1) :=
      congrArg ((pairUp ar mm.waitQueue mm.counts).2.1 ++ ·) List.flatMap_append
    rw [hp]
    refine (List.perm_append_comm.append_left _).trans ?_
    rw [← List.append_assoc]
    exact (List.perm_append_comm.trans hperm).append_right _
  have hlen : (mm.process ar).counts.length = mm.counts.length :=
    (QueueElement.length_foldl_wait _ _).trans ht.length
  have hown : ((mm.process ar).everyone.map (·.waitCount)).Nodup :=
    (hall.map _).nodup_iff.mpr h.owned
  refine ⟨h.sorted.sublist (pairUp_sublist ar _ _), ?_, hown, ?_, ?_⟩
  · exact fun e he => h.positive e (hall.mem_iff.mp he)
  · intro e he
    rw [hlen]
    exact h.counted e (hall.mem_iff.mp he)
  · intro e he hg
    -- the players left over have other counters, so that their `Wait` does not matter
    have hother : ∀ x ∈ (mm.process ar).waitQueue, x.waitCount ≠ e.waitCount := by
      have hdis := List.disjoint_of_nodup_append (List.map_append ▸ hown)
      exact fun x hx hk => hdis (List.mem_map.mpr ⟨x, hx, hk⟩) (List.mem_map_of_mem he)
    have hs : Settled (pairUp ar mm.waitQueue mm.counts).2.2 e := by
      have hm : e ∈ players mm.matchQueue ++ players (pairUp ar mm.waitQueue mm.counts).1 :=
        List.flatMap_append ▸ he
      rcases List.mem_append.mp hm with hm | hm
      · exact (h.settled e hm).touched ht
      · exact pairUp_settled _ _ (fun x hx => h.counted x (List.mem_append_left _ hx)) e hm
    exact (foldl_wait_other hother _).trans (hs hg)

end MyMatchMaker
end DrgbServer.Match
