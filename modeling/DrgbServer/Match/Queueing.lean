import DrgbServer.Lib.Transition
import DrgbServer.Match.MyMatchMaker

/-! # Runs of the matchmaker: who is queued, and how often

The public operations in any order. `Enter` of an element takes one that
`GetMatch` has returned before, as `MatchMake` does, so the state remembers those.

Identity is the account id but `wait_queue` orders by ratio and id, so an
account whose statistics have changed is inserted a second time.
`unique_iff_sameRatio` says that this is the only way to lose uniqueness.
`Exit` looks at one element of `wait_queue`, so it is effective for an account
that stands there at most once and in no match already made (`exit_effective`). -/
namespace DrgbServer.Match
open DrgbServer.Utils DrgbServer.Lib DrgbServer.Lib.Transition

structure Lobby where
  mm : MyMatchMaker
  /-- every element `GetMatch` has returned -/
  returned : List QueueElement

inductive Op where
  | enter (id : AccountId) (win draw loose : Int) (visited : List Nat)
  | reenter (elem : QueueElement) (visited : List Nat)
  | exit (id : AccountId)
  | process
  | getMatch
  | popMatch

namespace Lobby
open MyMatchMaker

def start : Lobby := ⟨MyMatchMaker.start, []⟩

def step (ar : Arith) (s : Lobby) : Op → Option Lobby
  | .enter id win draw loose visited =>
    some { s with mm := s.mm.enter ar id win draw loose visited }
  | .reenter elem visited =>
    if elem ∈ s.returned then some { s with mm := s.mm.enterElem ar elem visited } else none
  | .exit id => some { s with mm := s.mm.exit id }
  | .process => some { s with mm := s.mm.process ar }
  | .getMatch =>
    some ⟨s.mm.getMatch.2, s.mm.getMatch.1.1 :: s.mm.getMatch.1.2 :: s.returned⟩
  | .popMatch => some { s with mm := s.mm.popMatch }

/-- The element an operation offers to `wait_queue`. -/
def brings (s : Lobby) : Op → Option QueueElement
  | .enter id win draw loose _ =>
    if id ≤ 0 then none else some ⟨id, win, draw, loose, s.mm.counts.length⟩
  | .reenter elem _ => if elem.id ≤ 0 then none else some elem
  | .exit _ | .process | .getMatch | .popMatch => none

/-- **What a step can do to the two queues.** -/
theorem step_cases {ar : Arith} {s t : Lobby} {op : Op} (h : step ar s op = some t) :
    (∃ e, s.brings op = some e ∧
      t.mm.waitQueue = OrderedSet.insert (QueueElement.less ar) e s.mm.waitQueue ∧
      t.mm.matchQueue = s.mm.matchQueue) ∨
    (s.brings op = none ∧ t.mm.waitQueue = s.mm.waitQueue ∧
      (t.mm.matchQueue = s.mm.matchQueue ∨ t.mm.matchQueue = s.mm.matchQueue.tail)) ∨
    (∃ id, op = .exit id ∧ t.mm.waitQueue = s.mm.waitQueue.eraseP (fun e => e.id == id) ∧
      t.mm.matchQueue = s.mm.matchQueue) ∨
    (op = .process ∧
      t.mm.waitQueue = (pairUp ar s.mm.waitQueue s.mm.counts).2.1 ∧
      t.mm.matchQueue = s.mm.matchQueue ++ (pairUp ar s.mm.waitQueue s.mm.counts).1) := by
  cases op with
  | enter id win draw loose visited =>
    cases h
    by_cases hid : id ≤ 0
    · refine .inr (.inl ⟨if_pos hid, ?_⟩)
      simp [enter, hid]
    · refine .inl ⟨⟨id, win, draw, loose, s.mm.counts.length⟩, if_neg hid, ?_⟩
      simp [enter, hid, MyMatchMaker.insert]
  | reenter elem visited =>
    simp only [step] at h
    split at h
    · cases h
      by_cases hid : elem.id ≤ 0
      · refine .inr (.inl ⟨if_pos hid, ?_⟩)
        simp [enterElem, hid]
      · refine .inl ⟨elem, if_neg hid, ?_⟩
        simp [enterElem, hid, MyMatchMaker.insert]
    · cases h
  | exit id =>
    cases h
    exact .inr (.inr (.inl ⟨id, rfl, rfl, rfl⟩))
  | process =>
    cases h
    exact .inr (.inr (.inr ⟨rfl, rfl, rfl⟩))
  | getMatch =>
    cases h
    exact .inr (.inl ⟨rfl, getMatch_waitQueue s.mm, .inl (getMatch_matchQueue s.mm)⟩)
  | popMatch =>
    cases h
    exact .inr (.inl ⟨rfl, rfl, .inr rfl⟩)

/-! ## Uniqueness -/

/-- No account waits twice and no match has one account on both sides. -/
def Unique (s : Lobby) : Prop :=
  (s.mm.waitQueue.map (·.id)).Nodup ∧ ∀ m ∈ s.mm.matchQueue, m.1.id ≠ m.2.id

/-- An element offered for an account that already waits has the ratio of the
waiting one. -/
def SameRatio (ar : Arith) (s : Lobby) (op : Op) : Prop :=
  ∀ e, s.brings op = some e → ∀ w ∈ s.mm.waitQueue, w.id = e.id → w.ratio ar = e.ratio ar

/-- The run invariant. -/
structure Inv (ar : Arith) (s : Lobby) : Prop where
  unique : s.Unique
  sorted : OrderedSet.Sorted (key ar) s.mm.waitQueue

theorem start_inv (ar : Arith) : start.Inv ar :=
  ⟨⟨List.nodup_nil, fun _ h => nomatch h⟩, List.Pairwise.nil⟩

/-- Matches drawn from distinct accounts join distinct accounts. -/
theorem ne_of_nodup_players {ms : List MatchPair} (h : ((players ms).map (·.id)).Nodup) :
    ∀ m ∈ ms, m.1.id ≠ m.2.id := by
  induction ms with
  | nil => intro m hm; cases hm
  | cons n rest ih =>
    have hcons : players (n :: rest) = n.1 :: n.2 :: players rest := rfl
    rw [hcons, List.map_cons, List.map_cons, List.nodup_cons, List.nodup_cons] at h
    intro m hm
    rcases List.mem_cons.mp hm with rfl | hm
    · exact fun he => h.1 (he ▸ List.mem_cons_self)
    · exact ih h.2.2 m hm

theorem nodup_pairUp (ar : Arith) {l : List QueueElement} (counts : List Int)
    (h : (l.map (·.id)).Nodup) :
    ((players (pairUp ar l counts).1).map (·.id)).Nodup ∧
      ((pairUp ar l counts).2.1.map (·.id)).Nodup := by
  have hp := ((pairUp_perm ar l counts).map (·.id)).nodup_iff.mpr h
  rw [List.map_append, List.nodup_append] at hp
  exact ⟨hp.1, hp.2.1⟩

/-- An accepted element of an account that does not wait keeps the ids distinct. -/
theorem nodup_insert {ar : Arith} {l : List QueueElement} {e : QueueElement}
    (hs : OrderedSet.Sorted (key ar) l) (hn : (l.map (·.id)).Nodup)
    (hr : ∀ w ∈ l, w.id = e.id → w.ratio ar = e.ratio ar) :
    ((OrderedSet.insert (QueueElement.less ar) e l).map (·.id)).Nodup := by
  rcases OrderedSet.insert_cases (less_ordersBy ar) hs e with ⟨_, heq⟩ | ⟨hk, hp⟩
  · rwa [heq]
  · rw [(hp.map (·.id)).nodup_iff, List.map_cons, List.nodup_cons]
    refine ⟨?_, hn⟩
    intro hmem
    obtain ⟨w, hw, hid⟩ := List.mem_map.mp hmem
    exact hk w hw (key_eq_iff.mpr ⟨hr w hw hid, hid⟩)

theorem step_inv {ar : Arith} (s : Lobby) (op : Op) (t : Lobby) (hi : s.Inv ar)
    (hok : SameRatio ar s op) (h : step ar s op = some t) : t.Inv ar := by
  obtain ⟨⟨hn, hd⟩, hs⟩ := hi
  rcases step_cases h with ⟨e, he, hw, hm⟩ | ⟨_, hw, hm⟩ | ⟨id, _, hw, hm⟩ | ⟨_, hw, hm⟩
  · refine ⟨⟨?_, ?_⟩, ?_⟩
    · rw [hw]
      exact nodup_insert hs hn (hok e he)
    · rw [hm]
      exact hd
    · rw [hw]
      exact OrderedSet.sorted_insert (less_ordersBy ar) hs e
  · refine ⟨⟨hw ▸ hn, ?_⟩, hw ▸ hs⟩
    intro m hmem
    rcases hm with hm | hm <;> rw [hm] at hmem
    · exact hd m hmem
    · exact hd m (List.mem_of_mem_tail hmem)
  · have hsub : (s.mm.waitQueue.eraseP fun e => e.id == id).Sublist s.mm.waitQueue :=
      List.eraseP_sublist
    refine ⟨⟨?_, hm ▸ hd⟩, ?_⟩
    · rw [hw]
      exact hn.sublist (hsub.map _)
    · rw [hw]
      exact hs.sublist hsub
  · obtain ⟨hpl, hk⟩ := nodup_pairUp ar s.mm.counts hn
    refine ⟨⟨?_, ?_⟩, ?_⟩
    · rw [hw]
      exact hk
    · rw [hm]
      intro m hmem
      rcases List.mem_append.mp hmem with hmem | hmem
      · exact hd m hmem
      · exact ne_of_nodup_players hpl m hmem
    · rw [hw]
      exact hs.sublist (pairUp_sublist ar _ _)

/-- An element with a new ratio goes in beside the one that waits. -/
theorem step_breaks {ar : Arith} (s : Lobby) (op : Op) (t : Lobby) (hi : s.Inv ar)
    (hno : ¬ SameRatio ar s op) (h : step ar s op = some t) : ¬ t.Unique := by
  obtain ⟨⟨hn, _⟩, hs⟩ := hi
  simp only [SameRatio, not_forall] at hno
  obtain ⟨e, he, w, hw, hid, hne⟩ := hno
  rintro ⟨hn', _⟩
  rcases step_cases h with ⟨e', he', hwt, _⟩ | ⟨hb, _⟩ | ⟨id, rfl, _⟩ | ⟨rfl, _⟩
  · rw [he] at he'
    cases he'
    rw [hwt] at hn'
    rcases OrderedSet.insert_cases (less_ordersBy ar) hs e with ⟨⟨y, hy, hk⟩, _⟩ | ⟨_, hp⟩
    · -- the equivalent element would be a second one of the account
      obtain ⟨hr, hyid⟩ := key_eq_iff.mp hk
      have hyw : y = w := List.inj_on_of_nodup_map hn hy hw (hyid.trans hid.symm)
      exact hne (hyw ▸ hr)
    · rw [(hp.map (·.id)).nodup_iff, List.map_cons, List.nodup_cons] at hn'
      exact hn'.1 (hid ▸ List.mem_map_of_mem hw)
  · rw [hb] at he
    cases he
  · cases he
  · cases he

/-- **Uniqueness holds along a run exactly if every account that enters again
while it waits does so with an unchanged ratio.** -/
theorem unique_iff_sameRatio (ar : Arith) (ops : List Op) :
    Always (step ar) Unique start ops ↔ Meets (step ar) (SameRatio ar) start ops :=
  always_iff_meets (I := Inv ar) (fun _ hi => hi.unique) step_inv step_breaks ops (start_inv ar)

/-- Exact arithmetic and the coverage of the default configuration. -/
def exact : Arith := ⟨fun q => q, 1 / 10⟩

/-- An account with one game won enters, and enters again after it has lost one. -/
theorem not_unique_after_loss :
    ¬ Always (step exact) Unique start [.enter 1 1 0 0 [], .enter 1 1 0 1 [0]] := by
  rintro ⟨_, _, hn, _⟩
  revert hn
  decide +kernel

/-! ## Leaving -/

/-- The account is in neither queue. -/
def Gone (id : AccountId) (s : Lobby) : Prop :=
  (∀ e ∈ s.mm.waitQueue, e.id ≠ id) ∧ ∀ e ∈ players s.mm.matchQueue, e.id ≠ id

/-- `GetMatch` gives no match with the account. -/
def NotMatched (id : AccountId) (s : Lobby) : Prop :=
  s.mm.isThereMatch = true → s.mm.getMatch.1.1.id ≠ id ∧ s.mm.getMatch.1.2.id ≠ id

/-- The account is in no match already made and waits at most once. -/
def Leavable (id : AccountId) (s : Lobby) : Prop :=
  (∀ e ∈ players s.mm.matchQueue, e.id ≠ id) ∧
    s.mm.waitQueue.countP (fun e => e.id == id) ≤ 1

instance (id : AccountId) : DecidablePred (Leavable id) :=
  fun s => inferInstanceAs (Decidable (_ ∧ s.mm.waitQueue.countP (fun e => e.id == id) ≤ 1))

/-- The operation enters the account. -/
def Enters (id : AccountId) : Op → Prop
  | .enter id' _ _ _ _ => id' = id
  | .reenter elem _ => elem.id = id
  | _ => False

theorem brings_ne_of_not_enters {s : Lobby} {op : Op} {e : QueueElement} {id : AccountId}
    (hn : ¬ Enters id op) (h : s.brings op = some e) : e.id ≠ id := by
  cases op with
  | enter id' win draw loose visited =>
    simp only [brings] at h
    split at h
    · cases h
    · cases h
      exact hn
  | reenter elem visited =>
    simp only [brings] at h
    split at h
    · cases h
    · cases h
      exact hn
  | exit _ => cases h
  | process => cases h
  | getMatch => cases h
  | popMatch => cases h

/-- Once gone, an account stays gone until it enters. -/
theorem step_gone {ar : Arith} {id : AccountId} (s : Lobby) (op : Op) (t : Lobby)
    (hg : Gone id s) (hn : ¬ Enters id op) (h : step ar s op = some t) : Gone id t := by
  obtain ⟨hw, hm⟩ := hg
  rcases step_cases h with ⟨e, he, hwt, hmt⟩ | ⟨_, hwt, hmt⟩ | ⟨id', _, hwt, hmt⟩ | ⟨_, hwt, hmt⟩
  · refine ⟨?_, hmt ▸ hm⟩
    intro x hx
    rw [hwt] at hx
    rcases OrderedSet.mem_of_mem_insert _ hx with rfl | hx
    · exact brings_ne_of_not_enters hn he
    · exact hw x hx
  · refine ⟨hwt ▸ hw, ?_⟩
    rcases hmt with hmt | hmt <;> rw [hmt]
    · exact hm
    · intro x hx
      obtain ⟨m, hmem, hxm⟩ := mem_players.mp hx
      exact hm x (mem_players.mpr ⟨m, List.mem_of_mem_tail hmem, hxm⟩)
  · refine ⟨?_, hmt ▸ hm⟩
    intro x hx
    rw [hwt] at hx
    exact hw x (List.mem_of_mem_eraseP hx)
  · have hperm := pairUp_perm ar s.mm.waitQueue s.mm.counts
    refine ⟨?_, ?_⟩
    · intro x hx
      rw [hwt] at hx
      exact hw x (hperm.subset (List.mem_append_right _ hx))
    · intro x hx
      obtain ⟨m, hmem, hxm⟩ := mem_players.mp hx
      rw [hmt] at hmem
      rcases List.mem_append.mp hmem with hmem | hmem
      · exact hm x (mem_players.mpr ⟨m, hmem, hxm⟩)
      · have hp := mem_players.mpr ⟨m, hmem, hxm⟩
        exact hw x (hperm.subset (List.mem_append_left _ hp))

/-- `Exit` removes the one element there is. -/
theorem forall_ne_eraseP {id : AccountId} {l : List QueueElement}
    (h : l.countP (fun e => e.id == id) ≤ 1) :
    ∀ e ∈ l.eraseP (fun e => e.id == id), e.id ≠ id := by
  induction l with
  | nil => intro e he; cases he
  | cons x rest ih =>
    intro e he
    by_cases hx : x.id = id
    · rw [List.eraseP_cons_of_pos (by simpa using hx)] at he
      rw [List.countP_cons_of_pos (by simpa using hx)] at h
      have hz : rest.countP (fun e => e.id == id) = 0 := by omega
      simpa using List.countP_eq_zero.mp hz e he
    · rw [List.eraseP_cons_of_neg (by simpa using hx)] at he
      rw [List.countP_cons_of_neg (by simpa using hx)] at h
      rcases List.mem_cons.mp he with rfl | he
      · exact hx
      · exact ih h e he

theorem gone_exit {ar : Arith} {id : AccountId} {s t : Lobby} (hl : Leavable id s)
    (h : step ar s (.exit id) = some t) : Gone id t := by
  cases h
  exact ⟨forall_ne_eraseP hl.2, hl.1⟩

theorem Gone.notMatched {id : AccountId} {s : Lobby} (h : Gone id s) : NotMatched id s := by
  intro hm
  have hmem := getMatch_mem hm
  exact ⟨h.2 _ (mem_players.mpr ⟨_, hmem, .inl rfl⟩), h.2 _ (mem_players.mpr ⟨_, hmem, .inr rfl⟩)⟩

/-- **`Exit` is effective when the account can leave**: after it, and until the
account enters again, no match with the account is handed out. -/
theorem exit_effective (ar : Arith) (before after : List Op) (id : AccountId) {s t : Lobby}
    (hs : run (step ar) start before = some s) (hl : Leavable id s)
    (hn : ∀ op ∈ after, ¬ Enters id op)
    (ht : run (step ar) start (before ++ .exit id :: after) = some t) : NotMatched id t := by
  rw [run_append, hs, Option.bind_some] at ht
  obtain ⟨u, hu, ht⟩ := Option.bind_eq_some_iff.mp ht
  exact (run_invariant_labels step_gone (gone_exit hl hu) hn ht).notMatched

/-- The account waits once and leaves; two others are matched. -/
theorem exit_effective_waiting :
    ∃ t, run (step exact) start
        ([.enter 1 1 0 0 [], .enter 2 1 0 0 [0]] ++ .exit 1 :: [.enter 3 1 0 0 [0], .process]) =
      some t ∧ NotMatched 1 t := by
  refine ⟨_, rfl, ?_⟩
  exact exit_effective exact [.enter 1 1 0 0 [], .enter 2 1 0 0 [0]]
    [.enter 3 1 0 0 [0], .process] 1 rfl (by decide +kernel) (by simp [Enters]) rfl

/-- `Exit` after the match is made: `GetMatch` still returns it. -/
theorem exit_not_effective_matched :
    ∃ t, run (step exact) start [.enter 1 1 0 0 [], .enter 2 1 0 0 [0], .process, .exit 1] =
      some t ∧ ¬ NotMatched 1 t := by
  have hq : (start.mm.enter exact 1 1 0 0 []).enter exact 2 1 0 0 [0] =
      ⟨[⟨1, 1, 0, 0, 0⟩, ⟨2, 1, 0, 0, 1⟩], [], [1, 1]⟩ := by decide +kernel
  have hs : scan exact ⟨1, 1, 0, 0, 0⟩ [⟨2, 1, 0, 0, 1⟩] [1, 1] =
      (some ([], ⟨2, 1, 0, 0, 1⟩, []), [1, 1]) := by decide +kernel
  refine ⟨_, rfl, ?_⟩
  simp only [hq, process, pairUp_of_some hs, MyMatchMaker.exit, NotMatched, List.nil_append,
    pairUp]
  decide

end Lobby
end DrgbServer.Match
