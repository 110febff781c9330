import DrgbServer.Lib.BiTable
import DrgbServer.Lib.Simulation
import DrgbServer.Utils.DeMap

/-! # `DeMap` is a table with two keys

Any sequence of the ten methods, beginning with an empty map, gives the answers of the
set of triples. `operator[]` in the lookups finds every key it is used with, because
the three maps are consistent before every method. -/

namespace DrgbServer.Utils
open Std DrgbServer.Lib DrgbServer.Lib.Simulation

namespace DeMap

inductive Op (L R V : Type) where
  | insert (l : L) (r : R) (v : V)
  | findLKey (l : L)
  | findRKey (r : R)
  | insertLKeyValue (l : L) (v : V)
  | insertRKeyValue (r : R) (v : V)
  | eraseLKey (l : L)
  | eraseRKey (r : R)
  | clear
  | size
  | getAll

/-- What a method returns. The triples `GetAll` lists are counted, not ordered. -/
inductive Answer (L R V : Type) where
  | done
  | flag (b : Bool)
  | right (found : Option (R × V))
  | left (found : Option (L × V))
  | triple (found : Option (L × R × V))
  | count (n : Nat)
  | all (listed : Multiset (L × R × V))

variable {L R V : Type} [Ord L] [TransOrd L] [Ord R] [TransOrd R]

def perform [Inhabited L] [Inhabited R] [Inhabited V] (m : DeMap L R V) :
    Op L R V → Answer L R V × DeMap L R V
  | .insert l r v => (.flag (m.insert l r v).1, (m.insert l r v).2)
  | .findLKey l => (.right (m.findLKey l).1, (m.findLKey l).2)
  | .findRKey r => (.left (m.findRKey r).1, (m.findRKey r).2)
  | .insertLKeyValue l v => (.flag (m.insertLKeyValue l v).1, (m.insertLKeyValue l v).2)
  | .insertRKeyValue r v => (.flag (m.insertRKeyValue r v).1, (m.insertRKeyValue r v).2)
  | .eraseLKey l => (.triple (m.eraseLKey l).1, (m.eraseLKey l).2)
  | .eraseRKey r => (.triple (m.eraseRKey r).1, (m.eraseRKey r).2)
  | .clear => (.done, m.clear)
  | .size => (.count m.size, m)
  | .getAll => (.all m.getAll.1, m.getAll.2)

open Classical in
/-- What the set of triples answers. -/
noncomputable def respond (t : BiTable L R V) : Op L R V → Answer L R V × BiTable L R V
  | .insert l r v => (.flag (t.insert l r v).1, (t.insert l r v).2)
  | .findLKey l => (.right ((t.byLeft l).map (·.2)), t)
  | .findRKey r => (.left ((t.byRight r).map fun x => (x.1, x.2.2)), t)
  | .insertLKeyValue l v => (.flag (t.byLeft l).isSome, t.setLeft l v)
  | .insertRKeyValue r v => match t.byRight r with
    | some x => (.flag true, t.setLeft x.1 v)
    | none => (.flag false, t)
  | .eraseLKey l => (.triple (t.byLeft l), t.eraseLeft l)
  | .eraseRKey r => match t.byRight r with
    | some x => (.triple (some x), t.eraseLeft x.1)
    | none => (.triple none, t)
  | .clear => (.done, BiTable.empty)
  | .size => (.count t.triples.card, t)
  | .getAll => (.all t.triples.val, t)

/-- The maps are consistent and hold the triples. -/
structure Represents (m : DeMap L R V) (t : BiTable L R V) : Prop where
  consistent : m.Consistent
  has : ∀ l r v, m.Has l r v ↔ (l, r, v) ∈ t.triples

variable {m : DeMap L R V} {t : BiTable L R V} {l : L} {r : R} {v : V}

theorem represents_empty : Represents (empty : DeMap L R V) BiTable.empty := by
  refine ⟨consistent_empty, fun l r v => ?_⟩
  simp [Has, empty, BiTable.empty]

theorem Represents.mem_lrm (h : Represents m t) : l ∈ m.lrm ↔ ∃ r v, (l, r, v) ∈ t.triples := by
  constructor
  · intro hl
    obtain ⟨r, v, hh⟩ := h.consistent.has_of_mem hl
    exact ⟨r, v, (h.has l r v).mp hh⟩
  · intro hgiven
    obtain ⟨r, v, hx⟩ := hgiven
    rw [ExtTreeMap.mem_iff_isSome_getElem?, ((h.has l r v).mpr hx).1]
    rfl

theorem Represents.mem_rlm (h : Represents m t) : r ∈ m.rlm ↔ ∃ l v, (l, r, v) ∈ t.triples := by
  constructor
  · intro hr
    obtain ⟨l, v, _, hh⟩ := h.consistent.has_of_mem_rlm hr
    exact ⟨l, v, (h.has l r v).mp hh⟩
  · intro hgiven
    obtain ⟨l, v, hx⟩ := hgiven
    have hl := (h.consistent.inverse l r).mp ((h.has l r v).mpr hx).1
    rw [ExtTreeMap.mem_iff_isSome_getElem?, hl]
    rfl

theorem Represents.byLeft_eq_none (h : Represents m t) : t.byLeft l = none ↔ l ∉ m.lrm := by
  rw [BiTable.byLeft_eq_none, h.mem_lrm]
  constructor
  · rintro hn ⟨r, v, hx⟩
    exact hn _ hx rfl
  · rintro hn ⟨l', r, v⟩ hx rfl
    exact hn ⟨r, v, hx⟩

theorem Represents.byRight_eq_none (h : Represents m t) : t.byRight r = none ↔ r ∉ m.rlm := by
  rw [BiTable.byRight_eq_none, h.mem_rlm]
  constructor
  · rintro hn ⟨l, v, hx⟩
    exact hn _ hx rfl
  · rintro hn ⟨l, r', v⟩ hx rfl
    exact hn ⟨l, v, hx⟩

/-- The triple of a left key, on both sides. -/
theorem Represents.left_cases (h : Represents m t) (l : L) :
    (l ∉ m.lrm ∧ t.byLeft l = none) ∨
    ∃ r v, m.Has l r v ∧ t.byLeft l = some (l, r, v) := by
  by_cases hl : l ∈ m.lrm
  · obtain ⟨r, v, hh⟩ := h.consistent.has_of_mem hl
    exact .inr ⟨r, v, hh, BiTable.byLeft_eq_some.mpr ⟨(h.has l r v).mp hh, rfl⟩⟩
  · exact .inl ⟨hl, h.byLeft_eq_none.mpr hl⟩

/-- The triple of a right key, on both sides. -/
theorem Represents.right_cases (h : Represents m t) (r : R) :
    (r ∉ m.rlm ∧ t.byRight r = none) ∨
    ∃ l v, m.rlm[r]? = some l ∧ m.Has l r v ∧ t.byRight r = some (l, r, v) := by
  by_cases hr : r ∈ m.rlm
  · obtain ⟨l, v, hl, hh⟩ := h.consistent.has_of_mem_rlm hr
    exact .inr ⟨l, v, hl, hh, BiTable.byRight_eq_some.mpr ⟨(h.has l r v).mp hh, rfl⟩⟩
  · exact .inl ⟨hr, h.byRight_eq_none.mpr hr⟩

/-- Writing by the right key is writing by its left key. -/
theorem insertRKeyValue_of_has [Inhabited L] (hr : m.rlm[r]? = some l) (h : m.Has l r v) (w : V) :
    m.insertRKeyValue r w = m.insertLKeyValue l w := by
  have hm : r ∈ m.rlm := by
    rw [ExtTreeMap.mem_iff_isSome_getElem?, hr]
    rfl
  have hk : l ∈ m.kvm := by
    rw [ExtTreeMap.mem_iff_isSome_getElem?, h.2]
    rfl
  simp only [DeMap.insertRKeyValue, DeMap.insertLKeyValue, hm, hk, not_true_eq_false, ↓reduceIte,
    OrdMap.at_of_some hr]

/-- Erasing by the right key is erasing by its left key. -/
theorem eraseRKey_of_has [Inhabited L] [Inhabited R] [Inhabited V] (hr : m.rlm[r]? = some l)
    (h : m.Has l r v) : m.eraseRKey r = m.eraseLKey l := by
  have hm : r ∈ m.rlm := by
    rw [ExtTreeMap.mem_iff_isSome_getElem?, hr]
    rfl
  rw [eraseLKey_of_has h]
  simp only [DeMap.eraseRKey, hm, not_true_eq_false, ↓reduceIte, OrdMap.at_of_some hr,
    OrdMap.at_of_some h.2]

/-! ## One method -/

variable [LawfulEqOrd L]

theorem Represents.insertLKeyValue (h : Represents m t) (l : L) (v : V) :
    (m.insertLKeyValue l v).1 = (t.byLeft l).isSome ∧
      Represents (m.insertLKeyValue l v).2 (t.setLeft l v) := by
  have hcons := consistent_insertLKeyValue h.consistent l v
  rcases h.left_cases l with ⟨hl, hb⟩ | ⟨r, w, hh, hb⟩
  · have hk : l ∉ m.kvm := fun hk => hl ((h.consistent.valued l).mp hk)
    have hm : m.insertLKeyValue l v = (false, m) := if_pos hk
    rw [hm, hb]
    refine ⟨rfl, h.consistent, fun l' r' v' => ?_⟩
    rw [h.has, BiTable.mem_setLeft]
    have hno := BiTable.byLeft_eq_none.mp hb
    constructor
    · intro hx
      exact .inr ⟨hno _ hx, hx⟩
    · intro hgiven
      rcases hgiven with ⟨rfl, _, w, hw⟩ | ⟨_, hx⟩
      · exact absurd rfl (hno (l', r', w) hw)
      · exact hx
  · have hk : l ∈ m.kvm := by
      rw [ExtTreeMap.mem_iff_isSome_getElem?, hh.2]
      rfl
    have hm : m.insertLKeyValue l v = (true, { m with kvm := m.kvm.insert l v }) :=
      if_neg (not_not.mpr hk)
    rw [hm] at hcons ⊢
    rw [hb]
    refine ⟨rfl, hcons, fun l' r' v' => ?_⟩
    rw [BiTable.mem_setLeft]
    have hold := fun w' => h.has l' r' w'
    simp only [Has] at hold hh ⊢
    grind

/-- There are as many left keys as triples. -/
theorem Represents.size (h : Represents m t) : m.size = t.triples.card := by
  classical
  have hkeys : m.lrm.keys.toFinset = t.triples.image (·.1) := by
    ext l
    rw [List.mem_toFinset, ExtTreeMap.mem_keys, h.mem_lrm, Finset.mem_image]
    constructor
    · intro hgiven
      obtain ⟨r, v, hx⟩ := hgiven
      exact ⟨_, hx, rfl⟩
    · intro hgiven
      obtain ⟨⟨l', r, v⟩, hx, rfl⟩ := hgiven
      exact ⟨r, v, hx⟩
  have hinj : Set.InjOn (·.1) (t.triples : Set (L × R × V)) :=
    fun x hx y hy hxy => t.left x hx y hy hxy
  calc m.size = m.lrm.keys.length := ExtTreeMap.length_keys.symm
    _ = m.lrm.keys.toFinset.card := (List.toFinset_card_of_nodup ExtTreeMap.nodup_keys).symm
    _ = t.triples.card := by rw [hkeys, Finset.card_image_of_injOn hinj]

/-- `GetAll` lists each triple once. -/
theorem Represents.getAll [Inhabited R] (h : Represents m t) :
    (m.getAll.1 : Multiset (L × R × V)) = t.triples.val ∧ m.getAll.2 = m := by
  rw [getAll_of_consistent h.consistent]
  refine ⟨(Multiset.Nodup.ext ?_ t.triples.nodup).mpr ?_, rfl⟩
  · have hnodup : m.kvm.toList.Nodup := by
      refine ExtTreeMap.distinct_keys_toList.imp ?_
      rintro a b hne rfl
      exact hne ReflOrd.compare_self
    refine hnodup.filterMap ?_
    rintro ⟨l, v⟩ ⟨l', v'⟩ x hx hx'
    obtain ⟨r, _, rfl⟩ := Option.map_eq_some_iff.mp hx
    obtain ⟨r', _, heq⟩ := Option.map_eq_some_iff.mp hx'
    cases heq
    rfl
  · intro hgiven
    obtain ⟨l, r, v⟩ := hgiven
    rw [Multiset.mem_coe, List.mem_filterMap, Finset.mem_val, ← h.has]
    constructor
    · intro hgiven
      obtain ⟨e, he, hx⟩ := hgiven
      obtain ⟨r', hr', heq⟩ := Option.map_eq_some_iff.mp hx
      cases heq
      exact ⟨hr', ExtTreeMap.mem_toList_iff_getElem?_eq_some.mp he⟩
    · intro hh
      refine ⟨(l, v), ExtTreeMap.mem_toList_iff_getElem?_eq_some.mpr hh.2, ?_⟩
      rw [hh.1]
      rfl

variable [LawfulEqOrd R]

theorem Represents.insert (h : Represents m t) (l : L) (r : R) (v : V) :
    (m.insert l r v).1 = (t.insert l r v).1 ∧
      Represents (m.insert l r v).2 (t.insert l r v).2 := by
  by_cases hn : t.byLeft l = none ∧ t.byRight r = none
  · have ht : t.insert l r v = (true, t.add l r v hn) := dif_pos hn
    obtain ⟨hl, hr⟩ := hn
    rw [h.byLeft_eq_none] at hl
    rw [h.byRight_eq_none] at hr
    have hk : l ∉ m.kvm := fun hk => hl ((h.consistent.valued l).mp hk)
    refine ⟨?_, consistent_insert h.consistent l r v, fun l' r' v' => ?_⟩
    · simp [DeMap.insert, ht, hl, hr]
    · rw [ht, BiTable.mem_add, ← h.has]
      simp only [DeMap.insert, hl, hr, or_self, ↓reduceIte, Has]
      grind
  · have ht : t.insert l r v = (false, t) := dif_neg hn
    have hm : m.insert l r v = (false, m) := by
      rw [h.byLeft_eq_none, h.byRight_eq_none, ← not_or, not_not] at hn
      exact if_pos hn
    rw [ht, hm]
    exact ⟨rfl, h⟩

theorem Represents.eraseLKey [Inhabited R] [Inhabited V] (h : Represents m t) (l : L) :
    (m.eraseLKey l).1 = t.byLeft l ∧ Represents (m.eraseLKey l).2 (t.eraseLeft l) := by
  have hcons := consistent_eraseLKey h.consistent l
  rcases h.left_cases l with ⟨hl, hb⟩ | ⟨r, v, hh, hb⟩
  · have hm : m.eraseLKey l = (none, m) := if_pos hl
    rw [hm, hb]
    refine ⟨rfl, h.consistent, fun l' r' v' => ?_⟩
    rw [h.has, BiTable.mem_eraseLeft]
    exact ⟨fun hx => ⟨hx, BiTable.byLeft_eq_none.mp hb _ hx⟩, fun hx => hx.1⟩
  · rw [eraseLKey_of_has hh] at hcons ⊢
    refine ⟨hb.symm, hcons, fun l' r' v' => ?_⟩
    rw [BiTable.mem_eraseLeft, ← h.has]
    simp only [Has]
    grind

variable [Inhabited L] [Inhabited R] [Inhabited V]

/-- **One method**: equal answers, and the maps still hold the triples. -/
theorem perform_respond (m : DeMap L R V) (t : BiTable L R V) (op : Op L R V)
    (h : Represents m t) : (m.perform op).1 = (respond t op).1 ∧
      Represents (m.perform op).2 (respond t op).2 := by
  cases op with
  | insert l r v =>
    obtain ⟨hflag, hrep⟩ := h.insert l r v
    exact ⟨congrArg Answer.flag hflag, hrep⟩
  | findLKey l =>
    rcases h.left_cases l with ⟨hl, hb⟩ | ⟨r, v, hh, hb⟩
    · simp only [perform, respond, findLKey_of_not_mem hl, hb]
      exact ⟨rfl, h⟩
    · simp only [perform, respond, findLKey_of_has hh, hb]
      exact ⟨rfl, h⟩
  | findRKey r =>
    rcases h.right_cases r with ⟨hr, hb⟩ | ⟨l, v, hl, hh, hb⟩
    · simp only [perform, respond, findRKey_of_not_mem hr, hb]
      exact ⟨rfl, h⟩
    · simp only [perform, respond, findRKey_of_has hl hh, hb]
      exact ⟨rfl, h⟩
  | insertLKeyValue l v =>
    obtain ⟨hflag, hrep⟩ := h.insertLKeyValue l v
    exact ⟨congrArg Answer.flag hflag, hrep⟩
  | insertRKeyValue r v =>
    rcases h.right_cases r with ⟨hr, hb⟩ | ⟨l, w, hl, hh, hb⟩
    · have hm : m.insertRKeyValue r v = (false, m) := if_pos hr
      simp only [perform, respond, hm, hb]
      exact ⟨trivial, h⟩
    · obtain ⟨hflag, hrep⟩ := h.insertLKeyValue l v
      have hsome : t.byLeft l = some (l, r, w) :=
        BiTable.byLeft_eq_some.mpr ⟨(h.has l r w).mp hh, rfl⟩
      rw [hsome] at hflag
      simp only [perform, respond, insertRKeyValue_of_has hl hh, hb]
      exact ⟨congrArg Answer.flag hflag, hrep⟩
  | eraseLKey l =>
    obtain ⟨htriple, hrep⟩ := h.eraseLKey l
    exact ⟨congrArg Answer.triple htriple, hrep⟩
  | eraseRKey r =>
    rcases h.right_cases r with ⟨hr, hb⟩ | ⟨l, v, hl, hh, hb⟩
    · have hm : m.eraseRKey r = (none, m) := if_pos hr
      simp only [perform, respond, hm, hb]
      exact ⟨trivial, h⟩
    · obtain ⟨htriple, hrep⟩ := h.eraseLKey l
      have hsome : t.byLeft l = some (l, r, v) :=
        BiTable.byLeft_eq_some.mpr ⟨(h.has l r v).mp hh, rfl⟩
      rw [hsome] at htriple
      simp only [perform, respond, eraseRKey_of_has hl hh, hb]
      exact ⟨congrArg Answer.triple htriple, hrep⟩
  | clear => exact ⟨rfl, represents_empty⟩
  | size => exact ⟨congrArg Answer.count h.size, h⟩
  | getAll =>
    obtain ⟨hall, hm⟩ := h.getAll
    refine ⟨congrArg Answer.all hall, ?_⟩
    rw [show (m.perform .getAll).2 = m from hm]
    exact h

/-- **`DeMap` refines a table with two keys**: any sequence of methods on a new map is
answered as by the set of triples. The maps hold these triples and stay consistent, and
the lookups among the methods change nothing. -/
theorem deMap_refines (ops : List (Op L R V)) :
    (observe perform (empty : DeMap L R V) ops).1 = (observe respond BiTable.empty ops).1 ∧
      Represents (observe perform (empty : DeMap L R V) ops).2
        (observe respond BiTable.empty ops).2 ∧
      (∀ l, ((observe perform (empty : DeMap L R V) ops).2.findLKey l).2 =
        (observe perform empty ops).2) ∧
      (∀ r, ((observe perform (empty : DeMap L R V) ops).2.findRKey r).2 =
        (observe perform empty ops).2) ∧
      (observe perform (empty : DeMap L R V) ops).2.getAll.2 = (observe perform empty ops).2 := by
  obtain ⟨hanswers, hrep⟩ := observe_eq_of_forall perform_respond represents_empty ops
  exact ⟨hanswers, hrep, findLKey_snd hrep.consistent, findRKey_snd hrep.consistent, hrep.getAll.2⟩

/-- The table of a match server, with numbers for its keys and sockets. -/
theorem deMap_refines_sessions :
    (observe perform (empty : DeMap Nat Nat Nat)
        [.insert 1 7 0, .insert 2 7 1, .insertLKeyValue 1 2, .findRKey 7, .eraseRKey 7]).1 =
      (observe respond BiTable.empty
        [.insert 1 7 0, .insert 2 7 1, .insertLKeyValue 1 2, .findRKey 7, .eraseRKey 7]).1 :=
  (deMap_refines _).1

end DeMap
end DrgbServer.Utils
