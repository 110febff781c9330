import Mathlib.Tactic

/-! # `DeMap`: the map with two keys

Three `std::map`s, ordered by key: `lrm` and `rlm` take each key to its partner,
`kvm` takes the left key to the value. Every method holds the mutex for its whole
body, so a method is one atomic function of the three maps. `operator[]` inserts
a default where the key is missing; `Consistent` is what keeps the methods away
from that case, and `Table` carries it. -/
namespace DrgbServer.Utils
open Std

/-- A `std::map`. -/
abbrev OrdMap (K V : Type) [Ord K] := ExtTreeMap K V compare

/-- `operator[]`: the value and the map after it. -/
def OrdMap.at {K V : Type} [Ord K] [TransOrd K] [Inhabited V] (m : OrdMap K V) (key : K) :
    V × OrdMap K V :=
  match m[key]? with
  | some v => (v, m)
  | none => (default, m.insert key default)

theorem OrdMap.at_of_some {K V : Type} [Ord K] [TransOrd K] [Inhabited V] {m : OrdMap K V}
    {key : K} {v : V} (h : m[key]? = some v) : m.at key = (v, m) := by
  simp only [OrdMap.at, h]

structure DeMap (L R V : Type) [Ord L] [Ord R] where
  lrm : OrdMap L R
  rlm : OrdMap R L
  kvm : OrdMap L V

namespace DeMap
variable {L R V : Type} [Ord L] [TransOrd L] [Ord R] [TransOrd R]

def empty : DeMap L R V := ⟨∅, ∅, ∅⟩

/-- `std::map::insert` keeps an existing entry. -/
def insert (m : DeMap L R V) (lkey : L) (rkey : R) (value : V) : Bool × DeMap L R V :=
  if lkey ∈ m.lrm ∨ rkey ∈ m.rlm then (false, m)
  else (true, ⟨m.lrm.insertIfNew lkey rkey, m.rlm.insertIfNew rkey lkey,
    m.kvm.insertIfNew lkey value⟩)

def insertLKeyValue (m : DeMap L R V) (lkey : L) (value : V) : Bool × DeMap L R V :=
  if lkey ∉ m.kvm then (false, m)
  else (true, { m with kvm := m.kvm.insert lkey value })

def clear (_ : DeMap L R V) : DeMap L R V := empty

def size (m : DeMap L R V) : Nat := m.lrm.size

section Default
variable [Inhabited L] [Inhabited R] [Inhabited V]

def findLKey (m : DeMap L R V) (key : L) : Option (R × V) × DeMap L R V :=
  if key ∉ m.lrm then (none, m)
  else
    let (rkey, lrm) := m.lrm.at key
    let (value, kvm) := m.kvm.at key
    (some (rkey, value), { m with lrm, kvm })

def findRKey (m : DeMap L R V) (key : R) : Option (L × V) × DeMap L R V :=
  if key ∉ m.rlm then (none, m)
  else
    let (lkey, rlm) := m.rlm.at key
    let (value, kvm) := m.kvm.at lkey
    (some (lkey, value), { m with rlm, kvm })

def insertRKeyValue (m : DeMap L R V) (rkey : R) (value : V) : Bool × DeMap L R V :=
  if rkey ∉ m.rlm then (false, m)
  else
    let (lkey, rlm) := m.rlm.at rkey
    (true, { m with rlm, kvm := m.kvm.insert lkey value })

def eraseLKey (m : DeMap L R V) (lkey : L) : Option (L × R × V) × DeMap L R V :=
  if lkey ∉ m.lrm then (none, m)
  else
    let (rkey, lrm) := m.lrm.at lkey
    let (value, kvm) := m.kvm.at lkey
    (some (lkey, rkey, value), ⟨lrm.erase lkey, m.rlm.erase rkey, kvm.erase lkey⟩)

def eraseRKey (m : DeMap L R V) (rkey : R) : Option (L × R × V) × DeMap L R V :=
  if rkey ∉ m.rlm then (none, m)
  else
    let (lkey, rlm) := m.rlm.at rkey
    let (value, kvm) := m.kvm.at lkey
    (some (lkey, rkey, value), ⟨m.lrm.erase lkey, rlm.erase rkey, kvm.erase lkey⟩)

/-- The loop body of `GetAll`. -/
def getAllStep (acc : List (L × R × V) × OrdMap L R) (entry : L × V) :
    List (L × R × V) × OrdMap L R :=
  let (rkey, lrm) := acc.2.at entry.1
  (acc.1 ++ [(entry.1, rkey, entry.2)], lrm)

def getAll (m : DeMap L R V) : List (L × R × V) × DeMap L R V :=
  let (result, lrm) := m.kvm.toList.foldl getAllStep ([], m.lrm)
  (result, { m with lrm })

end Default

/-! ## Consistency of the three maps -/

/-- `lrm` and `rlm` are inverse to each other and `kvm` has the left keys. -/
structure Consistent (m : DeMap L R V) : Prop where
  inverse : ∀ (l : L) (r : R), m.lrm[l]? = some r ↔ m.rlm[r]? = some l
  valued : ∀ l : L, l ∈ m.kvm ↔ l ∈ m.lrm

theorem consistent_empty : (empty : DeMap L R V).Consistent := by
  constructor
  · intro l r; simp [empty]
  · intro l; simp [empty]

/-- What a triple in the map is, on the maps themselves. -/
def Has (m : DeMap L R V) (l : L) (r : R) (v : V) : Prop :=
  m.lrm[l]? = some r ∧ m.kvm[l]? = some v

theorem Consistent.has_of_mem {m : DeMap L R V} (hc : m.Consistent) {l : L} (h : l ∈ m.lrm) :
    ∃ r v, m.Has l r v := by
  have hv := (hc.valued l).mpr h
  rw [ExtTreeMap.mem_iff_isSome_getElem?, Option.isSome_iff_exists] at h hv
  obtain ⟨r, hr⟩ := h
  obtain ⟨v, hv⟩ := hv
  exact ⟨r, v, hr, hv⟩

theorem Consistent.has_of_mem_rlm {m : DeMap L R V} (hc : m.Consistent) {r : R} (h : r ∈ m.rlm) :
    ∃ l v, m.rlm[r]? = some l ∧ m.Has l r v := by
  rw [ExtTreeMap.mem_iff_isSome_getElem?, Option.isSome_iff_exists] at h
  obtain ⟨l, hl⟩ := h
  have hr := (hc.inverse l r).mpr hl
  have hm : l ∈ m.lrm := by rw [ExtTreeMap.mem_iff_isSome_getElem?, hr]; rfl
  obtain ⟨r', v, hr', hv⟩ := hc.has_of_mem hm
  exact ⟨l, v, hl, hr, hv⟩

section Left
variable [Inhabited R] [Inhabited V]

omit [TransOrd R] in
theorem findLKey_of_has {m : DeMap L R V} {l : L} {r : R} {v : V} (h : m.Has l r v) :
    m.findLKey l = (some (r, v), m) := by
  have hm : l ∈ m.lrm := by rw [ExtTreeMap.mem_iff_isSome_getElem?, h.1]; rfl
  simp only [findLKey, hm, not_true_eq_false, ↓reduceIte, OrdMap.at_of_some h.1,
    OrdMap.at_of_some h.2]

omit [TransOrd R] in
theorem findLKey_of_not_mem {m : DeMap L R V} {l : L} (h : l ∉ m.lrm) :
    m.findLKey l = (none, m) := by
  simp [findLKey, h]

theorem eraseLKey_of_has {m : DeMap L R V} {l : L} {r : R} {v : V} (h : m.Has l r v) :
    m.eraseLKey l =
      (some (l, r, v), ⟨m.lrm.erase l, m.rlm.erase r, m.kvm.erase l⟩) := by
  have hm : l ∈ m.lrm := by rw [ExtTreeMap.mem_iff_isSome_getElem?, h.1]; rfl
  simp only [eraseLKey, hm, not_true_eq_false, ↓reduceIte, OrdMap.at_of_some h.1,
    OrdMap.at_of_some h.2]

/-- The lookups leave a consistent map as it is: `operator[]` finds every key. -/
theorem findLKey_snd {m : DeMap L R V} (hc : m.Consistent) (l : L) : (m.findLKey l).2 = m := by
  by_cases h : l ∈ m.lrm
  · obtain ⟨r, v, hh⟩ := hc.has_of_mem h
    rw [findLKey_of_has hh]
  · rw [findLKey_of_not_mem h]

end Left

section Right
variable [Inhabited L] [Inhabited V]

theorem findRKey_of_has {m : DeMap L R V} {l : L} {r : R} {v : V} (hl : m.rlm[r]? = some l)
    (h : m.Has l r v) : m.findRKey r = (some (l, v), m) := by
  have hm : r ∈ m.rlm := by rw [ExtTreeMap.mem_iff_isSome_getElem?, hl]; rfl
  simp only [findRKey, hm, not_true_eq_false, ↓reduceIte, OrdMap.at_of_some hl,
    OrdMap.at_of_some h.2]

theorem findRKey_of_not_mem {m : DeMap L R V} {r : R} (h : r ∉ m.rlm) :
    m.findRKey r = (none, m) := by
  simp [findRKey, h]

theorem findRKey_snd {m : DeMap L R V} (hc : m.Consistent) (r : R) : (m.findRKey r).2 = m := by
  by_cases h : r ∈ m.rlm
  · obtain ⟨l, v, hl, hh⟩ := hc.has_of_mem_rlm h
    rw [findRKey_of_has hl hh]
  · rw [findRKey_of_not_mem h]

end Right

section All
variable [Inhabited R]

omit [Ord R] [TransOrd R] in
/-- One turn of the loop of `GetAll` over an entry of a consistent map. -/
theorem getAllStep_of_some {acc : List (L × R × V)} {lrm : OrdMap L R} {entry : L × V} {r : R}
    (h : lrm[entry.1]? = some r) :
    getAllStep (acc, lrm) entry = (acc ++ [(entry.1, r, entry.2)], lrm) := by
  simp only [getAllStep, OrdMap.at_of_some h]

omit [Ord R] [TransOrd R] in
/-- The loop of `GetAll` adds one triple per entry, in order, and keeps `lrm`. -/
theorem getAll_loop {lrm : OrdMap L R} (entries : List (L × V)) (acc : List (L × R × V))
    (h : ∀ e ∈ entries, e.1 ∈ lrm) :
    entries.foldl getAllStep (acc, lrm) =
      (acc ++ entries.filterMap fun e => (lrm[e.1]?).map fun r => (e.1, r, e.2), lrm) := by
  induction entries generalizing acc with
  | nil => simp
  | cons e rest ih =>
    have he := h e List.mem_cons_self
    rw [ExtTreeMap.mem_iff_isSome_getElem?, Option.isSome_iff_exists] at he
    obtain ⟨r, hr⟩ := he
    rw [List.foldl_cons, getAllStep_of_some hr,
      ih _ (fun e' he' => h e' (List.mem_cons_of_mem _ he'))]
    simp [hr]

theorem getAll_of_consistent [LawfulEqOrd L] {m : DeMap L R V} (hc : m.Consistent) :
    m.getAll = (m.kvm.toList.filterMap fun e => (m.lrm[e.1]?).map fun r => (e.1, r, e.2), m) := by
  have hmem : ∀ e ∈ m.kvm.toList, e.1 ∈ m.lrm := by
    intro e he
    have hk := ExtTreeMap.mem_toList_iff_getElem?_eq_some.mp he
    refine (hc.valued e.1).mp ?_
    rw [ExtTreeMap.mem_iff_isSome_getElem?, hk]
    rfl
  simp only [getAll, getAll_loop _ _ hmem, List.nil_append]

end All

section Updates
variable [LawfulEqOrd L]

theorem consistent_insertLKeyValue {m : DeMap L R V} (hc : m.Consistent) (l : L) (v : V) :
    (m.insertLKeyValue l v).2.Consistent := by
  unfold insertLKeyValue
  split
  · exact hc
  · refine ⟨hc.inverse, ?_⟩
    intro l'
    have hv := hc.valued l'
    have hv' := hc.valued l
    grind

variable [LawfulEqOrd R]

theorem consistent_insert {m : DeMap L R V} (hc : m.Consistent) (l : L) (r : R) (v : V) :
    (m.insert l r v).2.Consistent := by
  unfold insert
  split
  · exact hc
  · rename_i hn
    obtain ⟨hl, hr⟩ := not_or.mp hn
    have hk : l ∉ m.kvm := fun h => hl ((hc.valued l).mp h)
    refine ⟨?_, ?_⟩
    · intro l' r'
      have hi := hc.inverse l' r'
      have hil := hc.inverse l r'
      have hir := hc.inverse l' r
      grind
    · intro l'
      have hv := hc.valued l'
      grind

theorem consistent_eraseLKey [Inhabited R] [Inhabited V] {m : DeMap L R V} (hc : m.Consistent)
    (l : L) : (m.eraseLKey l).2.Consistent := by
  by_cases h : l ∈ m.lrm
  · obtain ⟨r, v, hh⟩ := hc.has_of_mem h
    rw [eraseLKey_of_has hh]
    have hr := hh.1
    refine ⟨?_, ?_⟩
    · intro l' r'
      have hi := hc.inverse l' r'
      have hil := hc.inverse l r'
      have hir := hc.inverse l' r
      grind
    · intro l'
      have hv := hc.valued l'
      grind
  · have he : m.eraseLKey l = (none, m) := by simp [eraseLKey, h]
    rw [he]
    exact hc

end Updates
end DeMap

/-! ## The bundled table -/

/-- A `DeMap` object: its maps are consistent at every moment the mutex is free. -/
structure Table (L R V : Type) [Ord L] [TransOrd L] [Ord R] [TransOrd R] where
  maps : DeMap L R V
  consistent : maps.Consistent

namespace Table
variable {L R V : Type} [Ord L] [TransOrd L] [Ord R] [TransOrd R]

section Methods
variable [LawfulEqOrd L] [LawfulEqOrd R] [Inhabited L] [Inhabited R] [Inhabited V]

def empty : Table L R V := ⟨DeMap.empty, DeMap.consistent_empty⟩

def findLKey (t : Table L R V) (key : L) : Option (R × V) := (t.maps.findLKey key).1

def findRKey (t : Table L R V) (key : R) : Option (L × V) := (t.maps.findRKey key).1

def insert (t : Table L R V) (lkey : L) (rkey : R) (value : V) : Bool × Table L R V :=
  ((t.maps.insert lkey rkey value).1,
    ⟨(t.maps.insert lkey rkey value).2, DeMap.consistent_insert t.consistent lkey rkey value⟩)

def insertLKeyValue (t : Table L R V) (lkey : L) (value : V) : Bool × Table L R V :=
  ((t.maps.insertLKeyValue lkey value).1,
    ⟨(t.maps.insertLKeyValue lkey value).2,
      DeMap.consistent_insertLKeyValue t.consistent lkey value⟩)

def eraseLKey (t : Table L R V) (lkey : L) : Option (L × R × V) × Table L R V :=
  ((t.maps.eraseLKey lkey).1,
    ⟨(t.maps.eraseLKey lkey).2, DeMap.consistent_eraseLKey t.consistent lkey⟩)

def size (t : Table L R V) : Nat := t.maps.size

def getAll (t : Table L R V) : List (L × R × V) := t.maps.getAll.1

end Methods

variable {t u : Table L R V} {l k : L} {r : R} {v : V}

section Left
variable [Inhabited R] [Inhabited V]

theorem findLKey_eq_some : t.findLKey l = some (r, v) ↔ t.maps.Has l r v := by
  constructor
  · intro h
    by_cases hm : l ∈ t.maps.lrm
    · obtain ⟨r', v', hh⟩ := t.consistent.has_of_mem hm
      rw [findLKey, DeMap.findLKey_of_has hh] at h
      cases h
      exact hh
    · rw [findLKey, DeMap.findLKey_of_not_mem hm] at h
      cases h
  · intro h
    rw [findLKey, DeMap.findLKey_of_has h]

theorem findLKey_eq_none : t.findLKey l = none ↔ l ∉ t.maps.lrm := by
  constructor
  · intro h hm
    obtain ⟨r, v, hh⟩ := t.consistent.has_of_mem hm
    rw [findLKey_eq_some.mpr hh] at h
    cases h
  · intro h
    rw [findLKey, DeMap.findLKey_of_not_mem h]

@[simp] theorem findLKey_empty : (empty : Table L R V).findLKey l = none := by
  rw [findLKey_eq_none]
  simp [empty, DeMap.empty]

variable [LawfulEqOrd L]

/-- `GetAll` lists the triples. -/
theorem mem_getAll : (l, r, v) ∈ t.getAll ↔ t.findLKey l = some (r, v) := by
  rw [findLKey_eq_some, getAll, DeMap.getAll_of_consistent t.consistent, List.mem_filterMap]
  constructor
  · intro hgiven
    obtain ⟨e, he, hr⟩ := hgiven
    obtain ⟨r', hr', hrr⟩ := Option.map_eq_some_iff.mp hr
    cases hrr
    exact ⟨hr', ExtTreeMap.mem_toList_iff_getElem?_eq_some.mp he⟩
  · intro h
    refine ⟨(l, v), ExtTreeMap.mem_toList_iff_getElem?_eq_some.mpr h.2, ?_⟩
    rw [h.1]
    rfl

theorem insertLKeyValue_fst : (t.insertLKeyValue l v).1 = (t.findLKey l).isSome := by
  have hv := t.consistent.valued l
  by_cases hm : l ∈ t.maps.kvm
  · obtain ⟨r', v', hh⟩ := t.consistent.has_of_mem (hv.mp hm)
    rw [findLKey_eq_some.mpr hh]
    simp [insertLKeyValue, DeMap.insertLKeyValue, hm]
  · rw [findLKey_eq_none.mpr fun h => hm (hv.mpr h)]
    simp [insertLKeyValue, DeMap.insertLKeyValue, hm]

theorem findLKey_insertLKeyValue [DecidableEq L] (k : L) :
    (t.insertLKeyValue l v).2.findLKey k =
      if k = l then (t.findLKey l).map (fun e => (e.1, v)) else t.findLKey k := by
  have hv := t.consistent.valued l
  by_cases hm : l ∈ t.maps.kvm
  · obtain ⟨r', v', hh⟩ := t.consistent.has_of_mem (hv.mp hm)
    ext ⟨r'', w⟩
    rw [findLKey_eq_some, findLKey_eq_some.mpr hh]
    have hr := hh.1
    simp only [insertLKeyValue, DeMap.insertLKeyValue, hm, not_true_eq_false, ↓reduceIte, DeMap.Has]
    split
    · grind
    · rw [findLKey_eq_some, DeMap.Has]
      grind
  · have hn : t.findLKey l = none := findLKey_eq_none.mpr (fun h => hm (hv.mpr h))
    have hs : (t.insertLKeyValue l v).2 = t := by simp [insertLKeyValue, DeMap.insertLKeyValue, hm]
    rw [hs]
    split
    · rename_i hk
      rw [hk, hn]
      rfl
    · rfl

theorem findLKey_eraseLKey [LawfulEqOrd R] [DecidableEq L] (k : L) :
    (t.eraseLKey l).2.findLKey k = if k = l then none else t.findLKey k := by
  by_cases hm : l ∈ t.maps.lrm
  · obtain ⟨r', v', hh⟩ := t.consistent.has_of_mem hm
    ext ⟨r'', w⟩
    rw [findLKey_eq_some]
    have he := DeMap.eraseLKey_of_has hh
    simp only [eraseLKey, he, DeMap.Has]
    split
    · grind
    · rw [findLKey_eq_some, DeMap.Has]
      grind
  · have hs : (t.eraseLKey l).2 = t := by simp [eraseLKey, DeMap.eraseLKey, hm]
    rw [hs]
    split
    · rename_i hk
      rw [hk]
      exact findLKey_eq_none.mpr hm
    · rfl

end Left

/-- `GetAll` lists them in the order of the left keys. -/
theorem getAll_ordered [LawfulEqOrd L] [Inhabited R] :
    t.getAll.Pairwise fun a b => compare a.1 b.1 = .lt := by
  rw [getAll, DeMap.getAll_of_consistent t.consistent, List.pairwise_filterMap]
  refine ExtTreeMap.ordered_keys_toList.imp fun {a b} hab x hx y hy => ?_
  obtain ⟨_, -, rfl⟩ := Option.map_eq_some_iff.mp hx
  obtain ⟨_, -, rfl⟩ := Option.map_eq_some_iff.mp hy
  exact hab

section Right
variable [Inhabited L] [Inhabited V]

theorem findRKey_eq_none : t.findRKey r = none ↔ r ∉ t.maps.rlm := by
  constructor
  · intro h hm
    obtain ⟨l, v, hl, hh⟩ := t.consistent.has_of_mem_rlm hm
    rw [findRKey, DeMap.findRKey_of_has hl hh] at h
    cases h
  · intro h
    rw [findRKey, DeMap.findRKey_of_not_mem h]

variable [Inhabited R]

/-- The two lookups read the same triples. -/
theorem findRKey_eq_some : t.findRKey r = some (l, v) ↔ t.findLKey l = some (r, v) := by
  rw [findLKey_eq_some]
  constructor
  · intro h
    by_cases hm : r ∈ t.maps.rlm
    · obtain ⟨l', v', hl, hh⟩ := t.consistent.has_of_mem_rlm hm
      rw [findRKey, DeMap.findRKey_of_has hl hh] at h
      cases h
      exact hh
    · rw [findRKey, DeMap.findRKey_of_not_mem hm] at h
      cases h
  · intro h
    rw [findRKey, DeMap.findRKey_of_has ((t.consistent.inverse l r).mp h.1) h]

theorem findRKey_eq_none_iff : t.findRKey r = none ↔ ∀ l v, t.findLKey l ≠ some (r, v) := by
  constructor
  · intro h l v hl
    rw [findRKey_eq_some.mpr hl] at h
    cases h
  · intro h
    rw [Option.eq_none_iff_forall_ne_some]
    intro hgiven hr
    obtain ⟨l, v⟩ := hgiven
    exact h l v (findRKey_eq_some.mp hr)

@[simp] theorem findRKey_empty : (empty : Table L R V).findRKey r = none := by
  rw [findRKey_eq_none_iff]
  intro l v
  simp

end Right

section Insert
variable [LawfulEqOrd L] [LawfulEqOrd R]

theorem insert_of_refused (h : (t.insert l r v).1 = false) : (t.insert l r v).2 = t := by
  simp only [insert, DeMap.insert] at h ⊢
  split at h
  · simp_all
  · cases h

variable [Inhabited L] [Inhabited R] [Inhabited V]

theorem insert_fst : (t.insert l r v).1 = true ↔ t.findLKey l = none ∧ t.findRKey r = none := by
  rw [findLKey_eq_none, findRKey_eq_none]
  simp only [insert, DeMap.insert]
  split <;> grind

theorem size_insert (h : (t.insert l r v).1 = true) : (t.insert l r v).2.size = t.size + 1 := by
  rw [insert_fst, findLKey_eq_none, findRKey_eq_none] at h
  simp only [insert, DeMap.insert, h.1, h.2, or_self, ↓reduceIte, size, DeMap.size]
  rw [ExtTreeMap.size_insertIfNew, if_neg h.1]

variable [DecidableEq L]

theorem has_insert (h : (t.insert l r v).1 = true) (k : L) (r' : R) (w : V) :
    (t.insert l r v).2.maps.Has k r' w ↔ if k = l then r' = r ∧ w = v else t.maps.Has k r' w := by
  rw [insert_fst, findLKey_eq_none, findRKey_eq_none] at h
  have hk : l ∉ t.maps.kvm := fun hk => h.1 ((t.consistent.valued l).mp hk)
  simp only [insert, DeMap.insert, h.1, h.2, or_self, ↓reduceIte, DeMap.Has]
  grind

theorem findLKey_insert (h : (t.insert l r v).1 = true) (k : L) :
    (t.insert l r v).2.findLKey k = if k = l then some (r, v) else t.findLKey k := by
  ext ⟨r', w⟩
  rw [findLKey_eq_some, has_insert h]
  split
  · grind
  · rw [findLKey_eq_some]

/-- The right keys in use after an insertion. -/
theorem findRKey_insert_eq_none (h : (t.insert l r v).1 = true) (r' : R) :
    (t.insert l r v).2.findRKey r' = none ↔ r' ≠ r ∧ t.findRKey r' = none := by
  simp only [findRKey_eq_none_iff, findLKey_insert h]
  have hl := (insert_fst.mp h).1
  constructor
  · intro hn
    refine ⟨?_, ?_⟩
    · rintro rfl
      exact hn l v (if_pos rfl)
    · intro k w hk
      refine hn k w ?_
      rwa [if_neg]
      rintro rfl
      rw [hl] at hk
      cases hk
  · intro hgiven k w hk
    obtain ⟨hne, hn⟩ := hgiven
    split at hk
    · cases hk
      exact hne rfl
    · exact hn k w hk

/-- An entry after an insertion is the new one or an old one. -/
theorem findLKey_of_insert {k : L} {r' : R} {w : V}
    (h : (t.insert l r v).2.findLKey k = some (r', w)) :
    (k = l ∧ r' = r ∧ w = v) ∨ t.findLKey k = some (r', w) := by
  cases hi : (t.insert l r v).1 with
  | false =>
    rw [insert_of_refused hi] at h
    exact .inr h
  | true =>
    rw [findLKey_insert hi] at h
    split at h
    · rename_i hk
      cases h
      exact .inl ⟨hk, rfl, rfl⟩
    · exact .inr h

end Insert
end Table
end DrgbServer.Utils
