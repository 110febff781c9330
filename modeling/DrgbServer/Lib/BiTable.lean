import Mathlib.Data.Finset.Card
import Mathlib.Tactic

/-! # Tables with two keys

A finite set of triples in which no two share a left key or a right key. The
operations look a triple up by either key, and answer as the set does. -/
namespace DrgbServer.Lib

/-- A finite set of triples that each of its two keys determines. -/
structure BiTable (L R V : Type*) where
  triples : Finset (L × R × V)
  left : ∀ x ∈ triples, ∀ y ∈ triples, x.1 = y.1 → x = y
  right : ∀ x ∈ triples, ∀ y ∈ triples, x.2.1 = y.2.1 → x = y

namespace BiTable
variable {L R V : Type*}

open Classical

def empty : BiTable L R V := ⟨∅, by simp, by simp⟩

/-- The triple with the left key. -/
noncomputable def byLeft (t : BiTable L R V) (l : L) : Option (L × R × V) :=
  if h : ∃ x ∈ t.triples, x.1 = l then some h.choose else none

/-- The triple with the right key. -/
noncomputable def byRight (t : BiTable L R V) (r : R) : Option (L × R × V) :=
  if h : ∃ x ∈ t.triples, x.2.1 = r then some h.choose else none

variable {t : BiTable L R V} {l : L} {r : R} {v : V} {x : L × R × V}

theorem byLeft_eq_some : t.byLeft l = some x ↔ x ∈ t.triples ∧ x.1 = l := by
  unfold byLeft
  split
  · rename_i h
    obtain ⟨hmem, hkey⟩ := h.choose_spec
    constructor
    · intro hgiven
      cases hgiven
      exact ⟨hmem, hkey⟩
    · intro hgiven
      obtain ⟨hx, hl⟩ := hgiven
      rw [t.left _ hmem x hx (hkey.trans hl.symm)]
  · rename_i h
    constructor
    · intro hgiven
      cases hgiven
    · intro hgiven
      obtain ⟨hx, hl⟩ := hgiven
      exact absurd ⟨x, hx, hl⟩ h

theorem byRight_eq_some : t.byRight r = some x ↔ x ∈ t.triples ∧ x.2.1 = r := by
  unfold byRight
  split
  · rename_i h
    obtain ⟨hmem, hkey⟩ := h.choose_spec
    constructor
    · intro hgiven
      cases hgiven
      exact ⟨hmem, hkey⟩
    · intro hgiven
      obtain ⟨hx, hr⟩ := hgiven
      rw [t.right _ hmem x hx (hkey.trans hr.symm)]
  · rename_i h
    constructor
    · intro hgiven
      cases hgiven
    · intro hgiven
      obtain ⟨hx, hr⟩ := hgiven
      exact absurd ⟨x, hx, hr⟩ h

theorem byLeft_eq_none : t.byLeft l = none ↔ ∀ x ∈ t.triples, x.1 ≠ l := by
  rw [Option.eq_none_iff_forall_ne_some]
  constructor
  · intro h x hx hl
    exact h x (byLeft_eq_some.mpr ⟨hx, hl⟩)
  · intro h x hx
    obtain ⟨hmem, hl⟩ := byLeft_eq_some.mp hx
    exact h x hmem hl

theorem byRight_eq_none : t.byRight r = none ↔ ∀ x ∈ t.triples, x.2.1 ≠ r := by
  rw [Option.eq_none_iff_forall_ne_some]
  constructor
  · intro h x hx hr
    exact h x (byRight_eq_some.mpr ⟨hx, hr⟩)
  · intro h x hx
    obtain ⟨hmem, hr⟩ := byRight_eq_some.mp hx
    exact h x hmem hr

/-- A triple whose keys are both unused. -/
noncomputable def add (t : BiTable L R V) (l : L) (r : R) (v : V)
    (h : t.byLeft l = none ∧ t.byRight r = none) : BiTable L R V where
  triples := insert (l, r, v) t.triples
  left := by
    have hl := byLeft_eq_none.mp h.1
    intro x hx y hy hxy
    rcases Finset.mem_insert.mp hx with rfl | hx
    · rcases Finset.mem_insert.mp hy with rfl | hy
      · rfl
      · exact absurd hxy.symm (hl y hy)
    · rcases Finset.mem_insert.mp hy with rfl | hy
      · exact absurd hxy (hl x hx)
      · exact t.left x hx y hy hxy
  right := by
    have hr := byRight_eq_none.mp h.2
    intro x hx y hy hxy
    rcases Finset.mem_insert.mp hx with rfl | hx
    · rcases Finset.mem_insert.mp hy with rfl | hy
      · rfl
      · exact absurd hxy.symm (hr y hy)
    · rcases Finset.mem_insert.mp hy with rfl | hy
      · exact absurd hxy (hr x hx)
      · exact t.right x hx y hy hxy

/-- A new triple; refused if one of its keys is there. -/
noncomputable def insert (t : BiTable L R V) (l : L) (r : R) (v : V) : Bool × BiTable L R V :=
  if h : t.byLeft l = none ∧ t.byRight r = none then (true, t.add l r v h) else (false, t)

/-- The triples that are kept. -/
noncomputable def filter (t : BiTable L R V) (p : L × R × V → Prop) : BiTable L R V where
  triples := t.triples.filter p
  left x hx y hy h := t.left x (Finset.mem_of_mem_filter x hx) y (Finset.mem_of_mem_filter y hy) h
  right x hx y hy h := t.right x (Finset.mem_of_mem_filter x hx) y (Finset.mem_of_mem_filter y hy) h

/-- The triple with the left key goes. -/
noncomputable def eraseLeft (t : BiTable L R V) (l : L) : BiTable L R V := t.filter (·.1 ≠ l)

/-- Every triple with the left key has the value. -/
noncomputable def setLeft (t : BiTable L R V) (l : L) (v : V) : BiTable L R V where
  triples := t.triples.image fun x => if x.1 = l then (x.1, x.2.1, v) else x
  left := by
    simp only [Finset.mem_image]
    rintro _ ⟨x, hx, rfl⟩ _ ⟨y, hy, rfl⟩ h
    have hxy : x = y := t.left x hx y hy (by split at h <;> split at h <;> exact h)
    rw [hxy]
  right := by
    simp only [Finset.mem_image]
    rintro _ ⟨x, hx, rfl⟩ _ ⟨y, hy, rfl⟩ h
    have hxy : x = y := t.right x hx y hy (by split at h <;> split at h <;> exact h)
    rw [hxy]

theorem mem_eraseLeft : x ∈ (t.eraseLeft l).triples ↔ x ∈ t.triples ∧ x.1 ≠ l := by
  simp [eraseLeft, filter]

theorem mem_add {h : t.byLeft l = none ∧ t.byRight r = none} :
    x ∈ (t.add l r v h).triples ↔ x = (l, r, v) ∨ x ∈ t.triples := by
  simp [add]

theorem mem_setLeft : x ∈ (t.setLeft l v).triples ↔
    (x.1 = l ∧ x.2.2 = v ∧ ∃ w, (x.1, x.2.1, w) ∈ t.triples) ∨ (x.1 ≠ l ∧ x ∈ t.triples) := by
  simp only [setLeft, Finset.mem_image]
  constructor
  · intro h
    obtain ⟨y, hy, rfl⟩ := h
    split
    · rename_i hl
      exact .inl ⟨hl, rfl, y.2.2, hy⟩
    · rename_i hl
      exact .inr ⟨hl, hy⟩
  · intro h
    rcases h with ⟨hl, hv, w, hw⟩ | ⟨hl, hx⟩
    · refine ⟨_, hw, ?_⟩
      rw [if_pos hl, ← hv]
    · exact ⟨x, hx, if_neg hl⟩

end BiTable
end DrgbServer.Lib
