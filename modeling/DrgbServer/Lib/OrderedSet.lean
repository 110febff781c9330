import Mathlib.Tactic

/-! # Ordered sets over a comparator

A set kept as the list of its elements in iteration order. The comparator alone
decides where an element goes and whether it is there already. The lemmas ask
for a key in a linear order that explains the comparator. -/
namespace DrgbServer.Lib.OrderedSet

variable {α κ : Type*} [LinearOrder κ] {less : α → α → Bool} {key : α → κ}

/-- Insertion; an element that compares equivalent is kept and the new one dropped. -/
def insert (less : α → α → Bool) (x : α) : List α → List α
  | [] => [x]
  | y :: rest =>
    if less x y then x :: y :: rest
    else if less y x then y :: insert less x rest
    else y :: rest

/-- The comparator orders by `key`. -/
def OrdersBy (less : α → α → Bool) (key : α → κ) : Prop :=
  ∀ x y, less x y = true ↔ key x < key y

/-- In strictly increasing order of the key. -/
def Sorted (key : α → κ) (l : List α) : Prop := l.Pairwise fun x y => key x < key y

theorem insert_of_key_mem (ho : OrdersBy less key) {l : List α} (hs : Sorted key l) {x : α}
    (h : ∃ y ∈ l, key y = key x) : insert less x l = l := by
  induction l with
  | nil =>
    obtain ⟨y, hy, _⟩ := h
    cases hy
  | cons z rest ih =>
    obtain ⟨y, hy, hk⟩ := h
    have hs' := List.pairwise_cons.mp hs
    rcases List.mem_cons.mp hy with rfl | hy
    · have hxy : ¬ less x y = true := by rw [ho, hk]; exact lt_irrefl _
      have hyx : ¬ less y x = true := by rw [ho, hk]; exact lt_irrefl _
      rw [insert, if_neg hxy, if_neg hyx]
    · have hzx : key z < key x := hk ▸ hs'.1 y hy
      have hxz : ¬ less x z = true := by rw [ho]; exact hzx.asymm
      rw [insert, if_neg hxz, if_pos ((ho z x).mpr hzx), ih hs'.2 ⟨y, hy, hk⟩]

theorem insert_perm (ho : OrdersBy less key) {l : List α} {x : α}
    (h : ∀ y ∈ l, key y ≠ key x) : (insert less x l).Perm (x :: l) := by
  induction l with
  | nil => exact List.Perm.refl _
  | cons z rest ih =>
    rw [insert]
    split
    · exact List.Perm.refl _
    · rename_i hxz
      rw [ho, not_lt] at hxz
      have hzx : key z < key x := lt_of_le_of_ne hxz (h z List.mem_cons_self)
      rw [if_pos ((ho z x).mpr hzx)]
      exact ((ih fun y hy => h y (List.mem_cons_of_mem _ hy)).cons z).trans (.swap x z rest)

/-- Either the key was there and nothing changes, or the element is added. -/
theorem insert_cases (ho : OrdersBy less key) {l : List α} (hs : Sorted key l) (x : α) :
    ((∃ y ∈ l, key y = key x) ∧ insert less x l = l) ∨
    ((∀ y ∈ l, key y ≠ key x) ∧ (insert less x l).Perm (x :: l)) := by
  by_cases h : ∃ y ∈ l, key y = key x
  · exact .inl ⟨h, insert_of_key_mem ho hs h⟩
  · have h' : ∀ y ∈ l, key y ≠ key x := fun y hy hk => h ⟨y, hy, hk⟩
    exact .inr ⟨h', insert_perm ho h'⟩

theorem mem_of_mem_insert (less : α → α → Bool) {x y : α} {l : List α}
    (h : y ∈ insert less x l) : y = x ∨ y ∈ l := by
  induction l with
  | nil => exact .inl (List.mem_singleton.mp h)
  | cons z rest ih =>
    rw [insert] at h
    split at h
    · exact List.mem_cons.mp h
    · split at h
      · rcases List.mem_cons.mp h with rfl | h
        · exact .inr List.mem_cons_self
        · rcases ih h with rfl | h
          · exact .inl rfl
          · exact .inr (List.mem_cons_of_mem _ h)
      · exact .inr h

theorem mem_insert_of_mem (less : α → α → Bool) {x y : α} {l : List α} (h : y ∈ l) :
    y ∈ insert less x l := by
  induction l with
  | nil => cases h
  | cons z rest ih =>
    rw [insert]
    split
    · exact List.mem_cons_of_mem _ h
    · split
      · rcases List.mem_cons.mp h with rfl | h
        · exact List.mem_cons_self
        · exact List.mem_cons_of_mem _ (ih h)
      · exact h

theorem length_le_insert (less : α → α → Bool) (x : α) (l : List α) :
    l.length ≤ (insert less x l).length := by
  induction l with
  | nil => exact Nat.zero_le _
  | cons y rest ih =>
    rw [insert]
    split
    · exact Nat.le_succ _
    · split
      · exact Nat.succ_le_succ ih
      · exact le_refl _

/-- The key is there after an insertion. -/
theorem exists_mem_insert (ho : OrdersBy less key) (l : List α) (x : α) :
    ∃ y ∈ insert less x l, key y = key x := by
  induction l with
  | nil => exact ⟨x, List.mem_singleton_self x, rfl⟩
  | cons z rest ih =>
    rw [insert]
    split
    · exact ⟨x, List.mem_cons_self, rfl⟩
    · rename_i hxz
      split
      · obtain ⟨y, hy, hk⟩ := ih
        exact ⟨y, List.mem_cons_of_mem _ hy, hk⟩
      · rename_i hzx
        rw [ho, not_lt] at hxz hzx
        exact ⟨z, List.mem_cons_self, le_antisymm hxz hzx⟩

theorem sorted_insert (ho : OrdersBy less key) {l : List α} (hs : Sorted key l) (x : α) :
    Sorted key (insert less x l) := by
  induction l with
  | nil => exact List.pairwise_singleton _ _
  | cons z rest ih =>
    have hs' := List.pairwise_cons.mp hs
    rw [insert]
    split
    · rename_i hxz
      rw [ho] at hxz
      refine List.pairwise_cons.mpr ⟨?_, hs⟩
      intro y hy
      rcases List.mem_cons.mp hy with rfl | hy
      · exact hxz
      · exact hxz.trans (hs'.1 y hy)
    · split
      · rename_i hzx
        rw [ho] at hzx
        refine List.pairwise_cons.mpr ⟨?_, ih hs'.2⟩
        intro y hy
        rcases mem_of_mem_insert less hy with rfl | hy
        · exact hzx
        · exact hs'.1 y hy
      · exact hs

end DrgbServer.Lib.OrderedSet
