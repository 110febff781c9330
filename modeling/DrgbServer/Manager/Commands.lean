import DrgbServer.Lib.Transition
import DrgbServer.Redis.MyRedis
import DrgbServer.Utils.ConfigParser

/-! # The manager's commands

The manager takes words from its arguments and from the lines it reads, looks each up in a
table of commands, and asks a server. A word that is in no entry of the table means the entry
it has most in common with. -/
namespace DrgbServer.Manager
open DrgbServer.Utils DrgbServer.Lib.Transition
open DrgbServer.Utils.ConfigParser (Line isBlank)
open DrgbServer.Redis (stoull)

/-! ## `GetRequest` -/

def inqQuit : Byte := 0
def inqExit : Byte := 1
def inqAccountCheck : Byte := 131
def inqUsage : Byte := 134
def inqClientUsage : Byte := 135
def inqConnUsage : Byte := 136

/-- `cmdtable`, in the order of a `std::map`. -/
def cmdtable : List (Line × Byte) :=
  [("account".toList, inqAccountCheck), ("client".toList, inqClientUsage),
    ("connect".toList, inqConnUsage), ("exit".toList, inqExit), ("help".toList, errDbFailed),
    ("quit".toList, inqQuit), ("usage".toList, inqUsage)]

/-- `cmp`: how many characters fit. -/
def cmp : Line → Line → Nat
  | c :: exp, d :: ctr => if c ≠ d then 0 else cmp exp ctr + 1
  | _, _ => 0

/-- `std::map::insert` of a request. -/
def insert (request : Byte) (fit : Nat) : List (Byte × Nat) → List (Byte × Nat)
  | [] => [(request, fit)]
  | (r, n) :: rest =>
    if request < r then (request, fit) :: (r, n) :: rest
    else if request = r then (r, n) :: rest
    else (r, n) :: insert request fit rest

def compare (command : Line) : List (Byte × Nat) :=
  cmdtable.foldl (fun fits pair => insert pair.2 (cmp command pair.1) fits) []

/-- `std::max_element`: the first of the largest. -/
def maxElement {α : Type*} (best : α × Nat) : List (α × Nat) → α × Nat
  | [] => best
  | x :: rest => maxElement (if best.2 < x.2 then x else best) rest

def getRequest (command : Line) : Byte :=
  match cmdtable.lookup command with
  | some request => request
  | none =>
    match compare command with
    | [] => errProtocolViolation
    | first :: rest =>
      let answer := maxElement first rest
      if (first :: rest).countP (fun pair => pair.2 = answer.2) > 1 then errProtocolViolation
      else answer.1

/-- The command has more in common with this entry than with any other. -/
def Means (command : Line) (entry : Line × Byte) : Prop :=
  ∀ other ∈ cmdtable, other ≠ entry → cmp command other.1 < cmp command entry.1

section Fits
variable {α : Type*} {best x : α × Nat} {rest : List (α × Nat)}

theorem maxElement_mem (best : α × Nat) (rest : List (α × Nat)) :
    maxElement best rest ∈ best :: rest := by
  induction rest generalizing best with
  | nil => exact List.mem_singleton.mpr rfl
  | cons x rest ih =>
    rw [maxElement]
    split
    · exact List.mem_cons_of_mem _ (ih x)
    · rcases List.mem_cons.mp (ih best) with h | h
      · rw [h]
        exact List.mem_cons_self
      · exact List.mem_cons_of_mem _ (List.mem_cons_of_mem _ h)

theorem le_maxElement (best : α × Nat) (rest : List (α × Nat)) :
    ∀ x ∈ best :: rest, x.2 ≤ (maxElement best rest).2 := by
  induction rest generalizing best with
  | nil => simp [maxElement]
  | cons y rest ih =>
    intro x hx
    rw [maxElement]
    have hbest := ih (if best.2 < y.2 then y else best) _ List.mem_cons_self
    rcases List.mem_cons.mp hx with rfl | hx
    · refine le_trans ?_ hbest
      split <;> omega
    rcases List.mem_cons.mp hx with rfl | hx
    · refine le_trans ?_ hbest
      split <;> omega
    · exact ih _ x (List.mem_cons_of_mem _ hx)

/-- The largest is alone exactly if every other entry is smaller. -/
theorem countP_le_one_iff (hn : (best :: rest).Nodup) (hx : x ∈ best :: rest)
    (hmax : ∀ y ∈ best :: rest, y.2 ≤ x.2) :
    (best :: rest).countP (fun y => y.2 = x.2) ≤ 1 ↔
      ∀ y ∈ best :: rest, y ≠ x → y.2 < x.2 := by
  classical
  rw [List.countP_eq_length_filter]
  have hmem : x ∈ (best :: rest).filter fun y => y.2 = x.2 :=
    List.mem_filter.mpr ⟨hx, by simp⟩
  constructor
  · intro hle y hy hne
    refine lt_of_le_of_ne (hmax y hy) fun heq => hne ?_
    have hy' : y ∈ (best :: rest).filter fun y => y.2 = x.2 :=
      List.mem_filter.mpr ⟨hy, by simpa using heq⟩
    obtain ⟨z, hz⟩ := List.length_eq_one_iff.mp
      (Nat.le_antisymm hle (List.length_pos_of_mem hmem))
    rw [hz, List.mem_singleton] at hmem hy'
    rw [hmem, hy']
  · intro hlt
    have hsub : (best :: rest).filter (fun y => y.2 = x.2) ⊆ [x] := by
      intro y hy
      obtain ⟨hy, heq⟩ := List.mem_filter.mp hy
      by_contra hne
      have hless := hlt y hy (by simpa using hne)
      simp only [decide_eq_true_eq] at heq
      omega
    exact (List.subperm_of_subset (hn.filter _) hsub).length_le

end Fits

/-! ### The table -/

variable {command : Line} {entry other : Line × Byte}

theorem insert_perm {request : Byte} (fit : Nat) {fits : List (Byte × Nat)}
    (h : ∀ x ∈ fits, x.1 ≠ request) : (insert request fit fits).Perm ((request, fit) :: fits) := by
  induction fits with
  | nil => exact .refl _
  | cons x rest ih =>
    rw [insert]
    split
    · exact .refl _
    · rw [if_neg (Ne.symm (h x List.mem_cons_self))]
      exact ((ih fun y hy => h y (List.mem_cons_of_mem _ hy)).cons x).trans (.swap _ _ _)

theorem foldl_insert_perm (fit : Line → Nat) {entries : List (Line × Byte)}
    (fits : List (Byte × Nat)) (hn : (fits.map (·.1) ++ entries.map (·.2)).Nodup) :
    (entries.foldl (fun fits pair => insert pair.2 (fit pair.1) fits) fits).Perm
      (fits ++ entries.map fun entry => (entry.2, fit entry.1)) := by
  induction entries generalizing fits with
  | nil => simp
  | cons entry rest ih =>
    have hnew : ∀ x ∈ fits, x.1 ≠ entry.2 := by
      intro x hx heq
      have hdisjoint := (List.nodup_append.mp hn).2.2 x.1 (List.mem_map_of_mem hx) entry.2
        List.mem_cons_self
      exact hdisjoint heq
    have hp := insert_perm (fit entry.1) hnew
    have hn' : ((insert entry.2 (fit entry.1) fits).map (·.1) ++ rest.map (·.2)).Nodup := by
      have hmiddle : (fits.map (·.1) ++ entry.2 :: rest.map (·.2)).Perm
          (entry.2 :: (fits.map (·.1) ++ rest.map (·.2))) := List.perm_middle
      have hp' := (hp.map (·.1)).append_right (rest.map (·.2))
      exact (hp'.trans hmiddle.symm).nodup_iff.mpr hn
    refine (ih _ hn').trans ((hp.append_right _).trans ?_)
    exact List.perm_middle.symm

/-- The entries as `compare` has them. -/
theorem compare_perm (command : Line) :
    (compare command).Perm (cmdtable.map fun entry => (entry.2, cmp command entry.1)) :=
  foldl_insert_perm (cmp command) [] (by decide)

/-- A name of the table has less in common with the other names. -/
theorem means_self : ∀ entry ∈ cmdtable, Means entry.1 entry := by
  unfold Means
  decide

theorem request_injective :
    ∀ entry ∈ cmdtable, ∀ other ∈ cmdtable, entry.2 = other.2 → entry = other := by
  decide

theorem request_ne_violation : ∀ entry ∈ cmdtable, entry.2 ≠ errProtocolViolation := by decide

theorem Means.eq (h : Means command entry) (h' : Means command other) (he : entry ∈ cmdtable)
    (ho : other ∈ cmdtable) : entry = other := by
  by_contra hne
  exact lt_asymm (h other ho (Ne.symm hne)) (h' entry he hne)

/-- Where there is an entry a command means, it is the one that is found. -/
theorem getRequest_cases (command : Line) :
    (∃ entry ∈ cmdtable, Means command entry ∧ getRequest command = entry.2) ∨
      (∀ entry ∈ cmdtable, ¬ Means command entry) ∧ getRequest command = errProtocolViolation := by
  unfold getRequest
  cases hl : cmdtable.lookup command with
  | some request =>
    obtain ⟨before, behind, htable, -⟩ := List.lookup_eq_some_iff.mp hl
    have hmem : (command, request) ∈ cmdtable := by
      rw [htable]
      exact List.mem_append_right _ List.mem_cons_self
    exact .inl ⟨_, hmem, means_self _ hmem, rfl⟩
  | none =>
    have hperm := compare_perm command
    cases hfits : compare command with
    | nil =>
      rw [hfits] at hperm
      exact absurd hperm.length_eq (by simp [cmdtable])
    | cons first rest =>
      rw [hfits] at hperm
      have hn : (first :: rest).Nodup := by
        refine hperm.nodup_iff.mpr (List.Nodup.of_map (·.1) ?_)
        rw [List.map_map]
        show (cmdtable.map (·.2)).Nodup
        decide
      obtain ⟨entry, hentry, heq⟩ := List.mem_map.mp (hperm.mem_iff.mp (maxElement_mem first rest))
      have hmost : ∀ other ∈ cmdtable, cmp command other.1 ≤ cmp command entry.1 := by
        intro other ho
        have hle := le_maxElement first rest (other.2, cmp command other.1)
          (hperm.mem_iff.mpr (List.mem_map_of_mem ho))
        rwa [← heq] at hle
      have hone := countP_le_one_iff hn (maxElement_mem first rest) (le_maxElement first rest)
      dsimp only
      by_cases hmany : (first :: rest).countP
          (fun pair => decide (pair.2 = (maxElement first rest).2)) > 1
      · rw [if_pos hmany]
        refine .inr ⟨fun other ho hmeans => ?_, rfl⟩
        -- what the command means is the largest, and then it is alone
        have hsame : other = entry := by
          by_contra hne
          exact absurd (hmeans entry hentry (Ne.symm hne)) (not_lt.mpr (hmost other ho))
        subst hsame
        refine absurd (hone.mpr fun y hy hne => ?_) (not_le.mpr hmany)
        obtain ⟨third, ht, rfl⟩ := List.mem_map.mp (hperm.mem_iff.mp hy)
        rw [← heq] at hne ⊢
        exact hmeans third ht fun h => hne (by rw [h])
      · rw [if_neg hmany, ← heq]
        refine .inl ⟨entry, hentry, fun other ho hne => ?_, rfl⟩
        have hless := hone.mp (not_lt.mp hmany) (other.2, cmp command other.1)
          (hperm.mem_iff.mpr (List.mem_map_of_mem ho)) ?_
        · rwa [← heq] at hless
        · rw [← heq]
          intro h
          exact hne (request_injective other ho entry hentry (Prod.mk.inj h).1)

/-- **What a word means**: the entry it has most in common with, and nothing where two have
as much. -/
theorem getRequest_spec (command : Line) :
    (∀ entry ∈ cmdtable, getRequest command = entry.2 ↔ Means command entry) ∧
      (getRequest command = errProtocolViolation ↔ ∀ entry ∈ cmdtable, ¬ Means command entry) := by
  rcases getRequest_cases command with ⟨found, hfound, hmeans, heq⟩ | ⟨hnone, heq⟩
  · refine ⟨fun entry he => ⟨fun h => ?_, fun h => ?_⟩, ⟨fun h => ?_, fun h => ?_⟩⟩
    · rwa [request_injective entry he found hfound (h.symm.trans heq)]
    · rw [h.eq hmeans he hfound, heq]
    · exact absurd (heq.symm.trans h) (request_ne_violation found hfound)
    · exact absurd hmeans (h found hfound)
  · refine ⟨fun entry he => ⟨fun h => ?_, fun h => ?_⟩, ⟨fun _ => hnone, fun _ => heq⟩⟩
    · exact absurd (h.symm.trans heq) (request_ne_violation entry he)
    · exact absurd h (hnone entry he)

example : ["u", "cl", "c", "usages", "bye"].map (fun word => getRequest word.toList) =
    [inqUsage, inqClientUsage, errProtocolViolation, inqUsage, errProtocolViolation] := by
  decide

end DrgbServer.Manager
