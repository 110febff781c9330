import DrgbServer.Lib.Transition

/-! # Overlapping transactions

Transactions that run under READ COMMITTED on any number of connections. Each reads rows as
they are committed, decides on them, writes at most one row, and commits. The row is locked
from the write on, and the write works on the row as it is then; but between the read and the
write the transactions of other connections may commit. -/
namespace DrgbServer.Lib.ReadCommitted
open Transition

variable {κ τ α ε : Type*} {ρ : κ → Type*}

/-- An update of one row, and the reply once it is committed. -/
structure Write (ρ : κ → Type*) (α ε : Type*) where
  key : κ
  update : ρ key → Except ε (ρ key)
  reply : α

/-- What a transaction goes on with after its read. -/
inductive Decision (ρ : κ → Type*) (α ε : Type*) where
  | reply (a : α)
  | write (w : Write ρ α ε)

/-- The transaction of a connection. -/
inductive Phase (ρ : κ → Type*) (τ α ε : Type*) where
  | idle
  | decided (t : τ) (w : Write ρ α ε)
  /-- the row is locked, and nobody else sees the new one -/
  | written (t : τ) (w : Write ρ α ε) (row : ρ w.key)

structure System (ρ : κ → Type*) (τ α ε : Type*) where
  rows : ∀ key, ρ key
  /-- the connection that has locked a row -/
  lock : κ → Option Nat
  phase : Nat → Phase ρ τ α ε
  /-- the transactions that have ended well, with their replies -/
  log : List (τ × α)

inductive Label (τ : Type*) where
  /-- a transaction begins and reads -/
  | select (i : Nat) (t : τ)
  | write (i : Nat)
  | commit (i : Nat)
  /-- the connection breaks, or the caller gives up -/
  | abort (i : Nat)

def Label.connection : Label τ → Nat
  | .select i _ | .write i | .commit i | .abort i => i

namespace System

def start (rows : ∀ key, ρ key) : System ρ τ α ε := ⟨rows, fun _ => none, fun _ => .idle, []⟩

def enter (s : System ρ τ α ε) (i : Nat) (p : Phase ρ τ α ε) : System ρ τ α ε :=
  { s with phase := Function.update s.phase i p }

/-- The sum of what the transactions of the first connections weigh. -/
def weigh (n : Nat) (weight : Phase ρ τ α ε → Nat) (s : System ρ τ α ε) : Nat :=
  ∑ i ∈ Finset.range n, weight (s.phase i)

theorem enter_phase_self (s : System ρ τ α ε) (i : Nat) (p : Phase ρ τ α ε) :
    (s.enter i p).phase i = p := Function.update_self _ _ _

theorem enter_phase_of_ne (s : System ρ τ α ε) {i j : Nat} (h : j ≠ i) (p : Phase ρ τ α ε) :
    (s.enter i p).phase j = s.phase j := Function.update_of_ne h _ _

theorem weigh_enter (s : System ρ τ α ε) {n i : Nat} (hi : i < n)
    (weight : Phase ρ τ α ε → Nat) (p : Phase ρ τ α ε) :
    (s.enter i p).weigh n weight + weight (s.phase i) = s.weigh n weight + weight p := by
  have hmem : i ∈ Finset.range n := Finset.mem_range.mpr hi
  have hrest : ∑ j ∈ (Finset.range n).erase i, weight ((s.enter i p).phase j) =
      ∑ j ∈ (Finset.range n).erase i, weight (s.phase j) := by
    refine Finset.sum_congr rfl fun j hj => ?_
    rw [enter_phase_of_ne s (Finset.ne_of_mem_erase hj)]
  unfold weigh
  rw [← Finset.add_sum_erase _ _ hmem, ← Finset.add_sum_erase _ (fun j => weight (s.phase j)) hmem,
    hrest, enter_phase_self]
  omega

theorem weigh_le (s : System ρ τ α ε) (n : Nat) {weight : Phase ρ τ α ε → Nat}
    (h : ∀ p, weight p ≤ 1) : s.weigh n weight ≤ n := by
  have hsum := Finset.sum_le_card_nsmul (Finset.range n) (fun i => weight (s.phase i)) 1
    fun i _ => h (s.phase i)
  simpa [weigh] using hsum

/-- The row is locked until the transaction ends. -/
def hold [DecidableEq κ] (s : System ρ τ α ε) (i : Nat) (t : τ) (w : Write ρ α ε)
    (row : ρ w.key) : System ρ τ α ε :=
  { s.enter i (.written t w row) with lock := Function.update s.lock w.key (some i) }

def release [DecidableEq κ] (s : System ρ τ α ε) (i : Nat) (key : κ) : System ρ τ α ε :=
  { s.enter i .idle with lock := Function.update s.lock key none }

variable [DecidableEq κ] (plan : τ → (∀ key, ρ key) → Except ε (Decision ρ α ε))

def step (s : System ρ τ α ε) : Label τ → Option (System ρ τ α ε)
  | .select i t => match s.phase i with
    | .idle => match plan t s.rows with
      | .error _ => some s
      | .ok (.reply a) => some { s with log := s.log ++ [(t, a)] }
      | .ok (.write w) => some (s.enter i (.decided t w))
    | _ => none
  | .write i => match s.phase i with
    | .decided t w =>
      if (s.lock w.key).isSome then none
      else match w.update (s.rows w.key) with
        | .error _ => some (s.enter i .idle)
        | .ok row => some (s.hold i t w row)
    | _ => none
  | .commit i => match s.phase i with
    | .written t w row => some { s.release i w.key with
        rows := Function.update s.rows w.key row
        log := s.log ++ [(t, w.reply)] }
    | _ => none
  | .abort i => match s.phase i with
    | .idle => none
    | .decided _ _ => some (s.enter i .idle)
    | .written _ w _ => some (s.release i w.key)

variable {plan : τ → (∀ key, ρ key) → Except ε (Decision ρ α ε)} {s s' : System ρ τ α ε}
  {l : Label τ} {rows : ∀ key, ρ key}

/-- What a step can do. -/
inductive Moves (plan : τ → (∀ key, ρ key) → Except ε (Decision ρ α ε)) (s : System ρ τ α ε) :
    Label τ → System ρ τ α ε → Prop where
  | failed {i : Nat} {t : τ} : Moves plan s (.select i t) s
  | replied {i : Nat} {t : τ} {a : α} (hplan : plan t s.rows = .ok (.reply a)) :
    Moves plan s (.select i t) { s with log := s.log ++ [(t, a)] }
  | decided {i : Nat} {t : τ} {w : Write ρ α ε} (hphase : s.phase i = .idle)
    (hplan : plan t s.rows = .ok (.write w)) :
    Moves plan s (.select i t) (s.enter i (.decided t w))
  | written {i : Nat} {t : τ} {w : Write ρ α ε} {row : ρ w.key}
    (hphase : s.phase i = .decided t w) (hlock : s.lock w.key = none)
    (hrow : w.update (s.rows w.key) = .ok row) : Moves plan s (.write i) (s.hold i t w row)
  | dropped {l : Label τ} {t : τ} {w : Write ρ α ε} (hphase : s.phase l.connection = .decided t w)
    (hl : l = .write l.connection ∨ l = .abort l.connection) :
    Moves plan s l (s.enter l.connection .idle)
  | released {i : Nat} {t : τ} {w : Write ρ α ε} {row : ρ w.key}
    (hphase : s.phase i = .written t w row) : Moves plan s (.abort i) (s.release i w.key)
  | committed {i : Nat} {t : τ} {w : Write ρ α ε} {row : ρ w.key}
    (hphase : s.phase i = .written t w row) : Moves plan s (.commit i) { s.release i w.key with
      rows := Function.update s.rows w.key row, log := s.log ++ [(t, w.reply)] }

theorem moves_of_step (hr : step plan s l = some s') : Moves plan s l s' := by
  cases l with
  | select i t =>
    simp only [step] at hr
    split at hr
    · rename_i hphase
      split at hr <;> cases hr
      · exact .failed
      · rename_i hplan
        exact .replied hplan
      · rename_i hplan
        exact .decided hphase hplan
    · cases hr
  | write i =>
    simp only [step] at hr
    split at hr
    · rename_i hphase
      split at hr
      · cases hr
      · rename_i hlock
        split at hr <;> cases hr
        · exact .dropped (l := .write i) hphase (.inl rfl)
        · rename_i hrow
          exact .written hphase (by simpa using hlock) hrow
    · cases hr
  | commit i =>
    simp only [step] at hr
    split at hr
    · rename_i hphase
      cases hr
      exact .committed hphase
    · cases hr
  | abort i =>
    simp only [step] at hr
    split at hr <;> cases hr
    · rename_i hphase
      exact .dropped (l := .abort i) hphase (.inr rfl)
    · rename_i hphase
      exact .released hphase

/-! ## The locks -/

/-- What holds of the rows, of the reads that are not yet answered, and of the locks: a row
that is written is the update of the row as it is. -/
structure Guarded (plan : τ → (∀ key, ρ key) → Except ε (Decision ρ α ε))
    (I : (∀ key, ρ key) → Prop) (s : System ρ τ α ε) : Prop where
  rows : I s.rows
  lock : ∀ key i, s.lock key = some i →
    ∃ t w row, s.phase i = .written t w row ∧ w.key = key
  decided : ∀ i t w, s.phase i = .decided t w → ∃ rows, I rows ∧ plan t rows = .ok (.write w)
  written : ∀ i t w row, s.phase i = .written t w row → s.lock w.key = some i ∧
    w.update (s.rows w.key) = .ok row ∧ ∃ rows, I rows ∧ plan t rows = .ok (.write w)

variable {I : (∀ key, ρ key) → Prop}

omit [DecidableEq κ] in
theorem guarded_start (h : I rows) : Guarded plan I (start rows) :=
  ⟨h, nofun, nofun, nofun⟩

omit [DecidableEq κ] in
/-- A connection that has locked nothing goes on, and does not lock anything. -/
theorem Guarded.enter (h : Guarded plan I s) {i : Nat} {p : Phase ρ τ α ε}
    (hfree : ∀ t w row, s.phase i ≠ .written t w row)
    (hp : p = .idle ∨ ∃ t w rows, p = .decided t w ∧ I rows ∧ plan t rows = .ok (.write w)) :
    Guarded plan I (s.enter i p) := by
  have hnew : ∀ t w row, p ≠ .written t w row := by
    rcases hp with rfl | ⟨_, _, _, rfl, -⟩
    · exact nofun
    · exact nofun
  refine ⟨h.rows, fun key j hj => ?_, fun j t w hj => ?_, fun j t w row hj => ?_⟩
  · obtain ⟨t, w, row, hphase, hkey⟩ := h.lock key j hj
    have hne : j ≠ i := by
      rintro rfl
      exact hfree t w row hphase
    exact ⟨t, w, row, (s.enter_phase_of_ne hne p).trans hphase, hkey⟩
  · by_cases hne : j = i
    · subst hne
      rw [enter_phase_self] at hj
      rcases hp with rfl | ⟨t', w', rows, rfl, hI, hplan⟩
      · cases hj
      · cases hj
        exact ⟨rows, hI, hplan⟩
    · rw [enter_phase_of_ne s hne] at hj
      exact h.decided j t w hj
  · by_cases hne : j = i
    · subst hne
      rw [enter_phase_self] at hj
      exact absurd hj (hnew t w row)
    · rw [enter_phase_of_ne s hne] at hj
      exact h.written j t w row hj

/-- A connection locks a row and writes it. -/
theorem Guarded.hold (h : Guarded plan I s) {i : Nat} {t : τ} {w : Write ρ α ε} {row : ρ w.key}
    (hphase : s.phase i = .decided t w) (hlock : s.lock w.key = none)
    (hrow : w.update (s.rows w.key) = .ok row) : Guarded plan I (s.hold i t w row) := by
  refine ⟨h.rows, fun key j hj => ?_, fun j t' w' hj => ?_, fun j t' w' row' hj => ?_⟩
  · by_cases hkey : key = w.key
    · subst hkey
      change Function.update s.lock w.key (some i) w.key = some j at hj
      rw [Function.update_self] at hj
      cases hj
      exact ⟨t, w, row, s.enter_phase_self _ _, rfl⟩
    · have hj' : s.lock key = some j := (Function.update_of_ne hkey _ _).symm.trans hj
      obtain ⟨t', w', row', hphase', hkey'⟩ := h.lock key j hj'
      have hne : j ≠ i := by
        rintro rfl
        rw [hphase] at hphase'
        cases hphase'
      exact ⟨t', w', row', (s.enter_phase_of_ne hne _).trans hphase', hkey'⟩
  · by_cases hne : j = i
    · subst hne
      exact absurd ((s.enter_phase_self j _).symm.trans hj) nofun
    · exact h.decided j t' w' ((s.enter_phase_of_ne hne _).symm.trans hj)
  · by_cases hne : j = i
    · subst hne
      have heq := (s.enter_phase_self j _).symm.trans hj
      cases heq
      exact ⟨Function.update_self _ _ _, hrow, h.decided _ _ _ hphase⟩
    · have hj' := (s.enter_phase_of_ne hne _).symm.trans hj
      obtain ⟨hheld, hrow', hplan⟩ := h.written j t' w' row' hj'
      have hkey : w'.key ≠ w.key := by
        intro hkey
        rw [hkey, hlock] at hheld
        cases hheld
      exact ⟨(Function.update_of_ne hkey _ _).trans hheld, hrow', hplan⟩

/-- A connection gives its lock back, with the row as it was or with a new one. -/
theorem Guarded.release (h : Guarded plan I s) {i : Nat} {t : τ} {w : Write ρ α ε}
    {row : ρ w.key} (hphase : s.phase i = .written t w row) {rows : ∀ key, ρ key} (hI : I rows)
    (hrows : ∀ key, key ≠ w.key → rows key = s.rows key) (log : List (τ × α)) :
    Guarded plan I { s.release i w.key with rows := rows, log := log } := by
  have hheld := (h.written i t w row hphase).1
  refine ⟨hI, fun key j hj => ?_, fun j t' w' hj => ?_, fun j t' w' row' hj => ?_⟩
  · by_cases hkey : key = w.key
    · subst hkey
      exact absurd ((Function.update_self _ _ _).symm.trans hj) nofun
    · have hj' : s.lock key = some j := (Function.update_of_ne hkey _ _).symm.trans hj
      obtain ⟨t', w', row', hphase', hkey'⟩ := h.lock key j hj'
      have hne : j ≠ i := by
        rintro rfl
        rw [hphase] at hphase'
        cases hphase'
        exact hkey hkey'.symm
      exact ⟨t', w', row', (s.enter_phase_of_ne hne _).trans hphase', hkey'⟩
  · by_cases hne : j = i
    · subst hne
      exact absurd ((s.enter_phase_self j _).symm.trans hj) nofun
    · exact h.decided j t' w' ((s.enter_phase_of_ne hne _).symm.trans hj)
  · by_cases hne : j = i
    · subst hne
      exact absurd ((s.enter_phase_self j _).symm.trans hj) nofun
    · obtain ⟨hlock, hrow, hplan⟩ :=
        h.written j t' w' row' ((s.enter_phase_of_ne hne _).symm.trans hj)
      -- the row of another connection is another row
      have hkey : w'.key ≠ w.key := by
        intro heq
        rw [heq, hheld] at hlock
        exact hne (Option.some.inj hlock).symm
      refine ⟨(Function.update_of_ne hkey _ _).trans hlock, ?_, hplan⟩
      show w'.update (rows w'.key) = .ok row'
      rwa [hrows _ hkey]

/-- **The locks keep what was written current**, as long as the updates keep what holds of the
rows. -/
theorem Guarded.step (hstep : ∀ t rows rows' w row, I rows → I rows' →
      plan t rows = .ok (.write w) → w.update (rows' w.key) = .ok row →
      I (Function.update rows' w.key row))
    (h : Guarded plan I s) (hr : System.step plan s l = some s') : Guarded plan I s' := by
  cases moves_of_step hr with
  | failed => exact h
  | replied => exact ⟨h.rows, h.lock, h.decided, h.written⟩
  | @decided i t w hphase hplan =>
    refine h.enter (fun t w row => ?_) (.inr ⟨t, w, s.rows, rfl, h.rows, hplan⟩)
    rw [hphase]
    exact nofun
  | written hphase hlock hrow => exact h.hold hphase hlock hrow
  | dropped hphase =>
    refine h.enter (fun t w row => ?_) (.inl rfl)
    rw [hphase]
    exact nofun
  | released hphase => exact h.release hphase h.rows (fun _ _ => rfl) _
  | @committed i t w row hphase =>
    obtain ⟨-, hrow, rows, hI, hplan⟩ := h.written i t w row hphase
    exact h.release hphase (hstep t rows s.rows w row hI h.rows hplan hrow)
      (fun key hkey => Function.update_of_ne hkey _ _) _

/-! ## One after the other -/

variable (plan)

/-- A transaction that nothing comes in between of. -/
def alone (t : τ) (rows : ∀ key, ρ key) : Except ε (α × ∀ key, ρ key) :=
  match plan t rows with
  | .error e => .error e
  | .ok (.reply a) => .ok (a, rows)
  | .ok (.write w) => match w.update (rows w.key) with
    | .error e => .error e
    | .ok row => .ok (w.reply, Function.update rows w.key row)

variable [DecidableEq α]

/-- The rows after a transaction that is alone and replies as it did. -/
def told (rows : ∀ key, ρ key) (entry : τ × α) : Option (∀ key, ρ key) :=
  match alone plan entry.1 rows with
  | .error _ => none
  | .ok (a, rows) => if a = entry.2 then some rows else none

/-- The rows and the replies are those of the same transactions one after the other, in the
order in which they have ended. -/
def Serial (rows : ∀ key, ρ key) (s : System ρ τ α ε) : Prop :=
  run (told plan) rows s.log = some s.rows

/-- The condition on a step: a commit finds rows on which the transaction would still do what
it has done. -/
def Unmoved (s : System ρ τ α ε) : Label τ → Prop
  | .commit i => match s.phase i with
    | .written t w row => told plan s.rows (t, w.reply) = some (Function.update s.rows w.key row)
    | _ => True
  | _ => True

variable {plan}

theorem run_told_append {log : List (τ × α)} {entry : τ × α}
    (h : run (told plan) rows log = some s.rows) :
    run (told plan) rows (log ++ [entry]) = told plan s.rows entry := by
  rw [run_append, h]
  simp [run_cons]

theorem told_reply {t : τ} {a : α} (hp : plan t rows = .ok (.reply a)) :
    told plan rows (t, a) = some rows := by
  simp [told, alone, hp]

theorem Serial.step (h : Serial plan rows s) (hu : Unmoved plan s l)
    (hr : System.step plan s l = some s') : Serial plan rows s' := by
  cases moves_of_step hr with
  | replied hplan => exact (run_told_append h).trans (told_reply hplan)
  | committed hphase =>
    refine (run_told_append h).trans ?_
    simpa only [Unmoved, hphase] using hu
  | _ => exact h

theorem Serial.not_step (h : Serial plan rows s) (hu : ¬ Unmoved plan s l)
    (hr : System.step plan s l = some s') : ¬ Serial plan rows s' := by
  cases moves_of_step hr with
  | committed hphase =>
    intro hs
    refine hu ?_
    simp only [Unmoved, hphase]
    exact (run_told_append h).symm.trans hs
  | dropped hphase hl =>
    rcases hl with hl | hl <;> rw [hl] at hu
    · exact absurd trivial hu
    · exact absurd trivial hu
  | _ => exact absurd trivial hu

/-- **Overlapping transactions do what they would do one after the other, in the order in which
they end, exactly as long as** no commit finds its decision overtaken. -/
theorem always_serial_iff_unmoved (plan : τ → (∀ key, ρ key) → Except ε (Decision ρ α ε))
    (rows : ∀ key, ρ key) (ls : List (Label τ)) :
    Always (step plan) (Serial plan rows) (start rows) ls ↔
      Meets (step plan) (Unmoved plan) (start rows) ls :=
  always_iff_meets (I := Serial plan rows) (fun _ h => h) (fun _ _ _ h hu hr => h.step hu hr)
    (fun _ _ _ h hu hr => h.not_step hu hr) ls rfl

end System
end DrgbServer.Lib.ReadCommitted
