import Mathlib.Tactic

/-! # A tape with a reading position

What has been read stays on the tape, so that the position can go back to the beginning;
what is put goes to the end. A tape of symbols that stand for lists of smaller symbols
expands to a tape of these, and the operations commute with the expansion. -/
namespace DrgbServer.Lib

structure Tape (α : Type*) where
  read : List α
  unread : List α

namespace Tape

variable {α β : Type*}

def put (t : Tape α) (xs : List α) : Tape α := ⟨t.read, t.unread ++ xs⟩

def advance (t : Tape α) (n : Nat) : Tape α := ⟨t.read ++ t.unread.take n, t.unread.drop n⟩

def rewind (t : Tape α) : Tape α := ⟨[], t.read ++ t.unread⟩

def contents (t : Tape α) : List α := t.read ++ t.unread

/-- The tape of what the symbols stand for. -/
def expand (f : α → List β) (t : Tape α) : Tape β := ⟨t.read.flatMap f, t.unread.flatMap f⟩

@[simp] theorem contents_put (t : Tape α) (xs : List α) :
    (t.put xs).contents = t.contents ++ xs := by
  simp [contents, put]

@[simp] theorem contents_advance (t : Tape α) (n : Nat) :
    (t.advance n).contents = t.contents := by
  simp [contents, advance]

@[simp] theorem contents_rewind (t : Tape α) : t.rewind.contents = t.contents := rfl

variable (f : α → List β)

@[simp] theorem expand_put (t : Tape α) (xs : List α) :
    (t.put xs).expand f = (t.expand f).put (xs.flatMap f) := by
  simp [expand, put]

@[simp] theorem expand_rewind (t : Tape α) : t.rewind.expand f = (t.expand f).rewind := by
  simp [expand, rewind]

/-- The next symbol is read as what it stands for. -/
theorem expand_advance_one {t : Tape α} {x : α} {rest : List α} (h : t.unread = x :: rest) :
    (t.advance 1).expand f = (t.expand f).advance (f x).length := by
  simp [expand, advance, h]

theorem expand_advance_all (t : Tape α) :
    (t.advance t.unread.length).expand f = (t.expand f).advance (t.expand f).unread.length := by
  simp [expand, advance]

end Tape
end DrgbServer.Lib
