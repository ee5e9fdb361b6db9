/-! A stack that knows its size. Its view is the list of entries, top first. -/
namespace PackEngine

structure Stack (α : Type) where
  entries : List α
  size : Nat
  size_eq : size = entries.length

namespace Stack

variable {α : Type}

def empty : Stack α := ⟨[], 0, rfl⟩

instance : Inhabited (Stack α) := ⟨empty⟩

def isEmpty (s : Stack α) : Bool := s.size == 0

def push (s : Stack α) (a : α) : Stack α :=
  ⟨a :: s.entries, s.size + 1, by simp [s.size_eq]⟩

def top? (s : Stack α) : Option α := s.entries.head?

def pop? (s : Stack α) : Option (α × Stack α) :=
  match h : s.entries with
  | [] => none
  | a :: rest => some (a, ⟨rest, s.size - 1, by simp [s.size_eq, h]⟩)

def above (s below : Stack α) : Stack α :=
  ⟨s.entries ++ below.entries, s.size + below.size, by simp [s.size_eq, below.size_eq]⟩

/-- Drops entries from the top while they are covered. -/
def discard (covered : α → Bool) (s : Stack α) : Stack α :=
  ⟨s.entries.dropWhile covered, s.size - (s.entries.takeWhile covered).length, by
    have h := congrArg List.length (List.takeWhile_append_dropWhile (p := covered) (l := s.entries))
    rw [List.length_append] at h
    have := s.size_eq
    omega⟩

def filter (keeps : α → Bool) (s : Stack α) : Stack α :=
  ⟨s.entries.filter keeps, (s.entries.filter keeps).length, rfl⟩

def reverse (s : Stack α) : Stack α :=
  ⟨s.entries.reverse, s.size, by simp [s.size_eq]⟩

@[simp] theorem entries_push (s : Stack α) (a : α) : (s.push a).entries = a :: s.entries := rfl

@[simp] theorem entries_above (s below : Stack α) :
    (s.above below).entries = s.entries ++ below.entries := rfl

@[simp] theorem entries_discard (covered : α → Bool) (s : Stack α) :
    (s.discard covered).entries = s.entries.dropWhile covered := rfl

@[simp] theorem entries_filter (keeps : α → Bool) (s : Stack α) :
    (s.filter keeps).entries = s.entries.filter keeps := rfl

@[simp] theorem entries_reverse (s : Stack α) : s.reverse.entries = s.entries.reverse := rfl

theorem pop?_eq_none_iff (s : Stack α) : s.pop? = none ↔ s.entries = [] := by
  unfold pop?
  split <;> simp_all

end Stack

end PackEngine
