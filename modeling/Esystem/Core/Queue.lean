import Mathlib.Data.List.Basic

/-!
# Queues that lose nothing

A first-in first-out queue together with its history: what was pushed, what was
popped, and what is queued. That the three agree is part of the type, so a
`Queue` cannot lose, invent, repeat or reorder an element. Concrete buffers are
shown correct by exhibiting the `Queue` they implement.
-/

namespace Esystem

universe u

/-- A queue with its history, oldest element first. -/
structure Queue (α : Type u) where
  pushed : List α
  popped : List α
  queued : List α
  conserved : pushed = popped ++ queued

namespace Queue

variable {α : Type u}

/-- The queue that nothing has happened to. -/
def empty : Queue α := ⟨[], [], [], rfl⟩

/-- Append `xs` to the queue. -/
def push (q : Queue α) (xs : List α) : Queue α where
  pushed := q.pushed ++ xs
  popped := q.popped
  queued := q.queued ++ xs
  conserved := by rw [q.conserved, List.append_assoc]

/-- Remove the oldest `n` elements, or all where there are fewer. -/
def pop (q : Queue α) (n : Nat) : Queue α where
  pushed := q.pushed
  popped := q.popped ++ q.queued.take n
  queued := q.queued.drop n
  conserved := by rw [q.conserved, List.append_assoc, List.take_append_drop]

@[simp] theorem push_pushed (q : Queue α) (xs : List α) :
    (q.push xs).pushed = q.pushed ++ xs := rfl

@[simp] theorem push_popped (q : Queue α) (xs : List α) : (q.push xs).popped = q.popped := rfl

@[simp] theorem push_queued (q : Queue α) (xs : List α) :
    (q.push xs).queued = q.queued ++ xs := rfl

@[simp] theorem pop_pushed (q : Queue α) (n : Nat) : (q.pop n).pushed = q.pushed := rfl

@[simp] theorem pop_popped (q : Queue α) (n : Nat) :
    (q.pop n).popped = q.popped ++ q.queued.take n := rfl

@[simp] theorem pop_queued (q : Queue α) (n : Nat) :
    (q.pop n).queued = q.queued.drop n := rfl

@[simp] theorem push_nil (q : Queue α) : q.push [] = q := by
  cases q
  simp [push]

/-- Two pushes are one. -/
theorem push_push (q : Queue α) (xs ys : List α) : (q.push xs).push ys = q.push (xs ++ ys) := by
  simp [push]

@[simp] theorem pop_zero (q : Queue α) : q.pop 0 = q := by
  cases q
  simp [pop]

/-- Two pops are one, whether there is enough for them or not. -/
theorem pop_pop (q : Queue α) (m n : Nat) : (q.pop m).pop n = q.pop (m + n) := by
  simp [pop, List.take_add]

/-- What is queued was pushed. -/
theorem mem_pushed_of_queued {q : Queue α} {x : α} (h : x ∈ q.queued) : x ∈ q.pushed := by
  rw [q.conserved]
  exact List.mem_append_right _ h

end Queue

end Esystem
