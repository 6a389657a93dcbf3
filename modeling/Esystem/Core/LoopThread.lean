import Mathlib.Data.List.Infix
import Esystem.Core.Machine

/-!
# Threads that run a bounded loop over shared locks

A thread executes `for (i = 0; i < bound; i++) { body } return 0;` where the
body is a straight line of statements: acquire a lock, release a lock, or a
plain statement. Any family of such threads runs interleaved, statement by
statement, over shared memory.

- `Stmt`, `Block`: statements and straight-line code.
- `Ctl`: where a thread is. The position inside a round is the code that
  *remains*, so what a thread holds can be read off its position alone.
- `Sync`: what acquire and release mean (`exclusive` for mutexes and spin
  locks, `counting` for semaphores).
- `LoopSys.next`: one step of one thread, or an interrupted acquisition, which
  returns `-1` on the spot.
- `Step`: what one event does, case by case.
- `Ctl.Ok`: the positions a thread of the loop can be at.
-/

namespace Esystem

/-! ## Code and positions -/

/-- A statement of a loop body over locks `L` and plain statements `A`. -/
inductive Stmt (L A : Type) where
  | lock (l : L)
  | unlock (l : L)
  | act (a : A)
  deriving DecidableEq

/-- Straight-line code. -/
abbrev Block (L A : Type) := List (Stmt L A)

/-- Where a thread is: at the loop test with counter `i`, inside round `i` with
`k` still to run, or returned from round `i` with `k` left undone. -/
inductive Ctl (L A : Type) where
  | head (i : Nat)
  | body (i : Nat) (k : Block L A)
  | returned (v : Int) (i : Nat) (k : Block L A)
  deriving DecidableEq

namespace Ctl

variable {L A : Type}

/-- The loop counter: the number of rounds completed. -/
def round : Ctl L A → Nat
  | head i => i
  | body i _ => i
  | returned _ i _ => i

/-- The code of the current round that has not run; at the loop test, all of
the body `b`. -/
def rest (b : Block L A) : Ctl L A → Block L A
  | head _ => b
  | body _ k => k
  | returned _ _ k => k

@[simp] theorem rest_head (b : Block L A) (i : Nat) : (head i).rest b = b := rfl

@[simp] theorem rest_body (b : Block L A) (i : Nat) (k : Block L A) :
    (body i k).rest b = k := rfl

@[simp] theorem rest_returned (b : Block L A) (v : Int) (i : Nat) (k : Block L A) :
    (returned v i k).rest b = k := rfl

/-- The thread has returned. -/
def Done : Ctl L A → Prop
  | returned _ _ _ => True
  | _ => False

instance : DecidablePred (Done (L := L) (A := A))
  | head _ => inferInstanceAs (Decidable False)
  | body _ _ => inferInstanceAs (Decidable False)
  | returned _ _ _ => inferInstanceAs (Decidable True)

/-- The positions a thread with body `b` and bound `n` can be at: inside a
round it is on its code, and it has returned either after `n` rounds or from a
failed acquisition. -/
def Ok (b : Block L A) (n : Nat) : Ctl L A → Prop
  | head i => i ≤ n
  | body i k => i < n ∧ k <:+ b
  | returned v i k => (v = 0 ∧ i = n ∧ k = b) ∨
      (v = -1 ∧ i < n ∧ k <:+ b ∧ ∃ l k', k = .lock l :: k')

theorem Ok.rest_suffix {b : Block L A} {n : Nat} {c : Ctl L A} (h : c.Ok b n) :
    c.rest b <:+ b := by
  cases c with
  | head i => exact List.suffix_rfl
  | body i k => exact h.2
  | returned v i k =>
    rcases h with ⟨-, -, rfl⟩ | ⟨-, -, hk, -⟩
    · exact List.suffix_rfl
    · exact hk

/-- A thread that has returned is at its loop test or at a failed acquisition. -/
theorem Ok.rest_of_done {b : Block L A} {n : Nat} {c : Ctl L A} (h : c.Ok b n)
    (hd : c.Done) : c.rest b = b ∨ ∃ l k, c.rest b = .lock l :: k := by
  cases c with
  | head i => exact absurd hd id
  | body i k => exact absurd hd id
  | returned v i k =>
    rcases h with ⟨-, -, hk⟩ | ⟨-, -, -, l, k', hk⟩
    · exact .inl hk
    · exact .inr ⟨l, k', hk⟩

/-- A thread whose loop is empty has all of its body before it. -/
theorem Ok.rest_of_bound_zero {b : Block L A} {c : Ctl L A} (h : c.Ok b 0) : c.rest b = b := by
  cases c with
  | head i => rfl
  | body i k => exact absurd h.1 (Nat.not_lt_zero i)
  | returned v i k =>
    rcases h with ⟨-, -, rfl⟩ | ⟨-, hi, -⟩
    · rfl
    · exact absurd hi (Nat.not_lt_zero i)

end Ctl

/-! ## What acquire and release do -/

/-- The meaning of a family of locks `L` for threads `ι`, with state `K`. An
acquisition blocks where `acquire` is `none`; where `interruptible`, it may
instead be interrupted, and then acquires nothing. -/
structure Sync (ι L K : Type) where
  acquire : ι → L → K → Option K
  release : ι → L → K → K
  interruptible : Bool

/-- Exclusive locks: each is free or owned by one thread. -/
def exclusive {ι L : Type} [DecidableEq ι] [DecidableEq L] (interruptible : Bool) :
    Sync ι L (L → Option ι) where
  acquire t l K := if K l = none then some (Function.update K l (some t)) else none
  release _ l K := Function.update K l none
  interruptible := interruptible

/-- Counting locks: acquiring blocks at `0` and decrements, releasing
increments. -/
def counting {ι L : Type} [DecidableEq L] (interruptible : Bool) :
    Sync ι L (L → Nat) where
  acquire _ l K := if K l = 0 then none else some (Function.update K l (K l - 1))
  release _ l K := Function.update K l (K l + 1)
  interruptible := interruptible

/-! ## The system -/

/-- A family of looping threads: each has a loop bound and a body; a plain
statement reads and changes the thread's registers `R` and the shared memory
`S`, and may use the thread's loop counter. -/
structure LoopSys (ι L A K R S : Type) where
  sync : Sync ι L K
  bound : ι → Nat
  prog : ι → Block L A
  exec : ι → Nat → A → R → S → R × S

/-- The state of a family of looping threads. -/
structure LoopState (ι L A K R S : Type) where
  ctl : ι → Ctl L A
  reg : ι → R
  locks : K
  shared : S

/-- What the scheduler picks: a thread makes its next step, or the acquisition
a thread is about to make is interrupted. -/
inductive Event (ι : Type) where
  | step (t : ι)
  | interrupt (t : ι)
  deriving DecidableEq

variable {ι L A K R S : Type}

/-- Move thread `t` to position `c`. -/
def LoopState.goto [DecidableEq ι] (s : LoopState ι L A K R S) (t : ι) (c : Ctl L A) :
    LoopState ι L A K R S :=
  { s with ctl := Function.update s.ctl t c }

namespace LoopSys

variable (M : LoopSys ι L A K R S)

/-- All threads at the start of their loops. -/
def init (reg : ι → R) (locks : K) (shared : S) : LoopState ι L A K R S where
  ctl := fun _ => .head 0
  reg := reg
  locks := locks
  shared := shared

/-- The code of thread `t`'s current round that has not run. -/
def rest (s : LoopState ι L A K R S) (t : ι) : Block L A :=
  (s.ctl t).rest (M.prog t)

variable [DecidableEq ι]

/-- One event. A failed acquisition leaves the thread at the acquisition, with
`-1` returned. -/
def next (s : LoopState ι L A K R S) : Event ι → Option (LoopState ι L A K R S)
  | .step t =>
    match s.ctl t with
    | .head i =>
      if i < M.bound t then some (s.goto t (.body i (M.prog t)))
      else some (s.goto t (.returned 0 i (M.prog t)))
    | .body i [] => some (s.goto t (.head (i + 1)))
    | .body i (.lock l :: k) =>
      (M.sync.acquire t l s.locks).map fun K' =>
        { s.goto t (.body i k) with locks := K' }
    | .body i (.unlock l :: k) =>
      some { s.goto t (.body i k) with locks := M.sync.release t l s.locks }
    | .body i (.act a :: k) =>
      let p := M.exec t i a (s.reg t) s.shared
      some { s.goto t (.body i k) with
        reg := Function.update s.reg t p.1, shared := p.2 }
    | .returned _ _ _ => none
  | .interrupt t =>
    match s.ctl t with
    | .body i (.lock l :: k) =>
      if M.sync.interruptible then some (s.goto t (.returned (-1) i (.lock l :: k)))
      else none
    | _ => none

/-- What one event does, case by case. -/
inductive Step (s : LoopState ι L A K R S) : Event ι → LoopState ι L A K R S → Prop where
  | enter {t : ι} {i : Nat} (hc : s.ctl t = .head i) (hi : i < M.bound t) :
      Step s (.step t) (s.goto t (.body i (M.prog t)))
  | leave {t : ι} {i : Nat} (hc : s.ctl t = .head i) (hi : M.bound t ≤ i) :
      Step s (.step t) (s.goto t (.returned 0 i (M.prog t)))
  | again {t : ι} {i : Nat} (hc : s.ctl t = .body i []) :
      Step s (.step t) (s.goto t (.head (i + 1)))
  | lock {t : ι} {i : Nat} {l : L} {k : Block L A} {K' : K}
      (hc : s.ctl t = .body i (.lock l :: k)) (ha : M.sync.acquire t l s.locks = some K') :
      Step s (.step t) { s.goto t (.body i k) with locks := K' }
  | unlock {t : ι} {i : Nat} {l : L} {k : Block L A}
      (hc : s.ctl t = .body i (.unlock l :: k)) :
      Step s (.step t) { s.goto t (.body i k) with locks := M.sync.release t l s.locks }
  | act {t : ι} {i : Nat} {a : A} {k : Block L A}
      (hc : s.ctl t = .body i (.act a :: k)) :
      Step s (.step t) { s.goto t (.body i k) with
        reg := Function.update s.reg t (M.exec t i a (s.reg t) s.shared).1
        shared := (M.exec t i a (s.reg t) s.shared).2 }
  | interrupted {t : ι} {i : Nat} {l : L} {k : Block L A}
      (hc : s.ctl t = .body i (.lock l :: k)) (hi : M.sync.interruptible = true) :
      Step s (.interrupt t) (s.goto t (.returned (-1) i (.lock l :: k)))

variable {M}

/-- Inversion of `next`: every later proof about a step starts here. -/
theorem step_of_next {s s' : LoopState ι L A K R S} {e : Event ι}
    (h : M.next s e = some s') : M.Step s e s' := by
  cases e with
  | step t =>
    simp only [next] at h
    split at h
    · rename_i i hc
      split at h
      · rename_i hi
        cases h
        exact .enter hc hi
      · rename_i hi
        cases h
        exact .leave hc (Nat.le_of_not_lt hi)
    · rename_i i hc
      cases h
      exact .again hc
    · rename_i i l k hc
      obtain ⟨K', ha, rfl⟩ := Option.map_eq_some_iff.mp h
      exact .lock hc ha
    · rename_i i l k hc
      cases h
      exact .unlock hc
    · rename_i i a k hc
      cases h
      exact .act hc
    · cases h
  | interrupt t =>
    simp only [next] at h
    split at h
    · rename_i i l k hc
      split at h
      · rename_i hi
        cases h
        exact .interrupted hc hi
      · cases h
    · cases h

/-- Conversely, these are all the things that `next` does. -/
theorem next_of_step {s s' : LoopState ι L A K R S} {e : Event ι}
    (h : M.Step s e s') : M.next s e = some s' := by
  cases h with
  | enter hc hi => simp only [next, hc, if_pos hi]
  | leave hc hi => simp only [next, hc, if_neg (Nat.not_lt.mpr hi)]
  | again hc => simp only [next, hc]
  | lock hc ha => simp only [next, hc, ha, Option.map_some]
  | unlock hc => simp only [next, hc]
  | act hc => simp only [next, hc]
  | interrupted hc hi => simp only [next, hc, if_pos hi]

/-- A step changes the position of the thread that makes it only. -/
theorem ctl_of_ne {s s' : LoopState ι L A K R S} {t u : ι} (h : M.next s (.step t) = some s')
    (hu : u ≠ t) : s'.ctl u = s.ctl u := by
  cases step_of_next h with
  | enter _ _ => exact Function.update_of_ne hu _ _
  | leave _ _ => exact Function.update_of_ne hu _ _
  | again _ => exact Function.update_of_ne hu _ _
  | lock _ _ => exact Function.update_of_ne hu _ _
  | unlock _ => exact Function.update_of_ne hu _ _
  | act _ => exact Function.update_of_ne hu _ _

/-- A thread that has not returned can step, except at an acquisition that
blocks. -/
theorem can_step_or_blocked {s : LoopState ι L A K R S} {t : ι} (h : ¬ (s.ctl t).Done) :
    (∃ s', M.next s (.step t) = some s') ∨
      ∃ i l k, s.ctl t = .body i (.lock l :: k) ∧ M.sync.acquire t l s.locks = none := by
  cases hc : s.ctl t with
  | head i =>
    left
    simp only [next, hc]
    split
    · exact ⟨_, rfl⟩
    · exact ⟨_, rfl⟩
  | returned v i k =>
    rw [hc] at h
    exact absurd trivial h
  | body i k =>
    match k, hc with
    | [], hc => exact .inl ⟨_, by rw [next, hc]⟩
    | .unlock l :: k, hc => exact .inl ⟨_, by rw [next, hc]⟩
    | .act a :: k, hc => exact .inl ⟨_, by rw [next, hc]⟩
    | .lock l :: k, hc =>
      cases ha : M.sync.acquire t l s.locks with
      | none => exact .inr ⟨i, l, k, rfl, ha⟩
      | some K' =>
        refine .inl ⟨{ s.goto t (.body i k) with locks := K' }, ?_⟩
        simp only [next, hc, ha, Option.map_some]

end LoopSys

end Esystem
