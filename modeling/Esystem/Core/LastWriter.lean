import Mathlib.Data.Option.Basic
import Esystem.Core.Family
import Esystem.Core.Machine

/-!
# Interleaved writers and the last one of each cell

Processes `ι` each carry out a list of write operations on a shared memory of
cells `P`, one operation at a time, in any interleaving. An operation sets some
cells and leaves the others as they are.

What a cell holds in the end is decided by the process that wrote it last, and
it is what that process leaves there when it runs on its own:

- `Cells.lastEffect`: what a list of operations leaves in a cell, if it sets it.
- `settles_step`: every step keeps each cell on its way to what its last writer
  leaves there.
- `read_of_writer`, `read_of_no_writer`: the cells in the end.
-/

namespace Esystem

/-- A memory `S` of cells `P` with values `V` and operations `O`. What an
operation does to a cell depends on the operation only. -/
structure Cells (O S P V : Type) where
  exec : O → S → S
  read : S → P → V
  effect : O → P → Option V
  read_exec : ∀ o m p, read (exec o m) p = (effect o p).getD (read m p)

/-- The processes: what each has still to do, the memory, and who wrote each
cell last. -/
structure Writers (ι O S P : Type) where
  todo : ι → List O
  mem : S
  writer : P → Option ι

variable {ι O S P V : Type}

namespace Cells

variable (C : Cells O S P V)

/-- What a list of operations leaves in a cell, if one of them sets it. -/
def lastEffect (p : P) : List O → Option V
  | [] => none
  | o :: k => (lastEffect p k).or (C.effect o p)

theorem lastEffect_append (p : P) (a b : List O) :
    C.lastEffect p (a ++ b) = (C.lastEffect p b).or (C.lastEffect p a) := by
  induction a with
  | nil => exact (Option.or_none).symm
  | cons o a ih => rw [List.cons_append, lastEffect, ih, lastEffect, Option.or_assoc]

/-- One process after another on its own: the cells hold what it leaves. -/
theorem read_foldl (p : P) (ops : List O) (m : S) :
    C.read (ops.foldl (fun m o => C.exec o m) m) p = (C.lastEffect p ops).getD (C.read m p) := by
  induction ops generalizing m with
  | nil => rfl
  | cons o ops ih =>
    rw [List.foldl_cons, ih, C.read_exec, lastEffect]
    cases C.lastEffect p ops with
    | none => rfl
    | some v => rfl

end Cells

namespace Writers

/-- All processes at the start of their operations. -/
def start (prog : ι → List O) (m : S) : Writers ι O S P where
  todo := prog
  mem := m
  writer := fun _ => none

variable [DecidableEq ι] (C : Cells O S P V)

/-- A process carries out its next operation. -/
def next (s : Writers ι O S P) (t : ι) : Option (Writers ι O S P) :=
  match s.todo t with
  | [] => none
  | o :: k =>
    some
      { todo := Function.update s.todo t k
        mem := C.exec o s.mem
        writer := fun p => if (C.effect o p).isSome then some t else s.writer p }

/-- On the way to what the last writer leaves in cell `p`: what a process has
still to do sets `p` finally if it sets it at all, the last writer has `p` as it
leaves it unless it sets it again, and without a writer nothing has happened to
`p`. -/
structure Settles (p : P) (prog : ι → List O) (m : S) (s : Writers ι O S P) : Prop where
  ahead : ∀ t, C.lastEffect p (s.todo t) = none ∨
    C.lastEffect p (s.todo t) = C.lastEffect p (prog t)
  written : ∀ t, s.writer p = some t →
    (C.lastEffect p (s.todo t)).or (some (C.read s.mem p)) = C.lastEffect p (prog t)
  untouched : s.writer p = none → C.read s.mem p = C.read m p ∧
    ∀ t, C.lastEffect p (s.todo t) = C.lastEffect p (prog t)

variable {C} {p : P} {prog : ι → List O} {m : S} {s s' : Writers ι O S P}

omit [DecidableEq ι] in
theorem settles_start : Settles C p prog m (start prog m) where
  ahead _ := .inr rfl
  written _ h := by cases h
  untouched _ := ⟨rfl, fun _ => rfl⟩

/-- An operation that leaves `p` alone. -/
theorem settles_skip (h : Settles C p prog m s) {t : ι} {o : O} {k : List O}
    (htodo : s.todo t = o :: k) (he : C.effect o p = none) {writer : P → Option ι}
    (hw : writer p = s.writer p) :
    Settles C p prog m ⟨Function.update s.todo t k, C.exec o s.mem, writer⟩ := by
  have hsame : ∀ u, C.lastEffect p (Function.update s.todo t k u)
      = C.lastEffect p (s.todo u) := by
    intro u
    by_cases hu : u = t
    · rw [hu, Function.update_self, htodo, Cells.lastEffect, he, Option.or_none]
    · rw [Function.update_of_ne hu]
  have hread : C.read (C.exec o s.mem) p = C.read s.mem p := by
    rw [C.read_exec, he, Option.getD_none]
  constructor
  · intro u
    dsimp only
    rw [hsame u]
    exact h.ahead u
  · intro u hu
    dsimp only
    rw [hsame u, hread]
    exact h.written u (hw ▸ hu)
  · intro hu
    obtain ⟨hm, hall⟩ := h.untouched (hw ▸ hu)
    exact ⟨hread.trans hm, fun u => (hsame u).trans (hall u)⟩

/-- An operation that sets `p`: its process is the last writer now. -/
theorem settles_write (h : Settles C p prog m s) {t : ι} {o : O} {k : List O}
    (htodo : s.todo t = o :: k) {v : V} (he : C.effect o p = some v) {writer : P → Option ι}
    (hw : writer p = some t) :
    Settles C p prog m ⟨Function.update s.todo t k, C.exec o s.mem, writer⟩ := by
  have hfinal : (C.lastEffect p k).or (some v) = C.lastEffect p (prog t) := by
    have hahead := h.ahead t
    rw [htodo, Cells.lastEffect, he] at hahead
    rcases hahead with hnone | hprog
    · cases hk : C.lastEffect p k with
      | none =>
        rw [hk] at hnone
        cases hnone
      | some w =>
        rw [hk] at hnone
        cases hnone
    · exact hprog
  constructor
  · intro u
    dsimp only
    by_cases hu : u = t
    · rw [hu, Function.update_self]
      cases hk : C.lastEffect p k with
      | none => exact .inl rfl
      | some w =>
        rw [hk, Option.some_or] at hfinal
        exact .inr hfinal
    · rw [Function.update_of_ne hu]
      exact h.ahead u
  · intro u hu
    have hut : t = u := Option.some.inj (hw.symm.trans hu)
    subst hut
    dsimp only
    rw [Function.update_self, C.read_exec, he, Option.getD_some]
    exact hfinal
  · intro hu
    cases hw.symm.trans hu

/-- Every step keeps the cells on their way. -/
theorem settles_step (h : Settles C p prog m s) {t : ι} (hs : next C s t = some s') :
    Settles C p prog m s' := by
  cases htodo : s.todo t with
  | nil =>
    rw [next, htodo] at hs
    cases hs
  | cons o k =>
    simp only [next, htodo, Option.some.injEq] at hs
    subst hs
    cases he : C.effect o p with
    | none => exact settles_skip h htodo he (by simp [he])
    | some v => exact settles_write h htodo he (by simp [he])

theorem settles_run {sched : List ι} (hr : run (next C) (start prog m) sched = some s) :
    Settles C p prog m s :=
  run_inv (I := Settles C p prog m) (fun h hs => settles_step h hs) settles_start hr

/-- **The last writer decides**: when all is done, a cell holds what its last
writer leaves there. -/
theorem read_of_writer {sched : List ι} (hr : run (next C) (start prog m) sched = some s)
    {t : ι} (hdone : s.todo t = []) (hw : s.writer p = some t) :
    C.lastEffect p (prog t) = some (C.read s.mem p) := by
  have h := (settles_run (p := p) hr).written t hw
  rw [hdone] at h
  exact h.symm

/-- A cell that nobody wrote is as it was, and nobody had anything to write
there. -/
theorem read_of_no_writer {sched : List ι} (hr : run (next C) (start prog m) sched = some s)
    (hdone : ∀ t, s.todo t = []) (hw : s.writer p = none) :
    C.read s.mem p = C.read m p ∧ ∀ t, C.lastEffect p (prog t) = none := by
  obtain ⟨hread, hall⟩ := (settles_run (p := p) hr).untouched hw
  refine ⟨hread, fun t => ?_⟩
  rw [← hall t, hdone t]
  rfl

end Writers

end Esystem
