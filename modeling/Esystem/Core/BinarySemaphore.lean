import Esystem.Core.LockDiscipline
import Esystem.Core.Trace

/-!
# Mutexes and binary semaphores

Threads that run the same code over different kinds of locks.

- `SameBut.next`: if the locks of two families of threads behave alike, the
  families take the same steps.
- `binary_next`: a semaphore that starts at 1 behaves like a mutex for threads
  that acquire and release in turn. What makes the release of a counter the
  release of a mutex is that only the owner releases.
-/

namespace Esystem

variable {ι L L' A K K' R S : Type}

/-! ## The same code over other locks -/

/-- The same statement about the lock `f l` in place of `l`. -/
def Stmt.mapLock (f : L → L') : Stmt L A → Stmt L' A
  | .lock l => .lock (f l)
  | .unlock l => .unlock (f l)
  | .act a => .act a

/-- The same code over the locks `f l`. -/
def Block.mapLock (f : L → L') (k : Block L A) : Block L' A :=
  k.map (Stmt.mapLock f)

/-- The same position in the code over the locks `f l`. -/
def Ctl.mapLock (f : L → L') : Ctl L A → Ctl L' A
  | .head i => .head i
  | .body i k => .body i (Block.mapLock f k)
  | .returned v i k => .returned v i (Block.mapLock f k)

/-- Whether `l` is owed does not depend on what the locks are called. -/
theorem owes_mapLock [DecidableEq L] [DecidableEq L'] {f : L → L'} (hf : Function.Injective f)
    (l : L) (k : Block L A) : owes (f l) (Block.mapLock f k) = owes l k := by
  induction k with
  | nil => rfl
  | cons x k ih =>
    have hk : Block.mapLock f (x :: k) = x.mapLock f :: Block.mapLock f k := rfl
    rw [hk]
    cases x with
    | lock m =>
      show owes (f l) (.lock (f m) :: Block.mapLock f k) = _
      rw [owes_lock, owes_lock, ih]
      simp only [hf.eq_iff]
    | unlock m =>
      show owes (f l) (.unlock (f m) :: Block.mapLock f k) = _
      rw [owes_unlock, owes_unlock, ih]
      simp only [hf.eq_iff]
    | act a =>
      show owes (f l) (.act a :: Block.mapLock f k) = _
      rw [owes_act, owes_act, ih]

namespace LoopSys

/-- The threads of `M'` run the code of `M` over the locks `f l`. -/
structure Relabels (f : L → L') (M : LoopSys ι L A K R S) (M' : LoopSys ι L' A K' R S) :
    Prop where
  bound : M'.bound = M.bound
  prog : ∀ t, M'.prog t = Block.mapLock f (M.prog t)
  exec : M'.exec = M.exec
  interruptible : M'.sync.interruptible = M.sync.interruptible

/-- Two states are the same but for the locks, whose states `RK` relates. -/
structure SameBut (f : L → L') (RK : K → K' → Prop) (s : LoopState ι L A K R S)
    (s' : LoopState ι L' A K' R S) : Prop where
  ctl : ∀ t, s'.ctl t = (s.ctl t).mapLock f
  reg : s'.reg = s.reg
  shared : s'.shared = s.shared
  locks : RK s.locks s'.locks

variable {f : L → L'} {RK : K → K' → Prop} {M : LoopSys ι L A K R S}
  {M' : LoopSys ι L' A K' R S} {s : LoopState ι L A K R S} {s' : LoopState ι L' A K' R S}

theorem sameBut_init (f : L → L') {locks : K} {locks' : K'} (h : RK locks locks') (reg : ι → R)
    (shared : S) :
    SameBut (A := A) f RK (init reg locks shared) (init reg locks' shared) where
  ctl _ := rfl
  reg := rfl
  shared := rfl
  locks := h

variable [DecidableEq ι]

/-- The positions of the threads after both systems moved one of them. -/
theorem SameBut.ctl_update (h : SameBut f RK s s') (t : ι) (c : Ctl L A) (u : ι) :
    Function.update s'.ctl t (c.mapLock f) u = (Function.update s.ctl t c u).mapLock f := by
  by_cases hu : u = t
  · subst hu
    rw [Function.update_self, Function.update_self]
  · rw [Function.update_of_ne hu, Function.update_of_ne hu]
    exact h.ctl u

/-- A step that only moves a thread. -/
theorem SameBut.goto (h : SameBut f RK s s') (t : ι) (c : Ctl L A) :
    SameBut f RK (s.goto t c) (s'.goto t (c.mapLock f)) where
  ctl := h.ctl_update t c
  reg := h.reg
  shared := h.shared
  locks := h.locks

/-- **The same code takes the same steps** where acquiring and releasing behave
alike. -/
theorem SameBut.next (hM : Relabels f M M') (h : SameBut f RK s s')
    (hacquire : ∀ t l, Option.Rel RK (M.sync.acquire t l s.locks)
      (M'.sync.acquire t (f l) s'.locks))
    (hrelease : ∀ t l i k, s.ctl t = .body i (.unlock l :: k) →
      RK (M.sync.release t l s.locks) (M'.sync.release t (f l) s'.locks)) (e : Event ι) :
    Option.Rel (SameBut f RK) (M.next s e) (M'.next s' e) := by
  cases e with
  | step t =>
    have ht := h.ctl t
    cases hc : s.ctl t with
    | head i =>
      rw [hc] at ht
      simp only [LoopSys.next, hc, ht, Ctl.mapLock, hM.bound, hM.prog]
      split
      · exact .some (h.goto t (.body i (M.prog t)))
      · exact .some (h.goto t (.returned 0 i (M.prog t)))
    | returned v i k =>
      rw [hc] at ht
      simp only [LoopSys.next, hc, ht, Ctl.mapLock]
      exact .none
    | body i k =>
      rw [hc] at ht
      cases k with
      | nil =>
        simp only [LoopSys.next, hc, ht, Ctl.mapLock, Block.mapLock, List.map_nil]
        exact .some (h.goto t (.head (i + 1)))
      | cons x k =>
        have hmove := h.goto t (.body i k)
        cases x with
        | lock l =>
          have hacq := hacquire t l
          simp only [LoopSys.next, hc, ht, Ctl.mapLock, Block.mapLock, List.map_cons,
            Stmt.mapLock]
          exact rel_map hacq fun hK => ⟨hmove.ctl, hmove.reg, hmove.shared, hK⟩
        | unlock l =>
          have hrel := hrelease t l i k hc
          simp only [LoopSys.next, hc, ht, Ctl.mapLock, Block.mapLock, List.map_cons,
            Stmt.mapLock]
          exact .some ⟨hmove.ctl, hmove.reg, hmove.shared, hrel⟩
        | act a =>
          simp only [LoopSys.next, hc, ht, Ctl.mapLock, Block.mapLock, List.map_cons,
            Stmt.mapLock, hM.exec, h.reg, h.shared]
          exact .some ⟨hmove.ctl, rfl, rfl, h.locks⟩
  | interrupt t =>
    have ht := h.ctl t
    cases hc : s.ctl t with
    | head i =>
      rw [hc] at ht
      simp only [LoopSys.next, hc, ht, Ctl.mapLock]
      exact .none
    | returned v i k =>
      rw [hc] at ht
      simp only [LoopSys.next, hc, ht, Ctl.mapLock]
      exact .none
    | body i k =>
      rw [hc] at ht
      cases k with
      | nil =>
        simp only [LoopSys.next, hc, ht, Ctl.mapLock, Block.mapLock, List.map_nil]
        exact .none
      | cons x k =>
        simp only [LoopSys.next, hc, ht, Ctl.mapLock, Block.mapLock, List.map_cons]
        cases x with
        | unlock l => exact .none
        | act a => exact .none
        | lock l =>
          simp only [Stmt.mapLock, hM.interruptible]
          split
          · exact .some (h.goto t (.returned (-1) i (.lock l :: k)))
          · exact .none

end LoopSys

/-! ## Counters that start at 1 -/

/-- 1 for a lock that is free, 0 for one that is owned. -/
def freeCount : Option ι → Nat
  | none => 1
  | some _ => 0

/-- The counter of each lock is 1 while the lock is free, and 0 while it is
owned. -/
def CountsFree (f : L → L') (locks : L → Option ι) (counts : L' → Nat) : Prop :=
  ∀ l, counts (f l) = freeCount (locks l)

variable [DecidableEq ι] [DecidableEq L] [DecidableEq L'] {f : L → L'}
  {locks : L → Option ι} {counts : L' → Nat}

/-- A counter is decremented where the mutex is taken, and blocks where it
blocks. -/
theorem CountsFree.acquire (hf : Function.Injective f) (h : CountsFree f locks counts) {b : Bool}
    (t : ι) (l : L) :
    Option.Rel (CountsFree f) ((exclusive b).acquire t l locks)
      ((counting b).acquire t (f l) counts) := by
  have hl := h l
  unfold exclusive counting
  dsimp only
  cases howner : locks l with
  | some u =>
    have hzero : counts (f l) = 0 := by
      rw [hl, howner]
      rfl
    rw [if_neg (Option.some_ne_none u), if_pos hzero]
    exact .none
  | none =>
    have hone : counts (f l) = 1 := by
      rw [hl, howner]
      rfl
    rw [if_pos rfl, if_neg (by omega)]
    refine .some fun m => ?_
    by_cases hm : m = l
    · subst hm
      rw [Function.update_self, Function.update_self, hone]
      rfl
    · rw [Function.update_of_ne (hf.ne hm), Function.update_of_ne hm]
      exact h m

/-- A counter is incremented where an owned mutex is released. -/
theorem CountsFree.release (hf : Function.Injective f) (h : CountsFree f locks counts) {b : Bool}
    (t : ι) {l : L} {u : ι} (howner : locks l = some u) :
    CountsFree f ((exclusive b).release t l locks)
      ((counting b).release t (f l) counts) := by
  intro m
  unfold exclusive counting
  dsimp only
  by_cases hm : m = l
  · subst hm
    have hzero : counts (f m) = 0 := by
      rw [h m, howner]
      rfl
    rw [Function.update_self, Function.update_self, hzero]
    rfl
  · rw [Function.update_of_ne (hf.ne hm), Function.update_of_ne hm]
    exact h m

namespace LoopSys

variable {X : LoopSys ι L A (L → Option ι) R S} {Y : LoopSys ι L' A (L' → Nat) R S}
  {x : LoopState ι L A (L → Option ι) R S} {y : LoopState ι L' A (L' → Nat) R S}

/-- What relates threads over mutexes to the same threads over binary
semaphores. -/
structure Binary (f : L → L') (X : LoopSys ι L A (L → Option ι) R S)
    (x : LoopState ι L A (L → Option ι) R S) (y : LoopState ι L' A (L' → Nat) R S) : Prop where
  ok : X.AllOk x
  held : X.HeldAsOwed x
  same : SameBut f (CountsFree f) x y

/-- **Binary semaphores are mutexes** for threads that acquire and release in
turn: every event, interrupted acquisitions included, can happen over both and
leads to related states. -/
theorem binary_next (hf : Function.Injective f) {b : Bool} (hX : X.sync = exclusive b)
    (hY : Y.sync = counting b) (hXY : Relabels f X Y)
    (hb : ∀ t l, LockBracketed (X.prog t) l) (h : Binary f X x y) (e : Event ι) :
    Option.Rel (Binary f X) (X.next x e) (Y.next y e) := by
  have hsame : Option.Rel (SameBut f (CountsFree f)) (X.next x e) (Y.next y e) := by
    refine h.same.next hXY (fun t l => ?_) (fun t l i k hc => ?_) e
    · rw [hX, hY]
      exact h.same.locks.acquire hf t l
    · -- the thread that releases `l` owns it
      have howner : x.locks l = some t := by
        rw [h.held, rest, hc, Ctl.rest_body, owes_unlock, if_pos rfl]
      rw [hX, hY]
      exact h.same.locks.release hf t howner
  refine rel_imp hsame fun hx hxy => ?_
  have hstep := step_of_next hx
  exact ⟨allOk_step h.ok hstep, heldAsOwed_step hX hb h.ok h.held hstep, hxy⟩

omit [DecidableEq ι] [DecidableEq L] [DecidableEq L'] in
/-- The code that remains is the same. -/
theorem SameBut.rest {M : LoopSys ι L A K R S} {M' : LoopSys ι L' A K' R S} {RK : K → K' → Prop}
    {s : LoopState ι L A K R S} {s' : LoopState ι L' A K' R S} (hM : Relabels f M M')
    (h : SameBut f RK s s') (t : ι) : M'.rest s' t = Block.mapLock f (M.rest s t) := by
  unfold LoopSys.rest
  rw [h.ctl t]
  cases s.ctl t with
  | head i => exact hM.prog t
  | body i k => rfl
  | returned v i k => rfl

omit [DecidableEq ι] in
/-- The counter is 1 minus the number of threads that have to increment it. -/
theorem Binary.count [Fintype ι] (hf : Function.Injective f) (hXY : Relabels f X Y)
    (h : Binary f X x y) (l : L) :
    y.locks (f l) + (Finset.univ.filter fun t => owes (f l) (Y.rest y t) = true).card = 1 := by
  have howes : ∀ t, owes (f l) (Y.rest y t) = true ↔ x.locks l = some t := by
    intro t
    rw [h.same.rest hXY, owes_mapLock hf, h.held l t]
  rw [h.same.locks l]
  cases hl : x.locks l with
  | none =>
    have hnone : (Finset.univ.filter fun t => owes (f l) (Y.rest y t) = true) = ∅ := by
      refine Finset.filter_eq_empty_iff.mpr fun t _ ht => ?_
      rw [howes, hl] at ht
      cases ht
    rw [hnone]
    rfl
  | some u =>
    have hone : (Finset.univ.filter fun t => owes (f l) (Y.rest y t) = true) = {u} := by
      ext t
      rw [Finset.mem_filter, howes, hl, Finset.mem_singleton, Option.some.injEq]
      simp only [Finset.mem_univ, true_and]
      exact eq_comm
    rw [hone]
    rfl

omit [DecidableEq ι] [DecidableEq L'] in
/-- Mutexes and binary semaphores that start free. -/
theorem binary_init (hb : ∀ t l, LockBracketed (X.prog t) l) (f : L → L') (reg : ι → R)
    (shared : S) :
    Binary f X (init reg (fun _ => none) shared) (init reg (fun _ => 1) shared) where
  ok := allOk_init _ _ _
  held := heldAsOwed_init hb _ _
  same := sameBut_init f (fun _ => rfl) _ _

/-- The counters along every run of threads over semaphores that start at 1. -/
theorem count_run [Fintype ι] (hf : Function.Injective f) {b : Bool} (hX : X.sync = exclusive b)
    (hY : Y.sync = counting b) (hXY : Relabels f X Y)
    (hb : ∀ t l, LockBracketed (X.prog t) l) {reg : ι → R} {shared : S} {es : List (Event ι)}
    (hr : run Y.next (init reg (fun _ => 1) shared) es = some y) (l : L) :
    y.locks (f l) + (Finset.univ.filter fun t => owes (f l) (Y.rest y t) = true).card = 1 := by
  have hlock : Lockstep X.next (fun _ _ => ([] : List Unit)) Y.next (fun _ _ => [])
      (Binary f X) := ⟨fun h => binary_next hf hX hY hXY hb h, fun _ _ => rfl⟩
  obtain ⟨x, -, hxy, -⟩ := hlock.flip.run (binary_init hb f reg shared) hr
  exact hxy.count hf hXY l

end LoopSys

end Esystem
