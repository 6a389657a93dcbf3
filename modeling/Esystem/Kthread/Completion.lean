import Esystem.Core.BinarySemaphore
import Esystem.Core.Termination
import Esystem.Kthread.DeadlockSol
import Esystem.Kthread.Semaphore

/-!
# The threads of the lock modules complete

No scheduler can keep the threads of a lock module running for ever, and none
can bring them to a halt before they have returned.

In mutex.c, semaphore.c, messageq.c and sharedm.c every acquisition is made with
nothing held, so a thread that returns early from an interrupted one leaves
nothing behind for the others to wait for: these modules complete under any
pattern of interruptions. In deadlock_sol.c the second acquisition is made with
the first mutex held; its threads, any number of them, complete in the runs
without interruptions.

Spin locks are left out: what happens to a thread that spins depends on the
CPUs.
-/

namespace Esystem

open LoopSys

variable {ι L L' A K R S : Type}

/-- Threads that start in `s₀` complete whatever is scheduled, as long as all
events are `allowed`. -/
structure Completes [Fintype ι] [DecidableEq ι] (allowed : Event ι → Prop)
    (M : LoopSys ι L A K R S) (s₀ : LoopState ι L A K R S) (Free : K → Prop) : Prop where
  /-- No run is longer than all rounds of all threads. -/
  bounded : ∀ es s, (∀ e ∈ es, allowed e) → run M.next s₀ es = some s →
    es.length ≤ ∑ t, (M.bound t * ((M.prog t).length + 2) + 1)
  /-- Without interruptions, all threads have returned after exactly that many steps. -/
  exact : ∀ (sched : List ι) s, run M.next s₀ (sched.map .step) = some s →
    (∀ t, (s.ctl t).Done) → sched.length = ∑ t, (M.bound t * ((M.prog t).length + 2) + 1)
  /-- Every run can be continued until all threads have returned. -/
  reaches : ∀ es s, (∀ e ∈ es, allowed e) → run M.next s₀ es = some s →
    ∃ (sched : List ι) (s' : LoopState ι L A K R S),
      run M.next s (sched.map .step) = some s' ∧ ∀ t, (s'.ctl t).Done
  /-- In a run that no thread can continue, all have returned. -/
  maximal : ∀ es s, (∀ e ∈ es, allowed e) → run M.next s₀ es = some s →
    (∀ t, M.next s (.step t) = none) → ∀ t, (s.ctl t).Done
  /-- Once all threads have returned, nothing is held. -/
  free : ∀ es s, (∀ e ∈ es, allowed e) → run M.next s₀ es = some s →
    (∀ t, (s.ctl t).Done) → Free s.locks

/-- Every event may happen. -/
def anyEvent : Event ι → Prop := fun _ => True

/-- No acquisition is interrupted. -/
def uninterrupted (e : Event ι) : Prop :=
  ∃ t, e = .step t

/-- The rule: an invariant of the allowed steps under which some thread can step
until all have returned with nothing held. -/
theorem Completes.of_inv [Fintype ι] [DecidableEq ι] {allowed : Event ι → Prop}
    {M : LoopSys ι L A K R S} {Free : K → Prop} {I : LoopState ι L A K R S → Prop}
    (hallowed : ∀ t, allowed (.step t))
    (hI : ∀ {s e s'}, I s → allowed e → M.next s e = some s' → I s')
    (hprogress : ∀ {s}, I s → (∀ t, (s.ctl t).Done) ∨ ∃ t s', M.next s (.step t) = some s')
    (hfree : ∀ {s}, I s → (∀ t, (s.ctl t).Done) → Free s.locks) {reg : ι → R} {locks : K}
    {shared : S} (h : I (init reg locks shared)) :
    Completes allowed M (init reg locks shared) Free := by
  have hrun : ∀ {es : List (Event ι)} {s : LoopState ι L A K R S}, (∀ e ∈ es, allowed e) →
      run M.next (init reg locks shared) es = some s → I s := fun hes hr =>
    run_inv_where (C := fun _ e => allowed e) hI h
      (stepsMeet_of_mem (fun e he _ => hes e he) _) hr
  have hcomplete := fun {s} (hs : I s) =>
    completes (M := M) (fun h hs => hI h (hallowed _) hs) hprogress hs
  exact {
    bounded := fun es s _ hr => by
      have hle := length_le_work hr
      rw [work_init] at hle
      omega
    exact := fun sched s hr hdone => by
      have hwork := work_of_sched hr
      rw [work_init, work_of_done hdone] at hwork
      omega
    reaches := fun es s hes hr => (hcomplete (hrun hes hr)).1
    maximal := fun es s hes hr => (hcomplete (hrun hes hr)).2
    free := fun es s hes hr hdone => hfree (hrun hes hr) hdone }

/-! ## Acquisitions with nothing held -/

/-- Every acquisition of the body is made with nothing held. -/
def AcquiresUnheld [DecidableEq L] (b : Block L A) : Prop :=
  ∀ l k, .lock l :: k <:+ b → ∀ m, owes m (.lock l :: k) = false

/-- With one lock there is nothing else to hold. -/
theorem acquiresUnheld_of_subsingleton [DecidableEq L] [Subsingleton L] (b : Block L A) :
    AcquiresUnheld b := by
  intro l k _ m
  rw [owes_lock, if_pos (Subsingleton.elim l m)]

section Unheld

variable [DecidableEq ι] [DecidableEq L] {X : LoopSys ι L A (L → Option ι) R S}
  {x : LoopState ι L A (L → Option ι) R S}

omit [DecidableEq ι] in
/-- A thread that has returned owes nothing, interrupted or not. -/
theorem owes_of_done_of_unheld (hb : ∀ t l, LockBracketed (X.prog t) l)
    (hu : ∀ t, AcquiresUnheld (X.prog t)) (hok : X.AllOk x) {t : ι} (hd : (x.ctl t).Done)
    (l : L) : owes l (X.rest x t) = false := by
  have hsuf := hok.rest_suffix t
  rcases (hok t).rest_of_done hd with hrest | ⟨m, k, hrest⟩
  · rw [rest, hrest]
    exact (hb t l).owes_body
  · rw [rest, hrest] at hsuf ⊢
    exact hu t m k hsuf l

/-- Threads that acquire with nothing held can step until all have returned. -/
theorem progress_of_unheld {b : Bool} (hsync : X.sync = exclusive b)
    (hb : ∀ t l, LockBracketed (X.prog t) l) (hu : ∀ t, AcquiresUnheld (X.prog t))
    (hok : X.AllOk x) (hheld : X.HeldAsOwed x) :
    (∀ t, (x.ctl t).Done) ∨ ∃ t x', X.next x (.step t) = some x' := by
  have hwf : WellFounded fun _ _ : L => False := ⟨fun l => ⟨l, fun _ h => h.elim⟩⟩
  refine progress_of_ordered hsync hwf (fun t l k hk m hm => ?_) hok hheld
    fun t hd l => owes_of_done_of_unheld hb hu hok hd l
  rw [hu t l k hk m] at hm
  cases hm

omit [DecidableEq ι] in
/-- What no thread owes is free. -/
theorem free_of_unowed (hheld : X.HeldAsOwed x)
    (hdone : ∀ t l, owes l (X.rest x t) = false) (l : L) : x.locks l = none := by
  cases hl : x.locks l with
  | none => rfl
  | some t =>
    have howes := (hheld l t).mp hl
    rw [hdone t l] at howes
    cases howes

/-- **Mutexes taken with nothing held**: the threads complete under any pattern
of interruptions. -/
theorem completes_of_unheld [Fintype ι] {b : Bool} (hsync : X.sync = exclusive b)
    (hb : ∀ t l, LockBracketed (X.prog t) l) (hu : ∀ t, AcquiresUnheld (X.prog t))
    (reg : ι → R) (shared : S) :
    Completes anyEvent X (init reg (fun _ => none) shared) fun locks => ∀ l, locks l = none := by
  refine .of_inv (I := fun x => X.AllOk x ∧ X.HeldAsOwed x) (fun _ => trivial) ?_ ?_ ?_
    ⟨allOk_init _ _ _, heldAsOwed_init hb _ _⟩
  · rintro x e x' ⟨hok, hheld⟩ - hs
    have hstep := step_of_next hs
    exact ⟨allOk_step hok hstep, heldAsOwed_step hsync hb hok hheld hstep⟩
  · rintro x ⟨hok, hheld⟩
    exact progress_of_unheld hsync hb hu hok hheld
  · rintro x ⟨hok, hheld⟩ hdone
    exact free_of_unowed hheld fun t l => owes_of_done_of_unheld hb hu hok (hdone t) l

omit [DecidableEq L] in
/-- Names of locks do not matter to whether a thread has returned. -/
theorem done_mapLock (f : L → L') (c : Ctl L A) : (c.mapLock f).Done ↔ c.Done := by
  cases c with
  | head i => exact Iff.rfl
  | body i k => exact Iff.rfl
  | returned v i k => exact Iff.rfl

/-- **Binary semaphores taken with nothing held**: the same, as they are
mutexes. -/
theorem completes_of_unheld_counting [Fintype ι] [DecidableEq L'] {f : L → L'}
    (hf : Function.Injective f) (hsurj : Function.Surjective f)
    {Y : LoopSys ι L' A (L' → Nat) R S} {b : Bool} (hX : X.sync = exclusive b)
    (hY : Y.sync = counting b) (hXY : Relabels f X Y) (hb : ∀ t l, LockBracketed (X.prog t) l)
    (hu : ∀ t, AcquiresUnheld (X.prog t)) (reg : ι → R) (shared : S) :
    Completes anyEvent Y (init reg (fun _ => 1) shared) fun counts => ∀ l, counts l = 1 := by
  refine .of_inv (I := fun y => ∃ x, Binary f X x y) (fun _ => trivial) ?_ ?_ ?_
    ⟨_, binary_init hb f reg shared⟩
  · rintro y e y' ⟨x, hxy⟩ - hs
    have hrel := rel_symm (binary_next hf hX hY hXY hb hxy e)
    rw [hs] at hrel
    obtain ⟨x', -, hxy'⟩ := exists_of_rel_some hrel
    exact ⟨x', hxy'⟩
  · rintro y ⟨x, hxy⟩
    rcases progress_of_unheld hX hb hu hxy.ok hxy.held with hdone | ⟨t, x', hs⟩
    · refine .inl fun t => ?_
      rw [hxy.same.ctl t, done_mapLock]
      exact hdone t
    · have hrel := binary_next hf hX hY hXY hb hxy (.step t)
      rw [hs] at hrel
      obtain ⟨y', hy', -⟩ := exists_of_rel_some hrel
      exact .inr ⟨t, y', hy'⟩
  · rintro y ⟨x, hxy⟩ hdone l'
    obtain ⟨l, rfl⟩ := hsurj l'
    have hnone : x.locks l = none := by
      refine free_of_unowed hxy.held (fun t m => owes_of_done_of_unheld hb hu hxy.ok ?_ m) l
      have ht := hdone t
      rwa [hxy.same.ctl t, done_mapLock] at ht
    rw [hxy.same.locks l, hnone]
    rfl

end Unheld

/-! ## The modules -/

theorem MessageQueue.bracketed (t : Worker) (l : MyMutex) :
    LockBracketed (threadFunction t) l := by
  cases t <;> cases l <;> decide

theorem SharedMemory.bracketed (t : Worker) (l : MyMutex) :
    LockBracketed (threadFunction t) l := by
  cases t <;> cases l <;> decide

instance : Subsingleton MyMutex := ⟨fun .myMutex .myMutex => rfl⟩

/-- **deadlock_sol.c completes** with any number of threads, where no acquisition
is interrupted: its threads then return only from the end of their loops. -/
theorem DeadlockSol.completes [Fintype ι] [DecidableEq ι] (fn : ι → Worker) (bound : ι → Nat)
    (reg : ι → KReg Unit) (shared : KShared Unit) :
    Completes uninterrupted (threads fn bound) (init reg (fun _ => none) shared)
      fun locks => ∀ l, locks l = none := by
  let Reached := fun x : State ι => ∃ sched : List ι,
    run (threads fn bound).next (init reg (fun _ => none) shared) (sched.map .step) = some x
  have hinv : ∀ {x : State ι}, Reached x →
      (threads fn bound).AllOk x ∧ (threads fn bound).HeldAsOwed x := fun ⟨_, hr⟩ =>
    held_run rfl (fun t => bracketed (fn t)) (allOk_init _ _ _)
      (heldAsOwed_init (fun t => bracketed (fn t)) _ _) hr
  have howes : ∀ {x : State ι}, Reached x → ∀ t, (x.ctl t).Done → ∀ l,
      owes l ((threads fn bound).rest x t) = false := fun ⟨_, hr⟩ t hd l =>
    owes_of_returned (bracketed (fn t) l) (returned_of_steps hr hd)
  refine .of_inv (I := Reached) (fun t => ⟨t, rfl⟩) ?_ ?_ ?_ ⟨[], rfl⟩
  · rintro x _ x' ⟨sched, hr⟩ ⟨t, rfl⟩ hs
    refine ⟨sched ++ [t], ?_⟩
    rw [List.map_append]
    exact run_append_some hr ((run_cons_some hs).mpr rfl)
  · intro x hx
    exact progress_of_ordered rfl wellFounded_later
      (fun t l k hk => acquires_in_order (fn t) l k hk) (hinv hx).1 (hinv hx).2 (howes hx)
  · intro x hx hdone
    exact free_of_unowed (hinv hx).2 fun t l => howes hx t (hdone t) l

/-- **The lock modules complete**: whatever the scheduler does and whatever the
loop bounds and the memory are, the threads of mutex.c, semaphore.c, messageq.c
and sharedm.c return with everything given back, even if their acquisitions are
interrupted, and so do any number of threads of deadlock_sol.c if none is. -/
theorem lock_modules_complete (bound : Worker → Nat) :
    (∀ reg shared, Completes anyEvent (Mutex.threads bound) (init reg (fun _ => none) shared)
      fun locks => ∀ l, locks l = none) ∧
    (∀ reg shared, Completes anyEvent (Semaphore.threads bound) (init reg (fun _ => 1) shared)
      fun counts => ∀ l, counts l = 1) ∧
    (∀ reg shared, Completes anyEvent (MessageQueue.threads bound)
      (init reg (fun _ => none) shared) fun locks => ∀ l, locks l = none) ∧
    (∀ reg shared, Completes anyEvent (SharedMemory.threads bound)
      (init reg (fun _ => none) shared) fun locks => ∀ l, locks l = none) ∧
    ∀ (κ : Type) [Fintype κ] [DecidableEq κ] (fn : κ → Worker) (rounds : κ → Nat) reg shared,
      Completes uninterrupted (DeadlockSol.threads fn rounds)
        (init reg (fun _ => none) shared) fun locks => ∀ l, locks l = none := by
  refine ⟨fun reg shared => ?_, fun reg shared => ?_, fun reg shared => ?_,
    fun reg shared => ?_, fun κ _ _ fn rounds reg shared => ?_⟩
  · exact completes_of_unheld rfl Mutex.bracketed
      (fun _ => acquiresUnheld_of_subsingleton _) reg shared
  · exact completes_of_unheld_counting Semaphore.ofMutex_injective
      (fun .mySemaphore => ⟨.myMutex, rfl⟩) rfl rfl (Semaphore.relabels bound) Mutex.bracketed
      (fun _ => acquiresUnheld_of_subsingleton _) reg shared
  · exact completes_of_unheld rfl MessageQueue.bracketed
      (fun _ => acquiresUnheld_of_subsingleton _) reg shared
  · exact completes_of_unheld rfl SharedMemory.bracketed
      (fun _ => acquiresUnheld_of_subsingleton _) reg shared
  · exact DeadlockSol.completes fn rounds reg shared

end Esystem
