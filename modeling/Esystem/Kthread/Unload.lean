import Esystem.Core.Alone
import Esystem.Core.LockDiscipline
import Esystem.Kthread.Programs

/-!
# Unloading a module while its threads run

The seven lock modules map the GPIO registers and start two threads in their
init function; their exit function unmaps the registers and does not wait for
the threads. A whole life of such a module interleaves the statements of init,
the threads, and exit.

- `KModule.UnmapsExactly`: a condition on the state in which exit is called that
  says exactly whether a thread can still write to a register afterwards.
- `unmapsExactly_of`: how to show it. Where the condition holds, the threads are in
  states from which they execute no register write (`Quiet`); where it fails, some
  thread has a write before it, and the threads can still run to their end, so that
  one comes to it (`exists_fault`).
-/

namespace Esystem

variable {L X B E K : Type}

/-- The statements of an init function in which everything succeeds. `prepare`
stands for what the modules do differently: initialising their locks, and the
FIFO of messageq.c or the mapping of sharedm.c. -/
inductive InitStep where
  | ioremap
  | selectOutput (offset shift : Nat)
  | prepare
  | kthreadRun (t : Worker)
  | ret
  deriving DecidableEq

/-- The init function of the seven modules. -/
def moduleInit : List InitStep :=
  [.ioremap, .selectOutput gpioSelOffset18 24, .selectOutput gpioSelOffset23 9, .prepare,
    .kthreadRun .thread1, .kthreadRun .thread2, .ret]

/-- A module: its threads, and the state of its locks and of its own data once
they are prepared. -/
structure KModule (L X B E K : Type) where
  threads : LoopSys Worker L (KOp X) K (KReg B) (KShared E)
  locks : K
  prepared : E

/-- A module in the kernel: what init has still to do, which threads exist,
whether `gpio_base` is mapped, whether exit has run, and whether a thread wrote
to a register that was not mapped. -/
structure ModState (L X B E K : Type) where
  todo : List InitStep
  started : Worker → Bool
  mapped : Bool
  exited : Bool
  faulted : Bool
  sys : LoopState Worker L (KOp X) K (KReg B) (KShared E)

/-- What happens next: init continues, the scheduler picks a thread, or the
kernel calls exit. -/
inductive ModEvent where
  | init
  | sched (e : Event Worker)
  | exit
  deriving DecidableEq

/-- The thread an event is about. -/
def Event.thread : Event Worker → Worker
  | .step t => t
  | .interrupt t => t

namespace KModule

open LoopSys

/-- One statement of the init function. -/
def initStep (m : KModule L X B E K) (s : ModState L X B E K) : InitStep → ModState L X B E K
  | .ioremap => { s with mapped := true }
  | .selectOutput offset shift =>
    { s with sys := { s.sys with shared :=
      { s.sys.shared with gpio := s.sys.shared.gpio.selectOutput offset shift } } }
  | .prepare =>
    { s with sys := { s.sys with
      locks := m.locks
      shared := { s.sys.shared with extra := m.prepared } } }
  | .kthreadRun t =>
    { s with
      started := Function.update s.started t true
      sys := s.sys.goto t (.head 0) }
  | .ret => s

/-- One event in the life of a module. Exit is called after init has returned;
`if (gpio_base) iounmap(gpio_base);` is all it does. A write to a register that
is not mapped faults, and the thread does not get past it. -/
def next (m : KModule L X B E K) (s : ModState L X B E K) :
    ModEvent → Option (ModState L X B E K)
  | .init =>
    match s.todo with
    | [] => none
    | x :: k => some { m.initStep s x with todo := k }
  | .sched e =>
    if s.started e.thread then
      if (executed s.sys e).any isWritel && !s.mapped then some { s with faulted := true }
      else (m.threads.next s.sys e).map fun sys' => { s with sys := sys' }
    else none
  | .exit =>
    match s.todo with
    | [] => if s.exited then none else some { s with mapped := false, exited := true }
    | _ :: _ => none

/-- A freshly loaded module, before its init function; `sys` is what its memory
happens to hold. -/
def load (sys : LoopState Worker L (KOp X) K (KReg B) (KShared E)) : ModState L X B E K where
  todo := moduleInit
  started := fun _ => false
  mapped := false
  exited := false
  faulted := false
  sys := sys

end KModule

/-! ## The seven modules -/

/-- mutex.c. -/
def Mutex.kmodule (bound : Worker → Nat) :
    KModule MyMutex Empty Unit Unit (MyMutex → Option Worker) :=
  ⟨Mutex.threads bound, fun _ => none, ()⟩

/-- semaphore.c, with `sema_init(&my_semaphore, 1)`. -/
def Semaphore.kmodule (bound : Worker → Nat) :
    KModule Semaphore.MySemaphore Empty Unit Unit (Semaphore.MySemaphore → Nat) :=
  ⟨Semaphore.threads bound, fun _ => 1, ()⟩

/-- spinlock.c. -/
def Spinlock.kmodule (bound : Worker → Nat) :
    KModule Spinlock.MySpinlock Empty Unit Unit (Spinlock.MySpinlock → Option Worker) :=
  ⟨Spinlock.threads bound, fun _ => none, ()⟩

/-- deadlock.c. -/
def Deadlock.kmodule (bound : Worker → Nat) :
    KModule MyMutexes Empty Unit Unit (MyMutexes → Option Worker) :=
  ⟨Deadlock.threads bound, fun _ => none, ()⟩

/-- deadlock_sol.c. -/
def DeadlockSol.kmodule (bound : Worker → Nat) :
    KModule MyMutexes Empty Unit Unit (MyMutexes → Option Worker) :=
  ⟨DeadlockSol.threads id bound, fun _ => none, ()⟩

/-- messageq.c, with `INIT_KFIFO(shared_fifo)`. -/
def MessageQueue.kmodule (bound : Worker → Nat) :
    KModule MyMutex MessageQueue.FifoOp MessageQueue.Buffer MessageQueue.Fifo
      (MyMutex → Option Worker) :=
  ⟨MessageQueue.threads bound, fun _ => none, ⟨[], [], [], []⟩⟩

/-- sharedm.c; the memory at `virt_addr` holds `v`. -/
def SharedMemory.kmodule (v : CInt) (bound : Worker → Nat) :
    KModule MyMutex SharedMemory.ShmOp Unit SharedMemory.Shm (MyMutex → Option Worker) :=
  ⟨SharedMemory.threads bound, fun _ => none, ⟨some v, [], []⟩⟩

/-! ## The state of a module in its life -/

namespace KModule

open LoopSys

variable {m : KModule L X B E K} {s s' : ModState L X B E K}

/-- The threads are where an allowed run can bring them from the start. -/
def Reached (m : KModule L X B E K) (allowed : Event Worker → Prop)
    (sys : LoopState Worker L (KOp X) K (KReg B) (KShared E)) : Prop :=
  ∃ reg shared es, (∀ e ∈ es, allowed e) ∧
    run m.threads.next (LoopSys.init reg m.locks shared) es = some sys

theorem reached_step {allowed : Event Worker → Prop}
    {sys sys' : LoopState Worker L (KOp X) K (KReg B) (KShared E)} {e : Event Worker}
    (h : Reached m allowed sys) (he : allowed e)
    (hs : m.threads.next sys e = some sys') : Reached m allowed sys' := by
  obtain ⟨reg, shared, es, hes, hr⟩ := h
  refine ⟨reg, shared, es ++ [e], fun e' he' => ?_, run_append_some hr ?_⟩
  · rcases List.mem_append.mp he' with hmem | hmem
    · exact hes e' hmem
    · rw [List.mem_singleton.mp hmem]
      exact he
  · exact (run_cons_some hs).mpr rfl

/-- Any run brings the threads to positions of their own code. -/
theorem Reached.allOk {allowed : Event Worker → Prop}
    {sys : LoopState Worker L (KOp X) K (KReg B) (KShared E)} (h : Reached m allowed sys) :
    m.threads.AllOk sys := by
  obtain ⟨reg, shared, es, -, hr⟩ := h
  exact run_inv (fun hok hs => allOk_step hok (step_of_next hs)) (allOk_init _ _ _) hr

/-- The statements of init before it prepares the locks. -/
def early : InitStep → Bool
  | .ioremap => true
  | .selectOutput _ _ => true
  | _ => false

/-- What comes before `prepare` in init. -/
theorem prepare_mem_iff {x : InitStep} {todo : List InitStep}
    (h : x :: todo <:+ moduleInit) : InitStep.prepare ∈ todo ↔ early x = true := by
  simp only [moduleInit, List.suffix_cons_iff, List.suffix_nil, List.cons.injEq] at h
  rcases h with ⟨rfl, rfl⟩ | ⟨rfl, rfl⟩ | ⟨rfl, rfl⟩ | ⟨rfl, rfl⟩ | ⟨rfl, rfl⟩ | ⟨rfl, rfl⟩ |
    ⟨rfl, rfl⟩ | h
  all_goals simp [early] at *

/-- The locks are prepared before there is a thread. -/
theorem kthreadRun_mem {todo : List InitStep} (h : todo <:+ moduleInit)
    (hp : InitStep.prepare ∈ todo) (t : Worker) : .kthreadRun t ∈ todo := by
  have hall : ∀ t, AtEach (fun k => InitStep.prepare ∈ k → .kthreadRun t ∈ k) moduleInit := by
    decide
  exact hall t todo h hp

theorem kthreadRun_mem_moduleInit (t : Worker) : .kthreadRun t ∈ moduleInit :=
  kthreadRun_mem List.suffix_rfl (by decide) t

/-- Each thread is created once. -/
theorem kthreadRun_notMem {todo : List InitStep} {t : Worker}
    (h : .kthreadRun t :: todo <:+ moduleInit) : .kthreadRun t ∉ todo := by
  have hall : ∀ t, AtEach (fun k => k.head? = some (.kthreadRun t) → .kthreadRun t ∉ k.tail)
      moduleInit := by
    decide
  exact hall t _ h rfl

/-- The threads, with those that are still to be created at the start of their loops. -/
def created (started : Worker → Bool)
    (sys : LoopState Worker L (KOp X) K (KReg B) (KShared E)) :
    LoopState Worker L (KOp X) K (KReg B) (KShared E) :=
  { sys with ctl := fun t => if started t then sys.ctl t else .head 0 }

theorem created_of_all {started : Worker → Bool} (h : ∀ t, started t = true)
    (sys : LoopState Worker L (KOp X) K (KReg B) (KShared E)) : created started sys = sys := by
  simp [created, h]

theorem created_ctl {started : Worker → Bool} {t : Worker} (h : started t = true)
    (sys : LoopState Worker L (KOp X) K (KReg B) (KShared E)) :
    (created started sys).ctl t = sys.ctl t :=
  if_pos h

/-- A thread that has been created moves. -/
theorem created_move {started : Worker → Bool} {t : Worker} (h : started t = true)
    {sys sys' : LoopState Worker L (KOp X) K (KReg B) (KShared E)} {c : Ctl L (KOp X)}
    (hctl : sys'.ctl = Function.update sys.ctl t c) :
    created started sys' =
      ⟨Function.update (created started sys).ctl t c, sys'.reg, sys'.locks, sys'.shared⟩ := by
  have hpos : ∀ u, (created started sys').ctl u =
      Function.update (created started sys).ctl t c u := by
    intro u
    show (if started u then sys'.ctl u else .head 0) = _
    rw [hctl]
    by_cases hu : u = t
    · subst hu
      rw [Function.update_self, Function.update_self, if_pos h]
    · rw [Function.update_of_ne hu, Function.update_of_ne hu]
      rfl
  exact congrArg (LoopState.mk · sys'.reg sys'.locks sys'.shared) (funext hpos)

/-- A thread is created at the start of its loop. -/
theorem created_kthreadRun {started : Worker → Bool} {t : Worker} (h : started t = false)
    (sys : LoopState Worker L (KOp X) K (KReg B) (KShared E)) :
    created (Function.update started t true) (sys.goto t (.head 0)) = created started sys := by
  have hpos : ∀ u, (created (Function.update started t true) (sys.goto t (.head 0))).ctl u =
      (created started sys).ctl u := by
    intro u
    show (if Function.update started t true u then Function.update sys.ctl t (.head 0) u
      else .head 0) = if started u then sys.ctl u else .head 0
    by_cases hu : u = t
    · subst hu
      rw [Function.update_self, Function.update_self, h]
      rfl
    · rw [Function.update_of_ne hu, Function.update_of_ne hu]
  exact congrArg (LoopState.mk · sys.reg sys.locks sys.shared) (funext hpos)

/-- What a thread that has been created does is not affected by the others'. -/
theorem created_step {started : Worker → Bool} {e : Event Worker}
    {sys sys' : LoopState Worker L (KOp X) K (KReg B) (KShared E)}
    (h : started e.thread = true) (hs : m.threads.Step sys e sys') :
    m.threads.Step (created started sys) e (created started sys') := by
  have hctl := created_ctl h sys
  have hmove : ∀ {sys'' : LoopState Worker L (KOp X) K (KReg B) (KShared E)} {c : Ctl L (KOp X)},
      sys''.ctl = Function.update sys.ctl e.thread c →
      m.threads.Step (created started sys) e
        ⟨Function.update (created started sys).ctl e.thread c, sys''.reg, sys''.locks,
          sys''.shared⟩ →
      m.threads.Step (created started sys) e (created started sys'') := by
    intro sys'' c hmoved hs
    rwa [created_move h hmoved]
  cases hs with
  | @enter t i hc hi =>
    exact hmove rfl (.enter (hctl.trans hc) hi)
  | @leave t i hc hi =>
    exact hmove rfl (.leave (hctl.trans hc) hi)
  | @again t i hc =>
    exact hmove rfl (.again (hctl.trans hc))
  | @lock t i l k K' hc ha =>
    exact hmove rfl (.lock (hctl.trans hc) ha)
  | @unlock t i l k hc =>
    exact hmove rfl (.unlock (hctl.trans hc))
  | @act t i a k hc =>
    exact hmove rfl (.act (hctl.trans hc))
  | @interrupted t i l k hc hi =>
    exact hmove rfl (.interrupted (hctl.trans hc) hi)

/-- What holds all through the life of a module: how far init is, which threads there
are, where these are, and when the registers are mapped. -/
structure LifeInv (m : KModule L X B E K) (s : ModState L X B E K) : Prop where
  suffix : s.todo <:+ moduleInit
  mapped : s.exited = false → s.todo ≠ moduleInit → s.mapped = true
  started : ∀ t, s.started t = true ↔ .kthreadRun t ∉ s.todo
  reached : .prepare ∉ s.todo → Reached m (fun _ => True) (created s.started s.sys)
  exited : s.exited = true → s.todo = [] ∧ s.mapped = false
  fine : s.exited = false → s.faulted = false

theorem lifeInv_load (sys : LoopState Worker L (KOp X) K (KReg B) (KShared E)) :
    LifeInv m (load sys) where
  suffix := List.suffix_rfl
  mapped _ h := absurd rfl h
  started t := iff_of_false Bool.false_ne_true (not_not.mpr (kthreadRun_mem_moduleInit t))
  reached h := absurd (by decide : InitStep.prepare ∈ moduleInit) h
  exited h := by cases h
  fine _ := rfl

/-- A thread that runs is one that init has created, and the registers are mapped
until exit. -/
theorem LifeInv.mapped_of_started (h : LifeInv m s) (hx : s.exited = false) {t : Worker}
    (ht : s.started t = true) : s.mapped = true := by
  refine h.mapped hx fun htodo => ?_
  have hmem := (h.started t).mp ht
  rw [htodo] at hmem
  exact hmem (kthreadRun_mem_moduleInit t)

/-- Init goes on. -/
theorem LifeInv.init (h : LifeInv m s) {x : InitStep} {k : List InitStep}
    (htodo : s.todo = x :: k) : LifeInv m { m.initStep s x with todo := k } := by
  have hsuffix := htodo ▸ h.suffix
  have hx : s.exited = false := by
    cases hx : s.exited with
    | false => rfl
    | true => exact absurd ((h.exited hx).1.symm.trans htodo) (List.cons_ne_nil x k).symm
  have hmem := prepare_mem_iff hsuffix
  have hmapped : x ≠ .ioremap → s.mapped = true := by
    refine fun hne => h.mapped hx fun hall => hne ?_
    exact (List.cons.inj (htodo.symm.trans hall)).1
  have hstarted : (∀ t, x ≠ .kthreadRun t) →
      ∀ t, s.started t = true ↔ InitStep.kthreadRun t ∉ k := by
    intro hne t
    rw [h.started t, htodo, List.mem_cons, not_or]
    exact and_iff_right fun heq => hne t heq.symm
  have hrest : k <:+ moduleInit := (List.suffix_cons x k).trans hsuffix
  cases x with
  | ioremap =>
    exact ⟨hrest, fun _ _ => rfl, hstarted nofun, fun hno => absurd (hmem.mpr rfl) hno,
      fun hx' => absurd (hx.symm.trans hx') (by decide), h.fine⟩
  | selectOutput offset shift =>
    exact ⟨hrest, fun _ _ => hmapped nofun, hstarted nofun,
      fun hno => absurd (hmem.mpr rfl) hno,
      fun hx' => absurd (hx.symm.trans hx') (by decide), h.fine⟩
  | prepare =>
    refine ⟨hrest, fun _ _ => hmapped nofun, hstarted nofun, fun _ => ?_,
      fun hx' => absurd (hx.symm.trans hx') (by decide), h.fine⟩
    -- there is no thread yet
    have hnone : ∀ t, s.started t = false := fun t => by
      rw [Bool.eq_false_iff]
      intro ht
      refine (h.started t).mp ht (htodo ▸ List.mem_cons_of_mem _ ?_)
      exact (List.mem_cons.mp (kthreadRun_mem hsuffix List.mem_cons_self t)).resolve_left nofun
    refine ⟨s.sys.reg, { s.sys.shared with extra := m.prepared }, [], nofun, ?_⟩
    simp only [created, initStep, hnone]
    rfl
  | kthreadRun t =>
    have hnot : InitStep.prepare ∉ k := fun hin => absurd (hmem.mp hin) Bool.false_ne_true
    have hfalse : s.started t = false := by
      rw [Bool.eq_false_iff]
      exact fun ht => (h.started t).mp ht (htodo ▸ List.mem_cons_self)
    refine ⟨hrest, fun _ _ => hmapped nofun, fun u => ?_, fun _ => ?_,
      fun hx' => absurd (hx.symm.trans hx') (by decide), h.fine⟩
    · show Function.update s.started t true u = true ↔ _
      by_cases hu : u = t
      · subst hu
        rw [Function.update_self]
        exact iff_of_true rfl (kthreadRun_notMem hsuffix)
      · rw [Function.update_of_ne hu, h.started u, htodo, List.mem_cons, not_or]
        exact and_iff_right fun heq => hu (InitStep.kthreadRun.inj heq)
    · show Reached m _ (created (Function.update s.started t true) (s.sys.goto t (.head 0)))
      rw [created_kthreadRun hfalse]
      refine h.reached ?_
      rw [htodo, List.mem_cons, not_or]
      exact ⟨nofun, hnot⟩
  | ret =>
    have hnot : InitStep.prepare ∉ k := fun hin => absurd (hmem.mp hin) Bool.false_ne_true
    refine ⟨hrest, fun _ _ => hmapped nofun, hstarted nofun, fun _ => h.reached ?_,
      fun hx' => absurd (hx.symm.trans hx') (by decide), h.fine⟩
    rw [htodo, List.mem_cons, not_or]
    exact ⟨nofun, hnot⟩

/-- A thread goes on. -/
theorem LifeInv.sched (h : LifeInv m s) {e : Event Worker} (ht : s.started e.thread = true)
    {sys' : LoopState Worker L (KOp X) K (KReg B) (KShared E)}
    (hs : m.threads.next s.sys e = some sys') : LifeInv m { s with sys := sys' } where
  suffix := h.suffix
  mapped := h.mapped
  started := h.started
  reached hp := reached_step (h.reached hp) trivial
    (next_of_step (created_step ht (step_of_next hs)))
  exited := h.exited
  fine := h.fine

/-- Every event of a life keeps it. -/
theorem lifeInv_step (h : LifeInv m s) {e : ModEvent} (hs : m.next s e = some s') :
    LifeInv m s' := by
  cases e with
  | init =>
    simp only [next] at hs
    split at hs
    · cases hs
    · rename_i x k htodo
      cases hs
      exact h.init htodo
  | sched e =>
    simp only [next] at hs
    split at hs
    · rename_i ht
      split at hs
      · rename_i hfault
        cases hs
        -- only after exit
        refine ⟨h.suffix, h.mapped, h.started, h.reached, h.exited, fun hx => ?_⟩
        rw [h.mapped_of_started hx ht, Bool.not_true, Bool.and_false] at hfault
        cases hfault
      · obtain ⟨sys', hsys, rfl⟩ := Option.map_eq_some_iff.mp hs
        exact h.sched ht hsys
    · cases hs
  | exit =>
    simp only [next] at hs
    split at hs
    · rename_i htodo
      split at hs
      · cases hs
      · cases hs
        exact ⟨h.suffix, nofun, h.started, h.reached, fun _ => ⟨htodo, rfl⟩, nofun⟩
    · cases hs

theorem lifeInv_run {sys : LoopState Worker L (KOp X) K (KReg B) (KShared E)}
    {es : List ModEvent} (hr : run m.next (load sys) es = some s) : LifeInv m s :=
  run_inv (fun h hs => lifeInv_step h hs) (lifeInv_load sys) hr

/-! ## After exit -/

/-- Exit has been called, and both threads are there. -/
structure Gone (s : ModState L X B E K) : Prop where
  todo : s.todo = []
  exited : s.exited = true
  mapped : s.mapped = false
  started : ∀ t, s.started t = true

/-- Exit can be called once init has returned. -/
theorem next_exit (m : KModule L X B E K) (htodo : s.todo = []) (hx : s.exited = false) :
    m.next s .exit = some { s with mapped := false, exited := true } := by
  simp [next, htodo, hx]

/-- Exit is called when both threads run, wherever these can be, and leaves them there. -/
theorem LifeInv.of_exit (h : LifeInv m s) (hs : m.next s .exit = some s') :
    Reached m (fun _ => True) s.sys ∧ Gone s' ∧ s'.sys = s.sys ∧ s'.faulted = false := by
  simp only [next] at hs
  split at hs
  · rename_i htodo
    split at hs
    · cases hs
    · rename_i hx
      cases hs
      have hall : ∀ t, s.started t = true := fun t =>
        (h.started t).mpr (htodo ▸ List.not_mem_nil)
      have hreached := h.reached (htodo ▸ List.not_mem_nil)
      rw [created_of_all hall] at hreached
      exact ⟨hreached, ⟨htodo, rfl, rfl, hall⟩, rfl, h.fine (Bool.eq_false_iff.mpr hx)⟩
  · cases hs

/-- Nothing else makes a module one that exit has been called for. -/
theorem exit_of_exited {e : ModEvent} (hs : m.next s e = some s') (hx : s.exited = false)
    (hx' : s'.exited = true) : e = .exit := by
  cases e with
  | exit => rfl
  | init =>
    simp only [next] at hs
    split at hs
    · cases hs
    · rename_i x k _
      cases hs
      have hsame : (m.initStep s x).exited = s.exited := by cases x <;> rfl
      exact absurd (hx'.symm.trans (hsame.trans hx)) (by decide)
  | sched e =>
    simp only [next] at hs
    split at hs
    · split at hs
      · cases hs
        exact absurd (hx'.symm.trans hx) (by decide)
      · obtain ⟨sys', -, rfl⟩ := Option.map_eq_some_iff.mp hs
        exact absurd (hx'.symm.trans hx) (by decide)
    · cases hs

/-- Once the module is gone only the threads go on, and a register write faults. -/
theorem Gone.next_cases (h : Gone s) {e : ModEvent} (hs : m.next s e = some s') :
    ∃ ev, e = .sched ev ∧
      ((executed s.sys ev).any isWritel = true ∧ s' = { s with faulted := true } ∨
        ∃ sys', (executed s.sys ev).any isWritel = false ∧
          m.threads.next s.sys ev = some sys' ∧ s' = { s with sys := sys' }) := by
  cases e with
  | init =>
    rw [next, h.todo] at hs
    cases hs
  | exit =>
    rw [next, h.todo, h.exited] at hs
    cases hs
  | sched ev =>
    refine ⟨ev, rfl, ?_⟩
    have hwrites : ((executed s.sys ev).any isWritel && !s.mapped) =
        (executed s.sys ev).any isWritel := by
      rw [h.mapped, Bool.not_false, Bool.and_true]
    rw [next, if_pos (h.started _), hwrites] at hs
    split at hs
    · rename_i hwrite
      cases hs
      exact .inl ⟨hwrite, rfl⟩
    · rename_i hwrite
      obtain ⟨sys', hsys, rfl⟩ := Option.map_eq_some_iff.mp hs
      exact .inr ⟨sys', Bool.eq_false_iff.mpr hwrite, hsys, rfl⟩

/-- A register write goes through whenever its thread is scheduled. -/
theorem next_of_isWritel {sys : LoopState Worker L (KOp X) K (KReg B) (KShared E)}
    {e : Event Worker} (h : (executed sys e).any isWritel = true) :
    ∃ sys', m.threads.next sys e = some sys' := by
  cases e with
  | interrupt t => cases h
  | step t =>
    rw [executed] at h
    split at h
    · rename_i i x k hc
      cases x with
      | act a => exact ⟨_, by rw [LoopSys.next, hc]⟩
      | lock l => cases h
      | unlock l => cases h
    · cases h

/-- From the states with `P` on, no register write is executed. -/
def Quiet (m : KModule L X B E K)
    (P : LoopState Worker L (KOp X) K (KReg B) (KShared E) → Prop) : Prop :=
  ∀ {sys e sys'}, P sys → m.threads.next sys e = some sys' →
    (executed sys e).any isWritel = false ∧ P sys'

/-- One step after exit, from a state from which no register write is executed. -/
theorem Quiet.step {P : LoopState Worker L (KOp X) K (KReg B) (KShared E) → Prop}
    (hquiet : m.Quiet P) (h : Gone s) (hP : P s.sys) {e : ModEvent}
    (hs : m.next s e = some s') : Gone s' ∧ P s'.sys ∧ s'.faulted = s.faulted := by
  obtain ⟨ev, -, ⟨hwrite, -⟩ | ⟨sys', -, hsys, rfl⟩⟩ := h.next_cases hs
  · obtain ⟨sys', hsys⟩ := next_of_isWritel (m := m) hwrite
    exact absurd (hwrite.symm.trans (hquiet hP hsys).1) (by decide)
  · exact ⟨⟨h.todo, h.exited, h.mapped, h.started⟩, (hquiet hP hsys).2, rfl⟩

end KModule

/-! ## Threads with a register write before them -/

/-- A thread with bound `n` has returned, or is in the last round behind the last
register write. -/
def Spent (n : Nat) : Ctl L (KOp X) → Prop
  | .head i => n ≤ i
  | .body i k => n ≤ i + 1 ∧ ∀ x ∈ k, isWritel x = false
  | .returned _ _ _ => True

/-- A thread with bound `n` has returned, or is in the last round with at most `tail`
statements left of its body. -/
def NearEnd (tail n : Nat) : Ctl L (KOp X) → Prop
  | .head i => n ≤ i
  | .body i k => n ≤ i + 1 ∧ k.length ≤ tail
  | .returned _ _ _ => True

instance (tail n : Nat) : DecidablePred (NearEnd (L := L) (X := X) tail n)
  | .head i => inferInstanceAs (Decidable (n ≤ i))
  | .body i k => inferInstanceAs (Decidable (n ≤ i + 1 ∧ k.length ≤ tail))
  | .returned _ _ _ => inferInstanceAs (Decidable True)

/-- The body writes to registers, for the last time before its last `tail`
statements. -/
def WritesBefore (tail : Nat) (b : Block L (KOp X)) : Prop :=
  tail < b.length ∧ AtEach (fun k => k.length ≤ tail ↔ ∀ x ∈ k, isWritel x = false) b

instance (tail : Nat) (b : Block L (KOp X)) : Decidable (WritesBefore tail b) :=
  inferInstanceAs (Decidable (_ ∧ AtEach _ b))

theorem WritesBefore.exists_isWritel {tail : Nat} {b : Block L (KOp X)}
    (h : WritesBefore tail b) : ∃ x ∈ b, isWritel x = true := by
  by_contra hno
  have hnone : ∀ x ∈ b, isWritel x = false := fun x hx =>
    Bool.eq_false_iff.mpr fun hwrites => hno ⟨x, hx, hwrites⟩
  exact Nat.not_lt.mpr ((h.2 b List.suffix_rfl).mpr hnone) h.1

theorem WritesBefore.nearEnd_iff {tail n : Nat} {b : Block L (KOp X)} (h : WritesBefore tail b)
    {c : Ctl L (KOp X)} (hc : c.Ok b n) : NearEnd tail n c ↔ Spent n c := by
  cases c with
  | head i => exact Iff.rfl
  | body i k => exact and_congr_right fun _ => h.2 k hc.2
  | returned v i k => exact Iff.rfl

namespace KModule

open LoopSys

variable {m : KModule L X B E K} {s s' : ModState L X B E K}

/-- All threads are behind their last register write. -/
def AllSpent (m : KModule L X B E K)
    (sys : LoopState Worker L (KOp X) K (KReg B) (KShared E)) : Prop :=
  ∀ t, Spent (m.threads.bound t) (sys.ctl t)

/-- A thread behind its last register write stays there. -/
theorem allSpent_step {sys sys' : LoopState Worker L (KOp X) K (KReg B) (KShared E)}
    {e : Event Worker} (h : m.AllSpent sys) (hs : m.threads.Step sys e sys') :
    m.AllSpent sys' := by
  have hmove : ∀ {t : Worker} {c : Ctl L (KOp X)}, Spent (m.threads.bound t) c →
      ∀ u, Spent (m.threads.bound u) (Function.update sys.ctl t c u) := fun hc =>
    forall_update (P := fun u c => Spent (m.threads.bound u) c) h hc
  have hbody : ∀ {t : Worker} {i : Nat} {x : Stmt L (KOp X)} {k : Block L (KOp X)},
      sys.ctl t = .body i (x :: k) → Spent (m.threads.bound t) (.body i k) := by
    intro t i x k hc
    have ht := h t
    rw [hc] at ht
    exact ⟨ht.1, fun y hy => ht.2 y (List.mem_cons_of_mem x hy)⟩
  cases hs with
  | @enter t i hc hi =>
    have ht := h t
    rw [hc] at ht
    exact absurd hi (Nat.not_lt.mpr ht)
  | leave hc hi => exact hmove trivial
  | @again t i hc =>
    have ht := h t
    rw [hc] at ht
    exact hmove ht.1
  | lock hc ha => exact hmove (hbody hc)
  | unlock hc => exact hmove (hbody hc)
  | act hc => exact hmove (hbody hc)
  | interrupted hc hi => exact hmove trivial

/-- A thread behind its last register write does not write. -/
theorem not_writel_of_allSpent {sys : LoopState Worker L (KOp X) K (KReg B) (KShared E)}
    (h : m.AllSpent sys) (e : Event Worker) : (executed sys e).any isWritel = false := by
  cases e with
  | interrupt t => rfl
  | step t =>
    have ht := h t
    cases hc : sys.ctl t with
    | head i => simp [executed, hc]
    | returned v i k => simp [executed, hc]
    | body i k =>
      rw [hc] at ht
      cases k with
      | nil => simp [executed, hc]
      | cons x k =>
        simp only [executed, hc, Option.any_some]
        exact ht.2 x List.mem_cons_self

theorem quiet_allSpent : m.Quiet m.AllSpent := fun h hs =>
  ⟨not_writel_of_allSpent h _, allSpent_step h (step_of_next hs)⟩

/-- A step that executes no register write, and interrupts nobody, brings no thread
behind its last one. -/
theorem not_spent_step (hb : ∀ t, ∃ x ∈ m.threads.prog t, isWritel x = true)
    {sys sys' : LoopState Worker L (KOp X) K (KReg B) (KShared E)} {u t : Worker}
    (hs : m.threads.Step sys (.step u) sys')
    (hquiet : (executed sys (.step u)).any isWritel = false)
    (h : ¬ Spent (m.threads.bound t) (sys.ctl t)) :
    ¬ Spent (m.threads.bound t) (sys'.ctl t) := by
  have hmove : ∀ {c : Ctl L (KOp X)}, sys'.ctl = Function.update sys.ctl u c →
      (t = u → Spent (m.threads.bound u) c → Spent (m.threads.bound u) (sys.ctl u)) →
      ¬ Spent (m.threads.bound t) (sys'.ctl t) := by
    intro c hctl hback
    rw [hctl]
    by_cases htu : t = u
    · subst htu
      rw [Function.update_self]
      exact fun hc => h (hback rfl hc)
    · rwa [Function.update_of_ne htu]
  -- a statement that is no register write
  have hconsume : ∀ {i : Nat} {x : Stmt L (KOp X)} {k : Block L (KOp X)},
      sys.ctl u = .body i (x :: k) → Spent (m.threads.bound u) (.body i k) →
      Spent (m.threads.bound u) (sys.ctl u) := by
    intro i x k hc hk
    rw [hc]
    refine ⟨hk.1, List.forall_mem_cons.mpr ⟨?_, hk.2⟩⟩
    rwa [executed, hc, Option.any_some] at hquiet
  cases hs with
  | enter hc hi =>
    refine hmove rfl fun _ hspent => ?_
    obtain ⟨x, hx, hwrites⟩ := hb u
    exact absurd (hwrites.symm.trans (hspent.2 x hx)) (by decide)
  | leave hc hi =>
    refine hmove rfl fun _ _ => ?_
    rw [hc]
    exact hi
  | again hc =>
    refine hmove rfl fun _ hspent => ?_
    rw [hc]
    exact ⟨hspent, List.forall_mem_nil _⟩
  | lock hc ha => exact hmove rfl fun _ hspent => hconsume hc hspent
  | unlock hc => exact hmove rfl fun _ hspent => hconsume hc hspent
  | act hc => exact hmove rfl fun _ hspent => hconsume hc hspent

/-- **A write that is due comes after exit**, if the threads can run on until it is not
due any more. -/
theorem exists_fault (hb : ∀ t, ∃ x ∈ m.threads.prog t, isWritel x = true) (h : Gone s)
    {t : Worker} (ht : ¬ Spent (m.threads.bound t) (s.sys.ctl t)) {sched : List Worker}
    {sys' : LoopState Worker L (KOp X) K (KReg B) (KShared E)}
    (hr : run m.threads.next s.sys (sched.map .step) = some sys')
    (hdone : (sys'.ctl t).Done) :
    ∃ es s', run m.next s es = some s' ∧ s'.faulted = true := by
  induction sched generalizing s with
  | nil =>
    cases hr
    obtain ⟨v, i, k, hc⟩ : ∃ v i k, s.sys.ctl t = .returned v i k := by
      cases hc : s.sys.ctl t with
      | head i => exact absurd hdone (by rw [hc]; exact id)
      | body i k => exact absurd hdone (by rw [hc]; exact id)
      | returned v i k => exact ⟨v, i, k, rfl⟩
    rw [hc] at ht
    exact absurd trivial ht
  | cons u sched ih =>
    obtain ⟨sys₁, hsys₁, hrest⟩ := run_cons_inv hr
    have hwrites : ((executed s.sys (.step u)).any isWritel && !s.mapped) =
        (executed s.sys (.step u)).any isWritel := by
      rw [h.mapped, Bool.not_false, Bool.and_true]
    cases hw : (executed s.sys (.step u)).any isWritel with
    | true =>
      refine ⟨[.sched (.step u)], { s with faulted := true }, (run_cons_some ?_).mpr rfl, rfl⟩
      rw [next, if_pos (h.started _), hwrites, if_pos hw]
    | false =>
      have hnext : m.next s (.sched (.step u)) = some { s with sys := sys₁ } := by
        rw [next, if_pos (h.started _), hwrites, hw, hsys₁]
        rfl
      obtain ⟨es, s', hes, hfault⟩ := ih (s := { s with sys := sys₁ })
        ⟨h.todo, h.exited, h.mapped, h.started⟩
        (not_spent_step hb (step_of_next hsys₁) hw ht) hrest
      exact ⟨_, s', (run_cons_some hnext).mpr hes, hfault⟩

/-! ## Exact conditions -/

/-- `Harmless` says of the states in which exit is called exactly whether the threads
have written to their registers for the last time. -/
structure UnmapsExactly (m : KModule L X B E K)
    (Harmless : LoopState Worker L (KOp X) K (KReg B) (KShared E) → Prop) : Prop where
  /-- In the runs in which exit is called in harmless states only, no thread writes to a
  register that is not mapped. -/
  safely : ∀ sys es s,
    StepsMeet m.next (fun s e => e = .exit → Harmless s.sys) (load sys) es →
    run m.next (load sys) es = some s → s.faulted = false
  /-- After a call of exit, wherever in a run it comes, no continuation has such a write
  if and only if it was called in a harmless state. -/
  exactly : ∀ sys es s s', run m.next (load sys) es = some s → m.next s .exit = some s' →
    ((∀ es' s'', run m.next s' es' = some s'' → s''.faulted = false) ↔ Harmless s.sys)

/-- The rule: from the harmless states on no register write is executed, and in the
others a thread has one before it and the threads can run to their end. -/
theorem unmapsExactly_of {Harmless P : LoopState Worker L (KOp X) K (KReg B) (KShared E) → Prop}
    (hb : ∀ t, ∃ x ∈ m.threads.prog t, isWritel x = true) (hquiet : m.Quiet P)
    (hharmless : ∀ {sys}, Reached m (fun _ => True) sys → Harmless sys → P sys)
    (hharm : ∀ {sys}, Reached m (fun _ => True) sys → ¬ Harmless sys →
      (∃ t, ¬ Spent (m.threads.bound t) (sys.ctl t)) ∧
        ∃ sys', m.threads.Leads sys sys' ∧ ∀ t, (sys'.ctl t).Done) :
    m.UnmapsExactly Harmless where
  safely := by
    intro sys es s hC hr
    let I := fun s : ModState L X B E K => LifeInv m s ∧
      (s.exited = true → Gone s ∧ P s.sys ∧ s.faulted = false)
    have hI : I s := by
      refine run_inv_where (I := I) ?_ ⟨lifeInv_load sys, nofun⟩ hC hr
      rintro s e s' ⟨hlife, hgone⟩ he hs
      refine ⟨lifeInv_step hlife hs, fun hx' => ?_⟩
      cases hx : s.exited with
      | true =>
        obtain ⟨hg, hP, hfine⟩ := hgone hx
        obtain ⟨hg', hP', hsame⟩ := hquiet.step hg hP hs
        exact ⟨hg', hP', hsame.trans hfine⟩
      | false =>
        obtain rfl := exit_of_exited hs hx hx'
        obtain ⟨hreached, hg', hsys, hfine⟩ := hlife.of_exit hs
        exact ⟨hg', hsys ▸ hharmless hreached (he rfl), hfine⟩
    cases hx : s.exited with
    | true => exact (hI.2 hx).2.2
    | false => exact hI.1.fine hx
  exactly := by
    intro sys es s s' hr hs
    obtain ⟨hreached, hgone, hsys, hfine⟩ := (lifeInv_run hr).of_exit hs
    constructor
    · intro hnever
      by_contra hnot
      obtain ⟨⟨t, ht⟩, sys', ⟨sched, hsched⟩, hdone⟩ := hharm hreached hnot
      rw [← hsys] at ht hsched
      obtain ⟨es', s'', hes', hfault⟩ := exists_fault hb hgone ht hsched (hdone t)
      exact absurd (hfault.symm.trans (hnever es' s'' hes')) (by decide)
    · intro hsafe es' s'' hes'
      have hI := run_inv (I := fun s => Gone s ∧ P s.sys ∧ s.faulted = false)
        (fun h hs => by
          obtain ⟨hg', hP', hsame⟩ := hquiet.step h.1 h.2.1 hs
          exact ⟨hg', hP', hsame.trans h.2.2⟩)
        ⟨hgone, hsys ▸ hharmless hreached hsafe, hfine⟩ hes'
      exact hI.2.2

end KModule

end Esystem
