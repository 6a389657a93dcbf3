import Esystem.Core.BinarySemaphore
import Esystem.Kthread.Mutex

/-!
# semaphore.c does what mutex.c does

The thread functions of mutex.c and semaphore.c are the same code over a mutex
and over a semaphore that starts at 1. Observed are acquisitions, interrupted
acquisitions, increments of `shared_counter` and the values reported, writes to
the LEDs, releases, and what the threads return.

- `watched_lockstep`: kernel threads over mutexes and over binary semaphores
  show the same.
- `mutex_semaphore_equivalent`: the two modules have the same traces.
-/

namespace Esystem

/-! ## What is observed of kernel threads -/

/-- An observation of one of the threads `ι`. -/
inductive Obs (ι : Type) where
  | acquired (t : ι)
  | interrupted (t : ι)
  | incremented (t : ι) (value : CInt)
  | reported (t : ι) (value : CInt)
  | writel (t : ι) (value : BitVec 32) (offset : Nat)
  | released (t : ι)
  | returned (t : ι) (v : Int)
  deriving DecidableEq

/-- Threads under observation; `collected` says whose return value has been
seen. A thread that has returned is seen to have returned some time later. -/
structure Watched (ι L X K B E : Type) where
  sys : LoopState ι L (KOp X) K (KReg B) (KShared E)
  collected : ι → Bool

/-- The scheduler picks a thread, or the return value of a thread is seen. -/
inductive WatchedEvent (ι : Type) where
  | sched (e : Event ι)
  | collect (t : ι)
  deriving DecidableEq

namespace Watched

variable {ι L X K B E : Type} [DecidableEq ι]

/-- Threads that start, observed from the start. -/
def start (sys : LoopState ι L (KOp X) K (KReg B) (KShared E)) : Watched ι L X K B E where
  sys := sys
  collected := fun _ => false

/-- One event. -/
def next (M : LoopSys ι L (KOp X) K (KReg B) (KShared E)) (s : Watched ι L X K B E) :
    WatchedEvent ι → Option (Watched ι L X K B E)
  | .sched e => (M.next s.sys e).map fun sys' => { s with sys := sys' }
  | .collect t =>
    if (s.sys.ctl t).Done ∧ s.collected t = false then
      some { s with collected := Function.update s.collected t true }
    else none

/-- What an event shows. -/
def obs (s : Watched ι L X K B E) : WatchedEvent ι → List (Obs ι)
  | .sched (.step t) =>
    match s.sys.ctl t with
    | .body _ (.lock _ :: _) => [.acquired t]
    | .body _ (.unlock _ :: _) => [.released t]
    | .body _ (.act .storeCounter :: _) => [.incremented t ((s.sys.reg t).counter + 1)]
    | .body _ (.act .printkCounter :: _) => [.reported t s.sys.shared.sharedCounter]
    | .body _ (.act (.writel value offset) :: _) => [.writel t value offset]
    | _ => []
  | .sched (.interrupt t) => [.interrupted t]
  | .collect t =>
    match s.sys.ctl t with
    | .returned v _ _ => [.returned t v]
    | _ => []

end Watched

section Lockstep

open LoopSys

variable {ι L L' X B E : Type} [DecidableEq ι] [DecidableEq L] [DecidableEq L']
  {f : L → L'} {M : LoopSys ι L (KOp X) (L → Option ι) (KReg B) (KShared E)}
  {M' : LoopSys ι L' (KOp X) (L' → Nat) (KReg B) (KShared E)}

omit [DecidableEq ι] [DecidableEq L] [DecidableEq L'] in
/-- Positions in the same code show the same. -/
theorem obs_mapLock {s : Watched ι L X (L → Option ι) B E} {s' : Watched ι L' X (L' → Nat) B E}
    (h : SameBut f (CountsFree f) s.sys s'.sys) (e : WatchedEvent ι) : s.obs e = s'.obs e := by
  cases e with
  | sched e =>
    cases e with
    | interrupt t => rfl
    | step t =>
      have ht := h.ctl t
      unfold Watched.obs
      dsimp only
      rw [ht, h.reg, h.shared]
      match s.sys.ctl t with
      | .head i => rfl
      | .returned v i k => rfl
      | .body i [] => rfl
      | .body i (.lock l :: k) => rfl
      | .body i (.unlock l :: k) => rfl
      | .body i (.act .loadCounter :: k) => rfl
      | .body i (.act .storeCounter :: k) => rfl
      | .body i (.act .printkCounter :: k) => rfl
      | .body i (.act (.writel value offset) :: k) => rfl
      | .body i (.act (.msleep ms) :: k) => rfl
      | .body i (.act (.extra x) :: k) => rfl
  | collect t =>
    have ht := h.ctl t
    unfold Watched.obs
    dsimp only
    rw [ht]
    cases s.sys.ctl t with
    | head i => rfl
    | body i k => rfl
    | returned v i k => rfl

/-- **Kernel threads over mutexes and over binary semaphores show the same** if
they acquire and release in turn. -/
theorem watched_lockstep (hf : Function.Injective f) {b : Bool} (hM : M.sync = exclusive b)
    (hM' : M'.sync = counting b) (hMM' : Relabels f M M')
    (hb : ∀ t l, LockBracketed (M.prog t) l) :
    Lockstep (Watched.next M) Watched.obs (Watched.next M') Watched.obs
      fun s s' => Binary f M s.sys s'.sys ∧ s'.collected = s.collected where
  step := by
    rintro s s' ⟨h, hcollected⟩ e
    cases e with
    | sched e =>
      exact rel_map (binary_next hf hM hM' hMM' hb h e) fun hxy => ⟨hxy, hcollected⟩
    | collect t =>
      have hdone : (s'.sys.ctl t).Done ↔ (s.sys.ctl t).Done := by
        rw [h.same.ctl t]
        cases s.sys.ctl t with
        | head i => exact Iff.rfl
        | body i k => exact Iff.rfl
        | returned v i k => exact Iff.rfl
      unfold Watched.next
      dsimp only
      rw [hcollected]
      simp only [hdone]
      split
      · exact .some ⟨h, rfl⟩
      · exact .none
  obs h e := obs_mapLock h.1.same e

end Lockstep

/-! ## The two modules -/

namespace Semaphore

open LoopSys

/-- The state in which `semaphore_module_init` starts the threads, after
`sema_init(&my_semaphore, 1)`. -/
def start (reg : Worker → KReg Unit) (gpio : Gpio) :
    LoopState Worker MySemaphore (KOp Empty) (MySemaphore → Nat) (KReg Unit) (KShared Unit) :=
  init reg (fun _ => 1) ⟨0, gpio, ()⟩

/-- `my_semaphore` in place of `my_mutex`. -/
def ofMutex : MyMutex → MySemaphore
  | .myMutex => .mySemaphore

theorem ofMutex_injective : Function.Injective ofMutex := by
  intro l m _
  cases l
  cases m
  rfl

/-- The thread functions are those of mutex.c. -/
theorem relabels (bound : Worker → Nat) :
    Relabels ofMutex (Mutex.threads bound) (threads bound) where
  bound := rfl
  prog t := by
    cases t with
    | thread1 => rfl
    | thread2 => rfl
  exec := rfl
  interruptible := rfl

/-- **mutex.c and semaphore.c are observably equivalent**, and the semaphore is
always 1 minus the number of threads between acquisition and release. -/
theorem mutex_semaphore_equivalent (bound : Worker → Nat) (reg : Worker → KReg Unit)
    (gpio : Gpio) :
    Traces (Watched.next (Mutex.threads bound)) Watched.obs
        (Watched.start (Mutex.start reg gpio)) =
      Traces (Watched.next (threads bound)) Watched.obs (Watched.start (start reg gpio)) ∧
    ∀ es s, run (threads bound).next (start reg gpio) es = some s →
      s.locks .mySemaphore + (Finset.univ.filter fun t =>
        owes .mySemaphore ((threads bound).rest s t) = true).card = 1 := by
  constructor
  · have hlock : Lockstep (Watched.next (Mutex.threads bound)) Watched.obs
        (Watched.next (threads bound)) Watched.obs fun s s' =>
          Binary ofMutex (Mutex.threads bound) s.sys s'.sys ∧ s'.collected = s.collected :=
      watched_lockstep ofMutex_injective rfl rfl (relabels bound) Mutex.bracketed
    exact hlock.traces_eq ⟨binary_init Mutex.bracketed ofMutex reg _, rfl⟩
  · intro es s hr
    exact count_run (X := Mutex.threads bound) ofMutex_injective rfl rfl (relabels bound)
      Mutex.bracketed hr .myMutex

end Semaphore

end Esystem
