import Esystem.Core.LockDiscipline
import Esystem.Core.CInt
import Esystem.Board.Gpio

/-!
# Kernel threads of the lock modules

The modules mutex.c, semaphore.c, spinlock.c, deadlock.c, deadlock_sol.c,
messageq.c and sharedm.c all start two kernel threads that run
`for (i = 0; i < 5; i++) { … } return 0;`. The rounds are made of the same
statements: take a lock, increment `shared_counter`, switch an LED on and off
with a sleep between, release the lock, sleep. messageq.c and sharedm.c add
statements of their own (`extra`).

`shared_counter++` is two statements here, a load into a register of the thread
and a store of the incremented register, so that another thread can run between
them. The other `printk` lines of the source change nothing and are left out.
-/

namespace Esystem

/-- The two threads of a module, `thread1` and `thread2`. -/
inductive Worker where
  | thread1
  | thread2
  deriving DecidableEq

instance : Fintype Worker where
  elems := {.thread1, .thread2}
  complete t := by cases t <;> decide

/-- With two threads, two that differ from a third are the same. -/
theorem Worker.eq_of_ne_of_ne {t u v : Worker} (hu : u ≠ t) (hv : v ≠ u) : v = t := by
  cases t <;> cases u <;> cases v <;> simp_all

theorem sum_worker (f : Worker → Nat) : ∑ t, f t = f .thread1 + f .thread2 := by
  show f .thread1 + (f .thread2 + 0) = _
  rw [Nat.add_zero]

/-- The plain statements of a thread function; `X` are those of one module. -/
inductive KOp (X : Type) where
  | loadCounter
  | storeCounter
  | printkCounter
  | writel (value : BitVec 32) (offset : Nat)
  | msleep (ms : Nat)
  | extra (x : X)
  deriving DecidableEq

/-- What a thread keeps to itself: the value of `shared_counter` it loaded, and
the module's own local variables. -/
structure KReg (B : Type) where
  counter : CInt
  locals : B

/-- What the threads share. -/
structure KShared (E : Type) where
  sharedCounter : CInt
  gpio : Gpio
  extra : E

variable {ι L X B E K : Type}

/-- Executing one plain statement in round `i`. The `printk` of the counter and
the sleeps change nothing. -/
def execOp (extra : Nat → X → B → E → B × E) (i : Nat) :
    KOp X → KReg B → KShared E → KReg B × KShared E
  | .loadCounter, r, m => ({ r with counter := m.sharedCounter }, m)
  | .storeCounter, r, m => (r, { m with sharedCounter := r.counter + 1 })
  | .printkCounter, r, m => (r, m)
  | .writel value offset, r, m => (r, { m with gpio := m.gpio.writel value offset })
  | .msleep _, r, m => (r, m)
  | .extra x, r, m =>
    let p := extra i x r.locals m.extra
    ({ r with locals := p.1 }, { m with extra := p.2 })

/-- A family of kernel threads with bodies `prog` and loop bounds `bound`. -/
def kthreads (sync : Sync ι L K) (bound : ι → Nat) (prog : ι → Block L (KOp X))
    (extra : Nat → X → B → E → B × E) : LoopSys ι L (KOp X) K (KReg B) (KShared E) where
  sync := sync
  bound := bound
  prog := prog
  exec _ i a r m := execOp extra i a r m

/-- Only the module's own statements change what it shares beyond the counter
and the GPIO block. -/
theorem extra_of_step [DecidableEq ι] {sync : Sync ι L K} {bound : ι → Nat}
    {prog : ι → Block L (KOp X)} {extra : Nat → X → B → E → B × E}
    {s s' : LoopState ι L (KOp X) K (KReg B) (KShared E)} {e : Event ι}
    (hs : (kthreads sync bound prog extra).Step s e s') :
    (s'.shared.extra = s.shared.extra ∧ ∀ x, LoopSys.executed s e ≠ some (.act (.extra x))) ∨
      ∃ t i x k, e = .step t ∧ s.ctl t = .body i (.act (.extra x) :: k) ∧
        s'.shared.extra = (extra i x (s.reg t).locals s.shared.extra).2 := by
  have hquiet : LoopSys.executed s e = none → s'.shared.extra = s.shared.extra →
      (s'.shared.extra = s.shared.extra ∧ ∀ x, LoopSys.executed s e ≠ some (.act (.extra x))) ∨
      ∃ t i x k, e = .step t ∧ s.ctl t = .body i (.act (.extra x) :: k) ∧
        s'.shared.extra = (extra i x (s.reg t).locals s.shared.extra).2 :=
    fun he h => .inl ⟨h, fun x => by simp [he]⟩
  cases hs with
  | enter hc hi => exact hquiet (by rw [LoopSys.executed, hc]) rfl
  | leave hc hi => exact hquiet (by rw [LoopSys.executed, hc]) rfl
  | again hc => exact hquiet (by rw [LoopSys.executed, hc]) rfl
  | interrupted hc hi => exact hquiet rfl rfl
  | lock hc ha => exact .inl ⟨rfl, fun x => by simp [LoopSys.executed, hc]⟩
  | unlock hc => exact .inl ⟨rfl, fun x => by simp [LoopSys.executed, hc]⟩
  | @act t i a k hc =>
    cases a with
    | extra x => exact .inr ⟨t, i, x, k, rfl, hc, rfl⟩
    | loadCounter => exact .inl ⟨rfl, fun x => by simp [LoopSys.executed, hc]⟩
    | storeCounter => exact .inl ⟨rfl, fun x => by simp [LoopSys.executed, hc]⟩
    | printkCounter => exact .inl ⟨rfl, fun x => by simp [LoopSys.executed, hc]⟩
    | writel value offset => exact .inl ⟨rfl, fun x => by simp [LoopSys.executed, hc]⟩
    | msleep ms => exact .inl ⟨rfl, fun x => by simp [LoopSys.executed, hc]⟩

/-- What a step does to a count of some of the statements added to `KOp`: no other step
is counted. -/
theorem extra_of_step_total [DecidableEq ι] [Fintype ι] {sync : Sync ι L K} {bound : ι → Nat}
    {prog : ι → Block L (KOp X)} {extra : Nat → X → B → E → B × E}
    {s s' : LoopState ι L (KOp X) K (KReg B) (KShared E)} {e : Event ι}
    {p : Stmt L (KOp X) → Bool} (hp : ∀ x, p x = true → ∃ y, x = .act (.extra y))
    (hok : (kthreads sync bound prog extra).AllOk s)
    (hs : (kthreads sync bound prog extra).Step s e s') :
    (s'.shared.extra = s.shared.extra ∧ (∀ x, LoopSys.executed s e ≠ some (.act (.extra x))) ∧
      (kthreads sync bound prog extra).total p s' = (kthreads sync bound prog extra).total p s) ∨
    ∃ t i x k, s.ctl t = .body i (.act (.extra x) :: k) ∧
      LoopSys.executed s e = some (.act (.extra x)) ∧
      s'.shared.extra = (extra i x (s.reg t).locals s.shared.extra).2 ∧
      (kthreads sync bound prog extra).total p s' = (kthreads sync bound prog extra).total p s
        + if p (.act (.extra x)) = true then 1 else 0 := by
  have htotal := LoopSys.total_step (p := p) hok hs
  rcases extra_of_step hs with ⟨hextra, hquiet⟩ | ⟨t, i, x, k, rfl, hc, hextra⟩
  · refine .inl ⟨hextra, hquiet, ?_⟩
    have hno : ¬ (LoopSys.executed s e).any p = true := by
      rw [Option.any_eq_true]
      rintro ⟨x, hx, hcounted⟩
      obtain ⟨y, rfl⟩ := hp x hcounted
      exact hquiet y hx
    rwa [if_neg hno] at htotal
  · have hexec : LoopSys.executed s (.step t) = some (.act (.extra x)) := by
      rw [LoopSys.executed, hc]
    rw [hexec] at htotal
    exact .inr ⟨t, i, x, k, hc, hexec, hextra, htotal⟩

/-- For modules without statements of their own. -/
def noExtra : Nat → Empty → Unit → Unit → Unit × Unit := fun _ x => x.elim

/-! ## Kinds of statements -/

/-- The load half of `shared_counter++`. -/
def isLoad : Stmt L (KOp X) → Bool
  | .act .loadCounter => true
  | _ => false

/-- The store half of `shared_counter++`. -/
def isStore : Stmt L (KOp X) → Bool
  | .act .storeCounter => true
  | _ => false

/-- A write to a GPIO register. -/
def isWritel : Stmt L (KOp X) → Bool
  | .act (.writel _ _) => true
  | _ => false

/-- The statement raises pin `p`. -/
def lights (p : Nat) : Stmt L (KOp X) → Bool
  | .act (.writel value offset) => decide (offset = gpset0) && value.getLsbD p
  | _ => false

/-- The statement lowers pin `p`. -/
def darkens (p : Nat) : Stmt L (KOp X) → Bool
  | .act (.writel value offset) => decide (offset = gpclr0) && value.getLsbD p
  | _ => false

/-- Pin `p` is high at this position of the code that switches it on and off. -/
def lit (p : Nat) (k : Block L (KOp X)) : Bool :=
  owed (lights p) (darkens p) k

end Esystem
