import Esystem.Kthread.CriticalSection
import Esystem.Kthread.Programs

/-!
# The critical section of mutex.c

The two threads of mutex.c, under every schedule and every pattern of
interrupted acquisitions: mutual exclusion, no lost increment, the LEDs inside
the critical section, and a clean state once both threads have returned.
-/

namespace Esystem.Mutex

open LoopSys Kthread

/-- The LED of each thread. -/
def ledPin : Worker → Nat
  | .thread1 => 18
  | .thread2 => 23

/-- The state in which `mutex_module_init` starts the threads. -/
def start (reg : Worker → KReg Unit) (gpio : Gpio) :
    LoopState Worker MyMutex (KOp Empty) (MyMutex → Option Worker) (KReg Unit) (KShared Unit) :=
  init reg (fun _ => none) ⟨0, gpio, ()⟩

/-- Thread `t` is between its acquisition and its release of `my_mutex`. -/
def InSection (bound : Worker → Nat)
    (s : LoopState Worker MyMutex (KOp Empty) (MyMutex → Option Worker) (KReg Unit)
      (KShared Unit)) (t : Worker) : Prop :=
  owes .myMutex ((threads bound).rest s t) = true

/-! ## The bodies, by evaluation -/

theorem bracketed (t : Worker) (l : MyMutex) : LockBracketed (threadFunction t) l := by
  cases t <;> cases l <;> decide

theorem counterGuarded (t : Worker) :
    CounterGuarded MyMutex.myMutex (threadFunction t) := by
  cases t <;> decide

theorem ledGuarded : LedGuarded ledPin threadFunction where
  own t := by cases t <;> decide
  alone t u := by cases t <;> cases u <;> decide

/-- An LED is lit only where the mutex is owed. -/
theorem owes_of_lit (t : Worker) : AtEach
    (fun k => lit (ledPin t) k = true → owes MyMutex.myMutex k = true)
    (threadFunction t) := by
  cases t <;> decide

/-- The only acquisition is the first statement of the body. -/
theorem acquires_first (t : Worker) : AtEach
    (fun k => k.head? = some (.lock MyMutex.myMutex) → k = threadFunction t)
    (threadFunction t) := by
  cases t <;> decide

variable {bound : Worker → Nat}
  {s : LoopState Worker MyMutex (KOp Empty) (MyMutex → Option Worker) (KReg Unit)
    (KShared Unit)}

/-- A thread that has returned, in either way, is back at the start of its
body. -/
theorem rest_of_done (hok : (threads bound).AllOk s) {t : Worker} (hd : (s.ctl t).Done) :
    (threads bound).rest s t = threadFunction t := by
  rcases (hok t).rest_of_done hd with h | ⟨l, k, h⟩
  · exact h
  · cases l
    exact acquires_first t _ (hok.rest_suffix t) (by rw [rest, h]; rfl)

/-- A thread that has returned has incremented the counter once in each of its
completed rounds. -/
theorem performed_of_done (hok : (threads bound).AllOk s) {t : Worker}
    (hd : (s.ctl t).Done) :
    (s.ctl t).performed isStore (threadFunction t) = (s.ctl t).round := by
  have hrest : (s.ctl t).rest (threadFunction t) = threadFunction t := rest_of_done hok hd
  have hone : (threadFunction t).countP isStore = 1 := by cases t <;> rfl
  rw [Ctl.performed, hrest, hone]
  omega

/-- **The critical section of mutex.c is safe.** -/
theorem critical_section (bound : Worker → Nat) (reg : Worker → KReg Unit) (gpio : Gpio)
    (h18 : gpio.level 18 = false) (h23 : gpio.level 23 = false) (es : List (Event Worker))
    (s : LoopState Worker MyMutex (KOp Empty) (MyMutex → Option Worker) (KReg Unit)
      (KShared Unit))
    (hr : run (threads bound).next (start reg gpio) es = some s) :
    -- at most one thread is in the section, and it is the owner of the mutex
    (∀ t u, InSection bound s t → InSection bound s u → t = u) ∧
    (∀ t, s.locks .myMutex = some t ↔ InSection bound s t) ∧
    -- no increment is lost
    s.shared.sharedCounter =
      BitVec.ofNat 32 ((threads bound).executions isStore (start reg gpio) es) ∧
    -- each LED is high only while its thread holds the mutex
    (s.shared.gpio.level 18 = true → s.locks .myMutex = some .thread1) ∧
    (s.shared.gpio.level 23 = true → s.locks .myMutex = some .thread2) ∧
    ¬ (s.shared.gpio.level 18 = true ∧ s.shared.gpio.level 23 = true) ∧
    -- once both threads have returned, everything is given back
    ((∀ t, (s.ctl t).Done) →
      s.shared.gpio.level 18 = false ∧ s.shared.gpio.level 23 = false ∧
      s.locks .myMutex = none ∧
      s.shared.sharedCounter =
        BitVec.ofNat 32 ((s.ctl .thread1).round + (s.ctl .thread2).round)) := by
  have hinv : SectionInv (threads bound) s := sectionInv_run bracketed counterGuarded hr
  have hleds : LedsOk (threads bound) ledPin s :=
    ledsOk_run ledGuarded (fun t => by cases t <;> assumption) hr
  have hled : ∀ t, s.shared.gpio.level (ledPin t) = true → s.locks .myMutex = some t := by
    intro t ht
    rw [hleds t] at ht
    exact (hinv.held _ t).mpr (owes_of_lit t _ (hinv.ok.rest_suffix t) ht)
  refine ⟨fun t u => owes_unique hinv.held, fun t => hinv.held _ t,
    sharedCounter_run bracketed counterGuarded hr, hled .thread1, hled .thread2, ?_, ?_⟩
  · rintro ⟨h1, h2⟩
    have howner := (hled .thread1 h1).symm.trans (hled .thread2 h2)
    cases howner
  · intro hdone
    have hlow : ∀ t, s.shared.gpio.level (ledPin t) = false := by
      intro t
      rw [hleds t, rest_of_done hinv.ok (hdone t)]
      cases t <;> decide
    refine ⟨hlow .thread1, hlow .thread2, ?_, ?_⟩
    · cases hl : s.locks .myMutex with
      | none => rfl
      | some t =>
        have howes := (hinv.held _ t).mp hl
        rw [rest_of_done hinv.ok (hdone t), (bracketed t _).owes_body] at howes
        cases howes
    · rw [hinv.counter.count, total, sum_worker]
      have h1 := performed_of_done hinv.ok (hdone .thread1)
      have h2 := performed_of_done hinv.ok (hdone .thread2)
      exact congrArg (BitVec.ofNat 32) (congrArg₂ (· + ·) h1 h2)

/-- A round of `thread1`, after which `thread2` is interrupted at its first
acquisition. -/
def interruptedRun : List (Event Worker) :=
  List.replicate 12 (.step .thread1) ++ [.step .thread2, .interrupt .thread2]

/-- Both threads have returned from `interruptedRun`, and the mutex is free. -/
theorem critical_section_interrupted :
    ∃ s, run (threads fun _ => 1).next
        (start (fun _ => ⟨0, ()⟩) ⟨fun _ => 0, fun _ => false⟩) interruptedRun = some s ∧
      s.locks .myMutex = none ∧
      s.shared.sharedCounter =
        BitVec.ofNat 32 ((s.ctl .thread1).round + (s.ctl .thread2).round) := by
  obtain ⟨s, hs, hp⟩ := exists_run_of_any (threads fun _ => 1).next
    (start (fun _ => ⟨0, ()⟩) ⟨fun _ => 0, fun _ => false⟩) interruptedRun
    (fun s => decide (∀ t, (s.ctl t).Done)) (by decide)
  obtain ⟨-, -, -, -, -, -, hfinal⟩ := critical_section (fun _ => 1) (fun _ => ⟨0, ()⟩)
    ⟨fun _ => 0, fun _ => false⟩ rfl rfl interruptedRun s hs
  have hend := hfinal (of_decide_eq_true hp)
  exact ⟨s, hs, hend.2.2.1, hend.2.2.2⟩

end Esystem.Mutex
