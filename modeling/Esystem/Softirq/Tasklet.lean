import Esystem.Core.Family
import Esystem.Core.Machine
import Esystem.Board.Gpio

/-!
# The tasklet driver on several CPUs

switch_softirq.c toggles two LEDs on each press of a button. The interrupt
handler `isr_tasklet` schedules the tasklet `switch_tasklet`, whose body
`isr_func` reads one LED and drives both.

The model has any number of CPUs. On each, an interrupt suspends whatever runs
there until the handler returns. Of the tasklet it keeps what the kernel keeps:
on which CPU it is queued (if any, its scheduled flag is set), where it runs (if
anywhere, its running flag is set), and its disable count. A queued tasklet
starts on its CPU when no handler is active there, it does not run elsewhere and
its count is 0; its scheduled flag is cleared before its body runs.
-/

namespace Esystem.Softirq

/-- `#define GPIO_LED1 18`. -/
def gpioLed1 : Nat := 18

/-- `#define GPIO_LED2 23`. -/
def gpioLed2 : Nat := 23

/-- The statement of `isr_tasklet` that comes next on a CPU. `tasklet_disable`
is two steps: raise the disable count, then wait for a running instance. -/
inductive IsrPc where
  | idle
  | disableCount
  | disableWait
  | schedule
  | enable
  | ret
  deriving DecidableEq

/-- The statement of `isr_func` that comes next. -/
inductive BodyPc where
  | getValue
  | setLed1
  | setLed2
  | ret
  deriving DecidableEq

/-- Two CPUs, for concrete runs. -/
inductive Cpu where
  | cpu0
  | cpu1
  deriving DecidableEq, Inhabited

instance : Fintype Cpu where
  elems := {.cpu0, .cpu1}
  complete c := by cases c <;> decide

variable {ι : Type}

/-- The state after `request_irq` in `switch_init`. `initTodo` says that
`switch_init` has not made its own call of `tasklet_schedule` yet; `handled`
counts the interrupts whose handler has returned, `coalesced` the calls of
`tasklet_schedule` that found the tasklet scheduled, and `finished` the
executions of `isr_func` that have ended. -/
structure State (ι : Type) where
  gpio : Gpio
  gpioValue : Bool
  initTodo : Bool
  queued : Option ι
  running : Option (ι × BodyPc)
  count : Nat
  isr : ι → IsrPc
  handled : Nat
  coalesced : Nat
  finished : Nat

/-- An interrupt arrives, a handler goes on, a CPU starts the tasklet it has
queued, the tasklet goes on, or `switch_init` goes on. -/
inductive Event (ι : Type) where
  | irq (c : ι)
  | isr (c : ι)
  | softirq (c : ι)
  | body
  | init (c : ι)

/-- Both LEDs configured as outputs and blinked five times, at the beginning of
`switch_init`. -/
def blinked (g : Gpio) : Gpio :=
  let blink := fun g : Gpio => (((g.setValue gpioLed1 true).setValue gpioLed2 true).setValue
    gpioLed1 false).setValue gpioLed2 false
  blink^[5] ((g.directionOutput gpioLed1 false).directionOutput gpioLed2 false)

/-- The state in which `request_irq` has just succeeded. -/
def start (g : Gpio) : State ι where
  gpio := blinked g
  gpioValue := false
  initTodo := true
  queued := none
  running := none
  count := 0
  isr := fun _ => .idle
  handled := 0
  coalesced := 0
  finished := 0

namespace State

variable [DecidableEq ι]

/-- The handler on CPU `c` comes to `p`. -/
def goto (s : State ι) (c : ι) (p : IsrPc) : State ι :=
  { s with isr := Function.update s.isr c p }

/-- `tasklet_schedule(&switch_tasklet)` on CPU `c`. -/
def taskletSchedule (s : State ι) (c : ι) : State ι :=
  match s.queued with
  | none => { s with queued := some c }
  | some _ => { s with coalesced := s.coalesced + 1 }

/-- Nothing on CPU `c` comes before a process. -/
def Free (s : State ι) (c : ι) : Prop :=
  s.isr c = .idle ∧ ∀ r ∈ s.running, r.1 ≠ c

instance (s : State ι) (c : ι) : Decidable (s.Free c) :=
  inferInstanceAs (Decidable (_ ∧ _))

end State

variable [DecidableEq ι]

/-- One step of `isr_tasklet` on CPU `c`. -/
def isrTasklet (s : State ι) (c : ι) : Option (State ι) :=
  match s.isr c with
  | .idle => none
  | .disableCount => some { s.goto c .disableWait with count := s.count + 1 }
  | .disableWait => if s.running = none then some (s.goto c .schedule) else none
  | .schedule => some ((s.goto c .enable).taskletSchedule c)
  | .enable => some { s.goto c .ret with count := s.count - 1 }
  | .ret => some { s.goto c .idle with handled := s.handled + 1 }

/-- One step of `isr_func`, running on CPU `c`. -/
def isrFunc (s : State ι) (c : ι) : BodyPc → State ι
  | .getValue =>
    { s with gpioValue := s.gpio.getValue gpioLed1, running := some (c, .setLed1) }
  | .setLed1 =>
    { s with gpio := s.gpio.setValue gpioLed1 (!s.gpioValue), running := some (c, .setLed2) }
  | .setLed2 =>
    { s with gpio := s.gpio.setValue gpioLed2 (!s.gpioValue), running := some (c, .ret) }
  | .ret => { s with running := none, finished := s.finished + 1 }

/-- One event. -/
def next (s : State ι) : Event ι → Option (State ι)
  | .irq c => if s.isr c = .idle then some (s.goto c .disableCount) else none
  | .isr c => isrTasklet s c
  | .softirq c =>
    if s.queued = some c ∧ s.isr c = .idle ∧ s.running = none ∧ s.count = 0 then
      some { s with queued := none, running := some (c, .getValue) }
    else none
  | .body =>
    match s.running with
    | none => none
    | some (c, pc) => if s.isr c = .idle then some (isrFunc s c pc) else none
  | .init c =>
    if s.initTodo = true ∧ s.Free c then some { s.taskletSchedule c with initTodo := false }
    else none

/-- What one event does, case by case. -/
inductive Step (s : State ι) : Event ι → State ι → Prop where
  | irq {c : ι} (hc : s.isr c = .idle) : Step s (.irq c) (s.goto c .disableCount)
  | disableCount {c : ι} (hc : s.isr c = .disableCount) :
      Step s (.isr c) { s.goto c .disableWait with count := s.count + 1 }
  | disableWait {c : ι} (hc : s.isr c = .disableWait) (hr : s.running = none) :
      Step s (.isr c) (s.goto c .schedule)
  | schedule {c : ι} (hc : s.isr c = .schedule) :
      Step s (.isr c) ((s.goto c .enable).taskletSchedule c)
  | enable {c : ι} (hc : s.isr c = .enable) :
      Step s (.isr c) { s.goto c .ret with count := s.count - 1 }
  | ret {c : ι} (hc : s.isr c = .ret) :
      Step s (.isr c) { s.goto c .idle with handled := s.handled + 1 }
  | softirq {c : ι} (hq : s.queued = some c) (hc : s.isr c = .idle) (hr : s.running = none)
      (h0 : s.count = 0) :
      Step s (.softirq c) { s with queued := none, running := some (c, .getValue) }
  | body {c : ι} {pc : BodyPc} (hr : s.running = some (c, pc)) (hc : s.isr c = .idle) :
      Step s .body (isrFunc s c pc)
  | init {c : ι} (hi : s.initTodo = true) (hc : s.Free c) :
      Step s (.init c) { s.taskletSchedule c with initTodo := false }

theorem step_of_next {s s' : State ι} {e : Event ι} (h : next s e = some s') : Step s e s' := by
  cases e with
  | irq c =>
    simp only [next] at h
    split at h
    · rename_i hc
      cases h
      exact .irq hc
    · cases h
  | isr c =>
    simp only [next, isrTasklet] at h
    split at h
    · cases h
    · rename_i hc
      cases h
      exact .disableCount hc
    · rename_i hc
      split at h
      · rename_i hr
        cases h
        exact .disableWait hc hr
      · cases h
    · rename_i hc
      cases h
      exact .schedule hc
    · rename_i hc
      cases h
      exact .enable hc
    · rename_i hc
      cases h
      exact .ret hc
  | softirq c =>
    simp only [next] at h
    split at h
    · rename_i hall
      cases h
      exact .softirq hall.1 hall.2.1 hall.2.2.1 hall.2.2.2
    · cases h
  | body =>
    simp only [next] at h
    split at h
    · cases h
    · rename_i c pc hr
      split at h
      · rename_i hc
        cases h
        exact .body hr hc
      · cases h
  | init c =>
    simp only [next] at h
    split at h
    · rename_i hall
      cases h
      exact .init hall.1 hall.2
    · cases h

/-! ## Parts of a state that an event leaves alone -/

omit [DecidableEq ι] in
/-- Scheduling does not touch the handlers, the count or the body. -/
theorem taskletSchedule_frame (s : State ι) (c : ι) :
    (s.taskletSchedule c).isr = s.isr ∧ (s.taskletSchedule c).count = s.count ∧
      (s.taskletSchedule c).running = s.running := by
  unfold State.taskletSchedule
  split
  · exact ⟨rfl, rfl, rfl⟩
  · exact ⟨rfl, rfl, rfl⟩

/-- Moving one handler changes what is summed over all of them by its own. -/
theorem sum_goto [Fintype ι] (f : IsrPc → Nat) {s : State ι} {c : ι} {p : IsrPc}
    (hc : s.isr c = p) (p' : IsrPc) :
    ∑ d, f ((s.goto c p').isr d) + f p = ∑ d, f (s.isr d) + f p' := by
  rw [← hc]
  exact sum_update (fun _ => f) s.isr c p'

/-! ## The levels of the LEDs -/

theorem led1_ne_led2 : gpioLed1 ≠ gpioLed2 := by decide

/-- After the blinking both LEDs are low. -/
theorem blinked_low (g : Gpio) :
    (blinked g).getValue gpioLed1 = false ∧ (blinked g).getValue gpioLed2 = false := by
  have hlow : ∀ g : Gpio, ((g.setValue gpioLed1 false).setValue gpioLed2 false).getValue
      gpioLed1 = false ∧ ((g.setValue gpioLed1 false).setValue gpioLed2 false).getValue
      gpioLed2 = false := fun g =>
    ⟨(Gpio.getValue_setValue_of_ne led1_ne_led2 _ _).trans (Gpio.getValue_setValue_self _ _ _),
      Gpio.getValue_setValue_self _ _ _⟩
  exact hlow _

end Esystem.Softirq
