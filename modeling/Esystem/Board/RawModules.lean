import Esystem.Board.PinFunction
import Esystem.Kthread.MessageQueue
import Esystem.Kthread.Unload
import Esystem.Led.Drivers
import Esystem.Switch.Resources

/-!
# The modules that select the functions of their pins themselves

Nine modules write to the `GPFSEL` registers in their init functions, which make
pins 18 and 23 outputs; switch_drv.c makes pin 25 an input as well. Pins 23 and
25 share a register, with each other and with pins of other drivers.

- `field_init`: what one init function selects.
- `selects_only_own`: what any sequence of them does to all of the pins.
-/

namespace Esystem

/-- The modules. -/
inductive RawModule where
  | gpioDrv1
  | switchDrv
  | mutex
  | semaphore
  | spinlock
  | deadlock
  | deadlockSol
  | messageq
  | sharedm
  deriving DecidableEq

/-- The GPIO block `g` after the init function of a lock module; `reg` is what
will be on the stacks of the threads. -/
def KModule.initGpio {L X B E K : Type} (m : KModule L X B E K) (reg : Worker → KReg B)
    (g : Gpio) : Gpio :=
  (moduleInit.foldl m.initStep (load (LoopSys.init reg m.locks ⟨0, g, m.prepared⟩))).sys.shared.gpio

namespace RawModule

/-- What a successful init function does to the GPIO block. -/
def init : RawModule → Gpio → Gpio
  | .gpioDrv1, g => (GpioDrv1.ledInit ⟨g, []⟩).gpio
  | .switchDrv, g => SwitchDrv.setUp g
  | .mutex, g => (Mutex.kmodule fun _ => 5).initGpio (fun _ => ⟨0, ()⟩) g
  | .semaphore, g => (Semaphore.kmodule fun _ => 5).initGpio (fun _ => ⟨0, ()⟩) g
  | .spinlock, g => (Spinlock.kmodule fun _ => 5).initGpio (fun _ => ⟨0, ()⟩) g
  | .deadlock, g => (Deadlock.kmodule fun _ => 5).initGpio (fun _ => ⟨0, ()⟩) g
  | .deadlockSol, g => (DeadlockSol.kmodule fun _ => 5).initGpio (fun _ => ⟨0, ()⟩) g
  | .messageq, g => (MessageQueue.kmodule fun _ => 5).initGpio MessageQueue.zeroStack g
  | .sharedm, g => (SharedMemory.kmodule 0 fun _ => 5).initGpio (fun _ => ⟨0, ()⟩) g

/-- The functions that the pins are to have after the init function of `m`, where
they have the functions `f` before. -/
def selects (m : RawModule) (f : Nat → BitVec 3) (p : Nat) : BitVec 3 :=
  if p = 25 ∧ m = .switchDrv then 0
  else if p = 18 ∨ p = 23 then 1
  else f p

/-! ## One init function -/

/-- The two writes that all of them begin with. -/
def selectLeds (g : Gpio) : Gpio :=
  (g.selectOutput gpioSelOffset18 24).selectOutput gpioSelOffset23 9

theorem selectLeds_eq (g : Gpio) : selectLeds g = (g.select 18 1).select 23 1 := by
  have h18 : g.selectOutput gpioSelOffset18 24 = g.select 18 1 :=
    Gpio.selectOutput_eq (p := 18) (by decide) g
  have h23 : (g.select 18 1).selectOutput gpioSelOffset23 9 = (g.select 18 1).select 23 1 :=
    Gpio.selectOutput_eq (p := 23) (by decide) _
  rw [selectLeds, h18, h23]

/-- What is kept by a round is kept by all of them. -/
theorem iterate_keeps {α β : Type} {f : α → α} {p : α → β} (h : ∀ x, p (f x) = p x) (n : Nat)
    (x : α) : p (f^[n] x) = p x := by
  induction n generalizing x with
  | zero => rfl
  | succ n ih =>
    show p (f^[n] (f x)) = p x
    rw [ih, h]

/-- Blinking selects nothing. -/
theorem gpfsel_setUp (g : Gpio) :
    (SwitchDrv.setUp g).gpfsel = ((selectLeds g).selectInput gpioSelOffset25 15).gpfsel :=
  iterate_keeps (p := Gpio.gpfsel) (fun _ => rfl) 5 _

theorem gpfsel_ledInit (b : Board) :
    (GpioDrv1.ledInit b).gpio.gpfsel = (selectLeds b.gpio).gpfsel :=
  iterate_keeps (p := fun b : Board => b.gpio.gpfsel) (fun _ => rfl) 5 _

/-- Eight modules select the LEDs, and switch_drv.c the switch as well. -/
theorem gpfsel_init (m : RawModule) (g : Gpio) :
    (m.init g).gpfsel
      = if m = .switchDrv then (((g.select 18 1).select 23 1).select 25 0).gpfsel
        else ((g.select 18 1).select 23 1).gpfsel := by
  rw [← selectLeds_eq]
  cases m with
  | switchDrv =>
    rw [if_pos rfl]
    refine (gpfsel_setUp g).trans ?_
    exact congrArg Gpio.gpfsel (Gpio.selectInput_eq (p := 25) (by decide) (selectLeds g))
  | gpioDrv1 => exact gpfsel_ledInit ⟨g, []⟩
  | mutex => rfl
  | semaphore => rfl
  | spinlock => rfl
  | deadlock => rfl
  | deadlockSol => rfl
  | messageq => rfl
  | sharedm => rfl

/-- An init function selects what its module wants, and nothing else. -/
theorem field_init (m : RawModule) (g : Gpio) : (m.init g).field = m.selects g.field := by
  have hleds : ((g.select 18 1).select 23 1).field
      = Function.update (Function.update g.field 18 1) 23 1 := by
    rw [Gpio.field_select, Gpio.field_select]
  have hsel := gpfsel_init m g
  funext p
  unfold selects
  split at hsel
  · rename_i hm
    rw [Gpio.field_congr hsel, Gpio.field_select, hleds]
    simp only [Function.update_apply, hm, and_true]
    grind
  · rename_i hm
    rw [Gpio.field_congr hsel, hleds]
    simp only [Function.update_apply, hm, and_false]
    grind

/-- The bits that belong to no pin are as before. -/
theorem unused_init (m : RawModule) (g : Gpio) : (m.init g).unused = g.unused := by
  have hsel := gpfsel_init m g
  split at hsel
  · rw [Gpio.unused_congr hsel, Gpio.unused_select, Gpio.unused_select, Gpio.unused_select]
  · rw [Gpio.unused_congr hsel, Gpio.unused_select, Gpio.unused_select]

end RawModule

/-! ## Sequences of init functions -/

/-- The modules are initialised one after another. -/
def initAll : List RawModule → Gpio → Gpio
  | [], g => g
  | m :: ms, g => initAll ms (m.init g)

/-- What the modules of a sequence want together. -/
def selectsAll (ms : List RawModule) (f : Nat → BitVec 3) (p : Nat) : BitVec 3 :=
  if p = 25 ∧ .switchDrv ∈ ms then 0
  else if (p = 18 ∨ p = 23) ∧ ms ≠ [] then 1
  else f p

/-- No module of a sequence undoes what another wants. -/
theorem selectsAll_cons (m : RawModule) (ms : List RawModule) (f : Nat → BitVec 3) :
    selectsAll ms (m.selects f) = selectsAll (m :: ms) f := by
  funext p
  unfold selectsAll RawModule.selects
  by_cases h25 : p = 25
  · subst h25
    grind
  · grind

theorem field_initAll (ms : List RawModule) (g : Gpio) :
    (initAll ms g).field = selectsAll ms g.field := by
  induction ms generalizing g with
  | nil =>
    funext p
    simp [initAll, selectsAll]
  | cons m ms ih => rw [initAll, ih, m.field_init, selectsAll_cons]

theorem unused_initAll (ms : List RawModule) (g : Gpio) : (initAll ms g).unused = g.unused := by
  induction ms generalizing g with
  | nil => rfl
  | cons m ms ih => rw [initAll, ih, m.unused_init]

/-- **The modules configure their own pins and no others**, whatever the registers
hold and in whatever order the modules are initialised. -/
theorem selects_only_own (g : Gpio) (ms : List RawModule) (hms : ms ≠ []) :
    (initAll ms g).field 18 = 1 ∧
    (initAll ms g).field 23 = 1 ∧
    (initAll ms g).field 25 = (if .switchDrv ∈ ms then 0 else g.field 25) ∧
    (∀ p, p ≠ 18 → p ≠ 23 → p ≠ 25 → (initAll ms g).field p = g.field p) ∧
    ∀ r, (initAll ms g).unused r = g.unused r := by
  rw [field_initAll, unused_initAll]
  refine ⟨?_, ?_, ?_, fun p h18 h23 h25 => ?_, fun _ => rfl⟩
  · simp [selectsAll, hms]
  · simp [selectsAll, hms]
  · simp [selectsAll]
  · simp [selectsAll, h18, h23, h25]

/-- Registers full of ones. -/
theorem selects_only_own_ones :
    (initAll [.mutex, .switchDrv, .gpioDrv1] ⟨fun _ => BitVec.allOnes 32, fun _ => false⟩).field 25
        = 0 ∧
      (initAll [.mutex, .switchDrv, .gpioDrv1]
        ⟨fun _ => BitVec.allOnes 32, fun _ => false⟩).field 24 = 7 := by
  obtain ⟨-, -, h25, hothers, -⟩ := selects_only_own
    ⟨fun _ => BitVec.allOnes 32, fun _ => false⟩ [.mutex, .switchDrv, .gpioDrv1] (by decide)
  exact ⟨h25, hothers 24 (by decide) (by decide) (by decide)⟩

end Esystem
