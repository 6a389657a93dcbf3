import Esystem.Core.SideBySide

/-!
# The five device drivers as modules

What char_drv.c, gpio_drv.c, gpio_drv1/gpio_drv.c, switch_drv.c and
switch_softirq.c take from the kernel, use while they start, and give back. All
of them register their device first, so applications can call before anything
else is there; char_drv.c frees its buffer before it unregisters the device; the
two LED drivers have the same major number. Their Makefiles also give them the same
module name, gpio_drv, so the kernel refuses to load one beside the other for that
reason already; names of modules are not part of the model.

- `calls_safe_iff`: none of this matters at the end of a module's life. The
  operations and the interrupt handler of switch_drv.c use only what is there,
  unless an application comes before the init function has taken what it needs,
  or finds the device that a failed load left behind.
- `drivers_coexist_iff`: which of the five drivers can be loaded together, as far as
  what they take is concerned.
-/

namespace Esystem.Device

open ModuleLife

/-- What the drivers take: a major number, memory of their own (an allocation or
a mapping), a GPIO pin, the interrupt of a pin. -/
inductive Thing where
  | major (n : Nat)
  | memory
  | pin (n : Nat)
  | irq (n : Nat)
  deriving DecidableEq

/-- Every mapping and every allocation is new; all else is somebody's at a time. -/
def exclusive : Thing → Bool
  | .memory => false
  | _ => true

/-- `ENOMEM`. -/
def enomem : Int := 12

/-! ## char_drv.c -/

/-- `drv_init` takes no notice of what its calls return. -/
def CharDrv.drvInit : List (InitStmt Thing) :=
  [.take (.major 240) .goOn, .take .memory .goOn]

/-- `drv_exit`: `kfree`, then `unregister_chrdev`. -/
def CharDrv.drvExit : List Thing := [.memory, .major 240]

def charDrv : Driver Thing where
  init := CharDrv.drvInit
  exit := CharDrv.drvExit
  device := .major 240
  line := none
  handlerUses := []
  exclusive := exclusive

/-! ## The LED drivers -/

/-- One round of the blink loop with gpiolib. -/
def blinkPins : List (InitStmt Thing) :=
  [.uses (.pin 18), .uses (.pin 23), .uses (.pin 18), .uses (.pin 23)]

/-- `led_init` of gpio_drv.c takes no notice of what its calls return. -/
def GpioDrv.ledInit : List (InitStmt Thing) :=
  [.take (.major 101) .goOn, .take (.pin 18) .goOn, .uses (.pin 18), .take (.pin 23) .goOn,
    .uses (.pin 23)] ++ (List.replicate 5 blinkPins).flatten

/-- `led_exit` of gpio_drv.c. -/
def GpioDrv.ledExit : List Thing := [.major 101, .pin 18, .pin 23]

def gpioDrv : Driver Thing where
  init := GpioDrv.ledInit
  exit := GpioDrv.ledExit
  device := .major 101
  line := none
  handlerUses := []
  exclusive := exclusive

/-- A pin is selected with one read and one write of a register. -/
def select : List (InitStmt Thing) := [.uses .memory, .uses .memory]

/-- One round of the blink loop with registers. -/
def blinkRegisters : List (InitStmt Thing) := List.replicate 4 (.uses .memory)

/-- `led_init` of gpio_drv1/gpio_drv.c, which returns `-ENOMEM` without its
mapping. -/
def GpioDrv1.ledInit : List (InitStmt Thing) :=
  [.take (.major 101) .goOn, .take .memory (.ret (-enomem))] ++ select ++ select ++
    (List.replicate 5 blinkRegisters).flatten

/-- `led_exit` of gpio_drv1/gpio_drv.c. -/
def GpioDrv1.ledExit : List Thing := [.major 101, .memory]

def gpioDrv1 : Driver Thing where
  init := GpioDrv1.ledInit
  exit := GpioDrv1.ledExit
  device := .major 101
  line := none
  handlerUses := []
  exclusive := exclusive

/-! ## The switch drivers -/

/-- `switch_init` of switch_drv.c. Without the major it returns `MAJOR_NUMBER`,
which the kernel takes for success. -/
def SwitchDrv.switchInit : List (InitStmt Thing) :=
  [.take (.major 102) (.ret 102), .take .memory (.ret (-enomem))] ++ select ++ select ++ select ++
    (List.replicate 5 blinkRegisters).flatten ++ [.take (.irq 25) (.ret (-1))]

/-- `switch_exit` of switch_drv.c. -/
def SwitchDrv.switchExit : List Thing := [.major 102, .irq 25, .memory]

/-- `isr_func` writes to registers; it is behind `irq 25`. -/
def switchDrv : Driver Thing where
  init := SwitchDrv.switchInit
  exit := SwitchDrv.switchExit
  device := .major 102
  line := some (.irq 25)
  handlerUses := [.memory]
  exclusive := exclusive

/-- `switch_init` of switch_softirq.c. -/
def Softirq.switchInit : List (InitStmt Thing) :=
  [.take (.major 104) (.ret 104), .take (.pin 18) .goOn, .uses (.pin 18), .take (.pin 23) .goOn,
    .uses (.pin 23)] ++ (List.replicate 5 blinkPins).flatten ++
    [.take (.pin 25) .goOn, .take (.irq 25) (.ret (-1))]

/-- `switch_exit` of switch_softirq.c. -/
def Softirq.switchExit : List Thing := [.major 104, .irq 25, .pin 25, .pin 18, .pin 23]

/-- `isr_tasklet` does nothing but schedule the tasklet. -/
def switchSoftirq : Driver Thing where
  init := Softirq.switchInit
  exit := Softirq.switchExit
  device := .major 104
  line := some (.irq 25)
  handlerUses := []
  exclusive := exclusive

/-! ## Calls into one driver -/

theorem sound_charDrv : charDrv.Sound := by decide

theorem sound_gpioDrv : gpioDrv.Sound := by decide

theorem sound_gpioDrv1 : gpioDrv1.Sound := by decide

theorem sound_switchDrv : switchDrv.Sound := by decide

/-- **Calls and interrupts use what is there, exactly where they come in time**,
in every run of loads (with any calls failing), removals, applications and
interrupts. The drivers that ignore failures never leave a device behind, and
those that heed them use nothing too early by themselves. -/
theorem calls_safe_iff {ι : Type} [Fintype ι] [DecidableEq ι] (M : Driver Thing)
    (hM : M = charDrv ∨ M = gpioDrv ∨ M = gpioDrv1 ∨ M = switchDrv)
    (es : List (ModuleLife.Event ι Thing)) (s : ModuleLife.State ι Thing)
    (hr : run (next M) State.boot es = some s) :
    (Along (next M) FaultFree State.boot es ↔ StepsMeet (next M) (InTime M) State.boot es) ∧
    (M = charDrv ∨ M = gpioDrv → ∀ n, s.failed n = false) ∧
    (M = gpioDrv1 ∨ M = switchDrv → ∀ ok, InTime M s (.init ok)) := by
  refine ⟨?_, ?_, ?_⟩
  · rcases hM with rfl | rfl | rfl | rfl
    · exact fault_free_iff sound_charDrv hr
    · exact fault_free_iff sound_gpioDrv hr
    · exact fault_free_iff sound_gpioDrv1 hr
    · exact fault_free_iff sound_switchDrv hr
  · rintro (rfl | rfl)
    · exact never_fails (by decide) hr
    · exact never_fails (by decide) hr
  · rintro (rfl | rfl)
    · exact init_in_time (by decide) hr
    · exact init_in_time (by decide) hr

/-- An application reads while char_drv.c is live; then the module is removed. -/
def removedBehindReader : List (ModuleLife.Event Bool Thing) :=
  [.load, .init true, .init true, .init true, .opens true, .uses true (some .memory), .closes true,
    .remove, .exit, .exit, .exit]

theorem calls_safe_removedBehindReader :
    Along (next charDrv) FaultFree State.boot removedBehindReader := by
  obtain ⟨s, hs, -⟩ := exists_run_of_any (next charDrv) State.boot removedBehindReader
    (fun _ => true) (by decide)
  exact (calls_safe_iff charDrv (.inl rfl) removedBehindReader s hs).1.mpr (by decide)

/-! ## The drivers together -/

/-- The five drivers. -/
inductive Name where
  | charDrv
  | gpioDrv
  | gpioDrv1
  | switchDrv
  | switchSoftirq
  deriving DecidableEq

instance : Fintype Name where
  elems := {.charDrv, .gpioDrv, .gpioDrv1, .switchDrv, .switchSoftirq}
  complete m := by cases m <;> decide

def driver : Name → Driver Thing
  | .charDrv => charDrv
  | .gpioDrv => gpioDrv
  | .gpioDrv1 => gpioDrv1
  | .switchDrv => switchDrv
  | .switchSoftirq => switchSoftirq

open SideBySide in
theorem fleet : Fleet driver where
  exclusive m m' := by cases m <;> cases m' <;> rfl
  nodup m := by cases m <;> decide
  exit m r := by
    have hperm : (driver m).exit.Perm (taken (driver m).init) := by cases m <;> decide
    exact hperm.mem_iff

/-- The pairs of drivers that take the same thing: the major number 101, the pins
of the LEDs, the interrupt of the switch. -/
def Rivals (m m' : Name) : Prop :=
  (m, m') ∈ [(Name.gpioDrv, Name.gpioDrv1), (.gpioDrv, .switchSoftirq),
    (.switchDrv, .switchSoftirq)]

instance (m m' : Name) : Decidable (Rivals m m') := inferInstanceAs (Decidable (_ ∈ _))

theorem conflict_iff : ∀ m m' : Name, m ≠ m' →
    (SideBySide.Conflict driver m m' ↔ Rivals m m' ∨ Rivals m' m) := by
  decide

/-- The kernel denies nothing but what another of the drivers has. -/
def Undenied : SideBySide.Event Name Thing → Prop
  | .load _ denied => ∀ r, denied r = false
  | .unload _ => True

/-- No rival of a driver that is loaded is loaded already. -/
def NoRivals (s : SideBySide.State Name Thing) : SideBySide.Event Name Thing → Prop
  | .load m _ => ∀ m', s.loaded m' = true → ¬ (Rivals m m' ∨ Rivals m' m)
  | .unload _ => True

instance (s : SideBySide.State Name Thing) : DecidablePred (NoRivals s)
  | .load m _ =>
    inferInstanceAs (Decidable (∀ m', s.loaded m' = true → ¬ (Rivals m m' ∨ Rivals m' m)))
  | .unload _ => .isTrue trivial

/-- None of the drivers returns an error before it has something. -/
theorem not_turnedAway {g : Thing → Bool} (hg : g .memory = true) (m : Name) :
    ¬ SideBySide.TurnedAway g (driver m).init := by
  cases m with
  | charDrv => exact fun h => h.2.2
  | gpioDrv => exact fun h => h.2.2.2
  | gpioDrv1 =>
    rintro ⟨-, hno, -⟩
    rw [hg] at hno
    cases hno
  | switchDrv => exact fun h => absurd h.2 (by decide)
  | switchSoftirq => exact fun h => absurd h.2 (by decide)

open SideBySide in
/-- Where nothing is denied, only rivals are incompatible. -/
theorem compatible_iff_noRivals {s s' : SideBySide.State Name Thing}
    {e : SideBySide.Event Name Thing} (he : Undenied e)
    (hs : SideBySide.next driver s e = some s') :
    Compatible driver s e ↔ NoRivals s e := by
  cases e with
  | unload m => exact Iff.rfl
  | load m denied =>
    have hmem : granted driver s m denied .memory = true := by
      have hx : (driver m).exclusive .memory = false := by cases m <;> rfl
      rw [granted, he, hx]
      rfl
    have hm : ¬ s.loaded m = true := by
      intro hm
      rw [SideBySide.next, if_pos hm] at hs
      cases hs
    rw [compatible_iff he (not_turnedAway hmem m)]
    refine forall₂_congr fun m' hm' => not_congr (conflict_iff m m' ?_)
    rintro rfl
    exact hm hm'

/-- **Which drivers can be loaded together**: along every run of loads and
unloads, each loaded driver has all that it takes and nobody has anything else
exactly if each load finds everything free or is turned away at once; where
nothing is denied for other reasons, exactly if no two rivals are ever loaded at
the same time. -/
theorem drivers_coexist_iff (es : List (SideBySide.Event Name Thing))
    (s : SideBySide.State Name Thing)
    (hr : run (SideBySide.next driver) SideBySide.boot es = some s) :
    (Along (SideBySide.next driver) (SideBySide.InOrder driver) SideBySide.boot es ↔
      StepsMeet (SideBySide.next driver) (SideBySide.Compatible driver) SideBySide.boot es) ∧
    ((∀ e ∈ es, Undenied e) →
      (Along (SideBySide.next driver) (SideBySide.InOrder driver) SideBySide.boot es ↔
        StepsMeet (SideBySide.next driver) NoRivals SideBySide.boot es)) := by
  have horder := SideBySide.in_order_iff fleet hr
  refine ⟨horder, fun hall => horder.trans ?_⟩
  exact stepsMeet_congr (fun e he s s' hs => compatible_iff_noRivals (hall e he) hs) hr

/-- The LED drivers one after the other, beside the other two. -/
def oneLedDriverAtATime : List (SideBySide.Event Name Thing) :=
  [.load .charDrv fun _ => false, .load .gpioDrv fun _ => false, .load .switchDrv fun _ => false,
    .unload .gpioDrv, .load .gpioDrv1 fun _ => false, .unload .charDrv]

theorem drivers_coexist_oneLedDriverAtATime :
    Along (SideBySide.next driver) (SideBySide.InOrder driver) SideBySide.boot
      oneLedDriverAtATime := by
  obtain ⟨s, hs, -⟩ := exists_run_of_any (SideBySide.next driver) SideBySide.boot
    oneLedDriverAtATime (fun _ => true) (by decide)
  refine ((drivers_coexist_iff oneLedDriverAtATime s hs).2 ?_).mpr (by decide)
  intro e he
  simp only [oneLedDriverAtATime, List.mem_cons, List.not_mem_nil, or_false] at he
  rcases he with rfl | rfl | rfl | rfl | rfl | rfl <;> first | exact fun _ => rfl | trivial

end Esystem.Device
