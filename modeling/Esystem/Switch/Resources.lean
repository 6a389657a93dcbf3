import Esystem.Core.Machine
import Esystem.Core.CInt
import Esystem.Board.Gpio

/-!
# What switch_drv.c takes from the kernel and gives back

`switch_init` takes three things in turn, a registration for major 102, a
mapping of the GPIO registers and a handler for the interrupt of the switch, and
`switch_exit` releases all three. A run loads and unloads the module any number
of times, while another driver may hold the major or an interrupt line.

`switch_init` fails after its first call with a positive number, which the
kernel takes for success, and after the later calls without releasing anything.
`switch_exit` unregisters the major, whoever holds it.

- `balanced_iff`: so the driver holds all three things while it is loaded,
  nothing while it is not, and releases only what it took, exactly in the runs
  in which no load has a call that fails.
-/

namespace Esystem.SwitchDrv

/-- `#define MAJOR_NUMBER 102`. -/
def majorNumber : CInt := 102

/-- `ENOMEM`. -/
def enomem : CInt := 12

/-- `#define GPIO_SW 25`. -/
def gpioSw : Nat := 25

/-- Who holds a major number or an interrupt line: another driver, or this one
since its load number `n`. -/
inductive Owner where
  | other
  | load (n : Nat)
  deriving DecidableEq

/-- What the kernel keeps: who is registered for major 102, which loads have
their mapping of the GPIO registers, whose handler is on each interrupt line,
and the registers. -/
structure Kernel where
  major : Option Owner
  mapped : Nat → Bool
  irq : CInt → Option Owner
  gpio : Gpio

/-- The static variables of the module: `gpio_base`, as the load that mapped it,
and `switch_irq`. -/
structure Vars where
  gpioBase : Option Nat
  switchIrq : CInt

/-- Which of the calls of one load would succeed as far as other drivers are not
concerned. -/
structure Calls where
  registerChrdev : Bool
  ioremap : Bool
  requestIrq : Bool

/-! ## The calls, by load number `n`; `none` where they return an error -/

/-- `register_chrdev(MAJOR_NUMBER, DEVICE_NAME, &gpio_fops)`. -/
def registerChrdev (c : Calls) (n : Nat) (k : Kernel) : Option Kernel :=
  if c.registerChrdev ∧ k.major = none then some { k with major := some (.load n) } else none

/-- `ioremap(GPIO_BASE, 0x100)`. -/
def ioremap (c : Calls) (n : Nat) (k : Kernel) : Option Kernel :=
  if c.ioremap then some { k with mapped := Function.update k.mapped n true } else none

/-- `request_irq(irq, isr_func, IRQF_TRIGGER_RISING, "switch", "GOOD")`; the line
is not shared. -/
def requestIrq (c : Calls) (n : Nat) (irq : CInt) (k : Kernel) : Option Kernel :=
  if c.requestIrq ∧ k.irq irq = none then
    some { k with irq := Function.update k.irq irq (some (.load n)) }
  else none

/-- `unregister_chrdev(MAJOR_NUMBER, DEVICE_NAME)` looks for the major only. -/
def unregisterChrdev (k : Kernel) : Kernel × List Owner :=
  ({ k with major := none }, k.major.toList)

/-- `free_irq(irq, "GOOD")` removes the handler that was requested with the same
pointer. -/
def freeIrq (n : Nat) (irq : CInt) (k : Kernel) : Kernel × List Owner :=
  if k.irq irq = some (.load n) then
    ({ k with irq := Function.update k.irq irq none }, [.load n])
  else (k, [])

/-- `iounmap(gpio_base)`. -/
def iounmap (m : Nat) (k : Kernel) : Kernel × List Owner :=
  ({ k with mapped := Function.update k.mapped m false }, [.load m])

/-! ## The module -/

/-- One round of the loop that blinks both LEDs. -/
def blink (g : Gpio) : Gpio :=
  let g := (g.writel (bit 18) gpioSetOffset18).writel (bit 23) gpioSetOffset23
  (g.writel (bit 18) gpioClrOffset18).writel (bit 23) gpioClrOffset23

/-- The register accesses of `switch_init`. -/
def setUp (g : Gpio) : Gpio :=
  blink^[5] (((g.selectOutput gpioSelOffset18 24).selectOutput gpioSelOffset23 9).selectInput
    gpioSelOffset25 15)

/-- `switch_init` in load number `n`, with what it returns. The kernel says which
interrupt a pin has (`gpio_to_irq`). -/
def switchInit (gpioToIrq : Nat → CInt) (c : Calls) (n : Nat) (k : Kernel) :
    CInt × Vars × Kernel :=
  let v : Vars := ⟨none, 0⟩
  match registerChrdev c n k with
  | none => (majorNumber, v, k)
  | some k =>
    match ioremap c n k with
    | none => (-enomem, v, k)
    | some k =>
      let k := { k with gpio := setUp k.gpio }
      let v : Vars := ⟨some n, gpioToIrq gpioSw⟩
      match requestIrq c n v.switchIrq k with
      | none => (-1, v, k)
      | some k => (0, v, k)

/-- `switch_exit` of load number `n`, with the owners of what it releases. -/
def switchExit (n : Nat) (v : Vars) (k : Kernel) : Kernel × List Owner :=
  let (k, major) := unregisterChrdev k
  let (k, irq) := freeIrq n v.switchIrq k
  match v.gpioBase with
  | none => (k, major ++ irq)
  | some m =>
    let (k, mapping) := iounmap m k
    (k, major ++ irq ++ mapping)

/-- The kernel; the load number and the variables of the module while it is
loaded; the number of loads so far; and for everything that a `switch_exit` has
released, of which load that was, and whose it had been. -/
structure State where
  kernel : Kernel
  module : Option (Nat × Vars)
  loads : Nat
  released : List (Nat × Owner)

/-- The module is loaded or unloaded, or another driver takes or gives back the
major or an interrupt line. -/
inductive Event where
  | load (c : Calls)
  | unload
  | otherTakesMajor
  | otherGivesMajor
  | otherTakesIrq (irq : CInt)
  | otherGivesIrq (irq : CInt)

/-- Nothing is held and the module has never been loaded. -/
def boot (gpio : Gpio) : State where
  kernel := ⟨none, fun _ => false, fun _ => none, gpio⟩
  module := none
  loads := 0
  released := []

/-- One event. The module is loaded iff `switch_init` returns a value `≥ 0`, and
`switch_exit` is called for a loaded module only. -/
def next (gpioToIrq : Nat → CInt) (s : State) : Event → Option State
  | .load c =>
    match s.module with
    | some _ => none
    | none =>
      let r := switchInit gpioToIrq c s.loads s.kernel
      some { s with
        kernel := r.2.2
        module := if 0 ≤ r.1.toInt then some (s.loads, r.2.1) else none
        loads := s.loads + 1 }
  | .unload =>
    match s.module with
    | none => none
    | some (n, v) =>
      let r := switchExit n v s.kernel
      some { s with
        kernel := r.1
        module := none
        released := s.released ++ r.2.map fun o => (n, o) }
  | .otherTakesMajor =>
    if s.kernel.major = none then
      some { s with kernel := { s.kernel with major := some .other } }
    else none
  | .otherGivesMajor =>
    if s.kernel.major = some .other then
      some { s with kernel := { s.kernel with major := none } }
    else none
  | .otherTakesIrq irq =>
    if s.kernel.irq irq = none then
      some { s with kernel := { s.kernel with
        irq := Function.update s.kernel.irq irq (some .other) } }
    else none
  | .otherGivesIrq irq =>
    if s.kernel.irq irq = some .other then
      some { s with kernel := { s.kernel with irq := Function.update s.kernel.irq irq none } }
    else none

/-! ## What balance means -/

/-- No load of the driver holds anything. -/
structure HoldsNothing (k : Kernel) : Prop where
  major : ∀ n, k.major ≠ some (.load n)
  mapped : ∀ n, k.mapped n = false
  irq : ∀ i n, k.irq i ≠ some (.load n)

/-- Load `n` of the driver holds the major, its mapping and the interrupt. -/
structure HoldsAll (gpioToIrq : Nat → CInt) (n : Nat) (k : Kernel) : Prop where
  major : k.major = some (.load n)
  mapped : k.mapped n = true
  irq : k.irq (gpioToIrq gpioSw) = some (.load n)

/-- The driver holds nothing when it is not loaded and all three things when it
is, and each `switch_exit` has released only what its own load took. -/
structure Balanced (gpioToIrq : Nat → CInt) (s : State) : Prop where
  unloaded : s.module = none → HoldsNothing s.kernel
  loaded : ∀ n v, s.module = some (n, v) → HoldsAll gpioToIrq n s.kernel
  own : ∀ r ∈ s.released, r.2 = .load r.1

/-- If the event is a load, none of its calls fails: the major and the interrupt
are free, and nothing else is in the way. -/
def CallsSucceed (gpioToIrq : Nat → CInt) (s : State) (e : Event) : Prop :=
  ∀ c, e = .load c →
    (c.registerChrdev = true ∧ s.kernel.major = none) ∧ c.ioremap = true ∧
      (c.requestIrq = true ∧ s.kernel.irq (gpioToIrq gpioSw) = none)

/-- Whether the calls of an event succeed can be evaluated. -/
instance (gpioToIrq : Nat → CInt) (s : State) : DecidablePred (CallsSucceed gpioToIrq s)
  | .load c =>
    decidable_of_iff ((c.registerChrdev = true ∧ s.kernel.major = none) ∧ c.ioremap = true ∧
        (c.requestIrq = true ∧ s.kernel.irq (gpioToIrq gpioSw) = none))
      ⟨fun h _ hc => by cases hc; exact h, fun h => h c rfl⟩
  | .unload => .isTrue fun _ h => by cases h
  | .otherTakesMajor => .isTrue fun _ h => by cases h
  | .otherGivesMajor => .isTrue fun _ h => by cases h
  | .otherTakesIrq _ => .isTrue fun _ h => by cases h
  | .otherGivesIrq _ => .isTrue fun _ h => by cases h

variable {gpioToIrq : Nat → CInt}

/-! ## What `switch_init` and `switch_exit` do -/

/-- What a load holds after a `switch_init` in which nothing fails, and what its
variables say. -/
structure Loaded (gpioToIrq : Nat → CInt) (n : Nat) (v : Vars) (k : Kernel) : Prop
    extends HoldsAll gpioToIrq n k where
  vars : v = ⟨some n, gpioToIrq gpioSw⟩
  mappedOnly : ∀ m, m ≠ n → k.mapped m = false
  irqOnly : ∀ i m, i ≠ gpioToIrq gpioSw → k.irq i ≠ some (.load m)

/-- Where nothing fails, `switch_init` takes all three things and returns 0. -/
theorem switchInit_succeeds {c : Calls} {n : Nat} {k : Kernel} (hk : HoldsNothing k)
    (hreg : c.registerChrdev = true ∧ k.major = none) (hmap : c.ioremap = true)
    (hirq : c.requestIrq = true ∧ k.irq (gpioToIrq gpioSw) = none) :
    ∃ v k', switchInit gpioToIrq c n k = (0, v, k') ∧ Loaded gpioToIrq n v k' := by
  refine ⟨⟨some n, gpioToIrq gpioSw⟩,
    { major := some (.load n)
      mapped := Function.update k.mapped n true
      irq := Function.update k.irq (gpioToIrq gpioSw) (some (.load n))
      gpio := setUp k.gpio }, ?_, ?_⟩
  · simp [switchInit, registerChrdev, ioremap, requestIrq, hreg, hmap, hirq]
  · exact
      { major := rfl
        mapped := Function.update_self _ _ _
        irq := Function.update_self _ _ _
        vars := rfl
        mappedOnly := fun m hm => by
          show Function.update k.mapped n true m = false
          rw [Function.update_of_ne hm, hk.mapped m]
        irqOnly := fun i m hi => by
          show Function.update k.irq _ _ i ≠ _
          rw [Function.update_of_ne hi]
          exact hk.irq i m }

/-- Where a call fails, `switch_init` either holds nothing and returns
`MAJOR_NUMBER`, or returns a negative value with the major registered. -/
theorem switchInit_fails {c : Calls} {n : Nat} {k : Kernel}
    (h : ¬ ((c.registerChrdev = true ∧ k.major = none) ∧ c.ioremap = true ∧
      (c.requestIrq = true ∧ k.irq (gpioToIrq gpioSw) = none))) :
    switchInit gpioToIrq c n k = (majorNumber, ⟨none, 0⟩, k) ∨
      ∃ r v k', switchInit gpioToIrq c n k = (r, v, k') ∧ r.toInt < 0 ∧
        k'.major = some (.load n) := by
  by_cases hreg : c.registerChrdev = true ∧ k.major = none
  · right
    by_cases hmap : c.ioremap = true
    · have hirq : ¬ (c.requestIrq = true ∧ k.irq (gpioToIrq gpioSw) = none) :=
        fun hirq => h ⟨hreg, hmap, hirq⟩
      refine ⟨-1, ⟨some n, gpioToIrq gpioSw⟩,
        { k with
          major := some (.load n)
          mapped := Function.update k.mapped n true
          gpio := setUp k.gpio }, ?_, by decide, rfl⟩
      simp [switchInit, registerChrdev, ioremap, requestIrq, hreg, hmap, hirq]
    · refine ⟨-enomem, ⟨none, 0⟩, { k with major := some (.load n) }, ?_, by decide, rfl⟩
      simp [switchInit, registerChrdev, ioremap, hreg, hmap]
  · left
    simp [switchInit, registerChrdev, hreg]

/-- `switch_exit` of a load that holds everything releases just that. -/
theorem switchExit_loaded {n : Nat} {v : Vars} {k : Kernel} (h : Loaded gpioToIrq n v k) :
    HoldsNothing (switchExit n v k).1 ∧ ∀ o ∈ (switchExit n v k).2, o = .load n := by
  obtain ⟨⟨hmajor, hmapped, hirq⟩, rfl, hmappedOnly, hirqOnly⟩ := h
  have hexit : switchExit n ⟨some n, gpioToIrq gpioSw⟩ k =
      ({ k with
        major := none
        mapped := Function.update k.mapped n false
        irq := Function.update k.irq (gpioToIrq gpioSw) none },
        [.load n, .load n, .load n]) := by
    simp [switchExit, unregisterChrdev, freeIrq, iounmap, hmajor, hirq]
  rw [hexit]
  constructor
  · constructor
    · intro m hm
      cases hm
    · intro m
      show Function.update k.mapped n false m = false
      by_cases hm : m = n
      · rw [hm, Function.update_self]
      · rw [Function.update_of_ne hm, hmappedOnly m hm]
    · intro i m
      show Function.update k.irq _ none i ≠ _
      by_cases hi : i = gpioToIrq gpioSw
      · rw [hi, Function.update_self]
        exact (Option.some_ne_none _).symm
      · rw [Function.update_of_ne hi]
        exact hirqOnly i m hi
  · intro o ho
    simpa using ho

/-! ## Runs -/

/-- The states of the runs in which no call of a load has failed. -/
structure Exact (gpioToIrq : Nat → CInt) (s : State) : Prop where
  unloaded : s.module = none → HoldsNothing s.kernel
  loaded : ∀ n v, s.module = some (n, v) → Loaded gpioToIrq n v s.kernel
  own : ∀ r ∈ s.released, r.2 = .load r.1

theorem Exact.balanced {s : State} (h : Exact gpioToIrq s) : Balanced gpioToIrq s where
  unloaded := h.unloaded
  loaded n v hm := (h.loaded n v hm).toHoldsAll
  own := h.own

/-- What another driver does touches nothing of this one. -/
theorem exact_other {s : State} {k : Kernel} (h : Exact gpioToIrq s)
    (hmajor : ∀ n, k.major = some (.load n) ↔ s.kernel.major = some (.load n))
    (hmapped : k.mapped = s.kernel.mapped)
    (hirq : ∀ i n, k.irq i = some (.load n) ↔ s.kernel.irq i = some (.load n)) :
    Exact gpioToIrq { s with kernel := k } where
  unloaded hm :=
    { major := fun n hn => (h.unloaded hm).major n ((hmajor n).mp hn)
      mapped := fun n => (congrFun hmapped n).trans ((h.unloaded hm).mapped n)
      irq := fun i n hn => (h.unloaded hm).irq i n ((hirq i n).mp hn) }
  loaded n v hm :=
    { major := (hmajor n).mpr (h.loaded n v hm).major
      mapped := (congrFun hmapped n).trans (h.loaded n v hm).mapped
      irq := (hirq _ n).mpr (h.loaded n v hm).irq
      vars := (h.loaded n v hm).vars
      mappedOnly := fun m hmn => (congrFun hmapped m).trans ((h.loaded n v hm).mappedOnly m hmn)
      irqOnly := fun i m hi hn => (h.loaded n v hm).irqOnly i m hi ((hirq i m).mp hn) }
  own := h.own

/-- An interrupt line goes from free to another driver, or back. -/
theorem irq_update_other {f : CInt → Option Owner} {i : CInt} {o o' : Option Owner}
    (hi : f i = o) (ho : ∀ n, o ≠ some (.load n)) (ho' : ∀ n, o' ≠ some (.load n)) (j : CInt)
    (n : Nat) : Function.update f i o' j = some (.load n) ↔ f j = some (.load n) := by
  by_cases hj : j = i
  · subst hj
    rw [Function.update_self, hi]
    exact iff_of_false (ho' n) (ho n)
  · rw [Function.update_of_ne hj]

/-- Events that are no failing loads keep the state exact. -/
theorem exact_step {s s' : State} {e : Event} (h : Exact gpioToIrq s)
    (he : CallsSucceed gpioToIrq s e) (hs : next gpioToIrq s e = some s') :
    Exact gpioToIrq s' := by
  have hfree : ∀ n, (none : Option Owner) ≠ some (.load n) := fun n hn => by cases hn
  have hother : ∀ n, some Owner.other ≠ some (.load n) := fun n hn => by cases hn
  cases e with
  | load c =>
    cases hm : s.module with
    | some l =>
      rw [next, hm] at hs
      cases hs
    | none =>
      obtain ⟨hreg, hmap, hirq⟩ := he c rfl
      obtain ⟨v, k', hinit, hloaded⟩ :=
        switchInit_succeeds (n := s.loads) (h.unloaded hm) hreg hmap hirq
      simp only [next, hm, hinit, Option.some.injEq] at hs
      subst hs
      constructor
      · intro hnone
        cases hnone
      · intro n w hw
        cases hw
        exact hloaded
      · exact h.own
  | unload =>
    cases hm : s.module with
    | none =>
      rw [next, hm] at hs
      cases hs
    | some l =>
      obtain ⟨n, v⟩ := l
      simp only [next, hm, Option.some.injEq] at hs
      subst hs
      obtain ⟨hnothing, howners⟩ := switchExit_loaded (h.loaded n v hm)
      constructor
      · exact fun _ => hnothing
      · intro m w hw
        cases hw
      · intro r hr
        rcases List.mem_append.mp hr with hr | hr
        · exact h.own r hr
        · obtain ⟨o, ho, rfl⟩ := List.mem_map.mp hr
          exact howners o ho
  | otherTakesMajor =>
    simp only [next] at hs
    split at hs
    · rename_i hnone
      cases hs
      refine exact_other h (fun n => ?_) rfl fun _ _ => Iff.rfl
      rw [hnone]
      exact iff_of_false (hother n) (hfree n)
    · cases hs
  | otherGivesMajor =>
    simp only [next] at hs
    split at hs
    · rename_i hsome
      cases hs
      refine exact_other h (fun n => ?_) rfl fun _ _ => Iff.rfl
      rw [hsome]
      exact iff_of_false (hfree n) (hother n)
    · cases hs
  | otherTakesIrq irq =>
    simp only [next] at hs
    split at hs
    · rename_i hnone
      cases hs
      exact exact_other h (fun _ => Iff.rfl) rfl (irq_update_other hnone hfree hother)
    · cases hs
  | otherGivesIrq irq =>
    simp only [next] at hs
    split at hs
    · rename_i hsome
      cases hs
      exact exact_other h (fun _ => Iff.rfl) rfl (irq_update_other hsome hother hfree)
    · cases hs

/-- After a load with a failing call, the driver is loaded and holds nothing, or
is not loaded and holds the major. -/
theorem not_balanced_of_failure {s s' : State} {e : Event} (h : Exact gpioToIrq s)
    (he : ¬ CallsSucceed gpioToIrq s e) (hs : next gpioToIrq s e = some s') :
    ¬ Balanced gpioToIrq s' := by
  simp only [CallsSucceed, not_forall] at he
  obtain ⟨c, rfl, hfail⟩ := he
  cases hm : s.module with
  | some l =>
    rw [next, hm] at hs
    cases hs
  | none =>
    rcases switchInit_fails (n := s.loads) hfail with hinit | ⟨r, v, k', hinit, hr, hmajor⟩
    · simp only [next, hm, hinit, Option.some.injEq] at hs
      subst hs
      intro hb
      exact (h.unloaded hm).major s.loads (hb.loaded s.loads ⟨none, 0⟩ rfl).major
    · simp only [next, hm, hinit, if_neg (Int.not_le.mpr hr), Option.some.injEq] at hs
      subst hs
      intro hb
      exact (hb.unloaded rfl).major s.loads hmajor

theorem exact_boot (gpio : Gpio) : Exact gpioToIrq (boot gpio) where
  unloaded _ :=
    { major := fun n hn => by cases hn
      mapped := fun _ => rfl
      irq := fun i n hn => by cases hn }
  loaded n v hm := by cases hm
  own r hr := absurd hr List.not_mem_nil

/-- **The driver balances what it takes and releases exactly in the runs in
which no call of `switch_init` fails.** -/
theorem balanced_iff (gpioToIrq : Nat → CInt) (gpio : Gpio) (es : List Event) (s : State)
    (hr : run (next gpioToIrq) (boot gpio) es = some s) :
    Along (next gpioToIrq) (Balanced gpioToIrq) (boot gpio) es ↔
      StepsMeet (next gpioToIrq) (CallsSucceed gpioToIrq) (boot gpio) es :=
  along_iff_of_inv Exact.balanced exact_step not_balanced_of_failure (exact_boot gpio) hr

/-- Two loads in which nothing fails, with another driver on the major between
them. -/
def goodRun : List Event :=
  [.load ⟨true, true, true⟩, .unload, .otherTakesMajor, .otherGivesMajor,
    .load ⟨true, true, true⟩, .unload]

theorem balanced_goodRun :
    Along (next fun _ => 57) (Balanced fun _ => 57) (boot ⟨fun _ => 0, fun _ => false⟩)
      goodRun := by
  obtain ⟨s, hs, -⟩ := exists_run_of_any (next fun _ => 57)
    (boot ⟨fun _ => 0, fun _ => false⟩) goodRun (fun _ => true) (by decide)
  exact (balanced_iff (fun _ => 57) ⟨fun _ => 0, fun _ => false⟩ goodRun s hs).mpr (by decide)

/-- Another driver has the major when the module is loaded; then the module is
unloaded. -/
def busyRun : List Event :=
  [.otherTakesMajor, .load ⟨true, true, true⟩, .unload]

/-- The module counts as loaded although it has nothing, and on its unloading
the other driver loses the major. -/
theorem unregisters_other :
    (∃ s, run (next fun _ => 57) (boot ⟨fun _ => 0, fun _ => false⟩) (busyRun.take 2) = some s ∧
      s.module = some (0, ⟨none, 0⟩) ∧ s.kernel.major = some .other) ∧
    ∃ s, run (next fun _ => 57) (boot ⟨fun _ => 0, fun _ => false⟩) busyRun = some s ∧
      s.kernel.major = none ∧ s.released = [(0, .other)] ∧ ¬ Balanced (fun _ => 57) s := by
  constructor
  · exact ⟨_, rfl, rfl, rfl⟩
  · refine ⟨_, rfl, rfl, rfl, fun h => ?_⟩
    have howner := h.own (0, .other) (by decide)
    cases howner

end Esystem.SwitchDrv
