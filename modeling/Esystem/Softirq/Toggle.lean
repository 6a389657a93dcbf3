import Mathlib.Algebra.Group.Nat.Even
import Esystem.Softirq.Tasklet

/-!
# Button presses and LED toggles

Each execution of `isr_func` toggles both LEDs, but a press whose
`tasklet_schedule` finds the tasklet still scheduled adds no execution.

- `toggles_counted`: when everything is at rest, the LEDs agree, and are high
  exactly when the number of calls of `tasklet_schedule` that did schedule the
  tasklet is odd.
- `presses_coalesce`: two presses in a row can toggle the LEDs once.
-/

namespace Esystem.Softirq

variable {ι : Type}

/-- A handler that has called `tasklet_schedule` and not returned. -/
def IsrPc.called : IsrPc → Nat
  | .enable => 1
  | .ret => 1
  | _ => 0

/-- The level of the LEDs after `n` toggles. -/
def lit (n : Nat) : Bool := decide (n % 2 = 1)

theorem lit_succ (n : Nat) : lit (n + 1) = !lit n := by
  unfold lit
  rcases Nat.mod_two_eq_zero_or_one n with h | h
  · simp [h, Nat.add_mod]
  · simp [h, Nat.add_mod]

/-- The LEDs and `gpio_value` after `n` executions of `isr_func`, when another
one is at `r`. -/
def Lights (g : Gpio) (gpioValue : Bool) (n : Nat) : Option (ι × BodyPc) → Prop
  | some (_, .setLed1) =>
    gpioValue = lit n ∧ g.getValue gpioLed1 = lit n ∧ g.getValue gpioLed2 = lit n
  | some (_, .setLed2) =>
    gpioValue = lit n ∧ g.getValue gpioLed1 = lit (n + 1) ∧ g.getValue gpioLed2 = lit n
  | some (_, .ret) =>
    g.getValue gpioLed1 = lit (n + 1) ∧ g.getValue gpioLed2 = lit (n + 1)
  | some (_, .getValue) => g.getValue gpioLed1 = lit n ∧ g.getValue gpioLed2 = lit n
  | none => g.getValue gpioLed1 = lit n ∧ g.getValue gpioLed2 = lit n

/-- What holds in every state: each call of `tasklet_schedule` was coalesced,
has led to an execution of `isr_func` or is about to, and the LEDs show the
number of executions. -/
structure Accounted [Fintype ι] (s : State ι) : Prop where
  calls : (if s.initTodo then 0 else 1) + s.handled + ∑ c, (s.isr c).called
    = s.finished + s.coalesced + s.queued.isSome.toNat + s.running.isSome.toNat
  lights : Lights s.gpio s.gpioValue s.finished s.running

theorem accounted_start [Fintype ι] (g : Gpio) : Accounted (start g : State ι) where
  calls := by
    have hsum : ∑ c, ((start g : State ι).isr c).called = 0 :=
      Finset.sum_eq_zero fun _ _ => rfl
    rw [hsum]
    rfl
  lights := blinked_low g

variable [DecidableEq ι] {s s' : State ι}

omit [DecidableEq ι] in
/-- Scheduling changes the queue and the count of coalesced calls only. -/
theorem taskletSchedule_spec (s : State ι) (c : ι) :
    ∃ q n, s.taskletSchedule c = { s with queued := q, coalesced := n } ∧
      n + q.isSome.toNat = s.coalesced + s.queued.isSome.toNat + 1 := by
  cases hq : s.queued with
  | none => exact ⟨some c, s.coalesced, by rw [State.taskletSchedule, hq], rfl⟩
  | some d =>
    refine ⟨s.queued, s.coalesced + 1, by rw [State.taskletSchedule, hq], ?_⟩
    rw [hq]
    omega

variable [Fintype ι]

omit [DecidableEq ι] in
/-- One statement of `isr_func` keeps the account. -/
theorem accounted_isrFunc (h : Accounted s) {c : ι} {pc : BodyPc}
    (hr : s.running = some (c, pc)) : Accounted (isrFunc s c pc) := by
  have hcalls := h.calls
  have hlights := h.lights
  rw [hr] at hcalls hlights
  cases pc with
  | getValue => exact ⟨hcalls, hlights.1, hlights.1, hlights.2⟩
  | setLed1 =>
    obtain ⟨hv, h1, h2⟩ := hlights
    refine ⟨hcalls, hv, ?_, ?_⟩
    · show (s.gpio.setValue gpioLed1 (!s.gpioValue)).getValue gpioLed1 = lit (s.finished + 1)
      rw [Gpio.getValue_setValue_self, hv, lit_succ]
    · show (s.gpio.setValue gpioLed1 (!s.gpioValue)).getValue gpioLed2 = lit s.finished
      rw [Gpio.getValue_setValue_of_ne led1_ne_led2.symm, h2]
  | setLed2 =>
    obtain ⟨hv, h1, h2⟩ := hlights
    refine ⟨hcalls, ?_, ?_⟩
    · show (s.gpio.setValue gpioLed2 (!s.gpioValue)).getValue gpioLed1 = lit (s.finished + 1)
      rw [Gpio.getValue_setValue_of_ne led1_ne_led2, h1]
    · show (s.gpio.setValue gpioLed2 (!s.gpioValue)).getValue gpioLed2 = lit (s.finished + 1)
      rw [Gpio.getValue_setValue_self, hv, lit_succ]
  | ret =>
    refine ⟨?_, hlights⟩
    have hcalls : (if s.initTodo then 0 else 1) + s.handled + ∑ c, (s.isr c).called
      = s.finished + s.coalesced + s.queued.isSome.toNat + 1 := hcalls
    show (if s.initTodo then 0 else 1) + s.handled + ∑ c, (s.isr c).called
      = s.finished + 1 + s.coalesced + s.queued.isSome.toNat + 0
    omega

/-- Every event keeps the account. -/
theorem accounted_step (h : Accounted s) {e : Event ι} (hs : next s e = some s') :
    Accounted s' := by
  have hcalls := h.calls
  cases step_of_next hs with
  | @irq c hc =>
    have hsum := sum_goto IsrPc.called hc .disableCount
    exact ⟨(congrArg _ hsum).trans hcalls, h.lights⟩
  | @disableCount c hc =>
    have hsum := sum_goto IsrPc.called hc .disableWait
    exact ⟨(congrArg _ hsum).trans hcalls, h.lights⟩
  | @disableWait c hc hr =>
    have hsum := sum_goto IsrPc.called hc .schedule
    exact ⟨(congrArg _ hsum).trans hcalls, h.lights⟩
  | @schedule c hc =>
    have hsum := sum_goto IsrPc.called hc .enable
    obtain ⟨q, n, heq, hn⟩ := taskletSchedule_spec (s.goto c .enable) c
    rw [heq]
    have hn : n + q.isSome.toNat = s.coalesced + s.queued.isSome.toNat + 1 := hn
    have hsum : ∑ d, ((s.goto c .enable).isr d).called = ∑ d, (s.isr d).called + 1 := hsum
    refine ⟨?_, h.lights⟩
    show (if s.initTodo then 0 else 1) + s.handled + ∑ d, ((s.goto c .enable).isr d).called
      = s.finished + n + q.isSome.toNat + s.running.isSome.toNat
    omega
  | @enable c hc =>
    have hsum := sum_goto IsrPc.called hc .ret
    exact ⟨(congrArg _ (Nat.add_right_cancel hsum)).trans hcalls, h.lights⟩
  | @ret c hc =>
    have hsum := sum_goto IsrPc.called hc .idle
    have hsum : ∑ d, ((s.goto c .idle).isr d).called + 1 = ∑ d, (s.isr d).called := hsum
    refine ⟨?_, h.lights⟩
    show (if s.initTodo then 0 else 1) + (s.handled + 1) + ∑ d, ((s.goto c .idle).isr d).called
      = s.finished + s.coalesced + s.queued.isSome.toNat + s.running.isSome.toNat
    omega
  | @softirq c hq hc hr h0 =>
    have hlights := h.lights
    rw [hr] at hlights hcalls
    rw [hq] at hcalls
    exact ⟨hcalls, hlights⟩
  | body hr hc => exact accounted_isrFunc h hr
  | @init c hi hc =>
    obtain ⟨q, n, heq, hn⟩ := taskletSchedule_spec s c
    rw [heq]
    rw [hi] at hcalls
    refine ⟨?_, h.lights⟩
    show 1 + s.handled + ∑ d, (s.isr d).called
      = s.finished + n + q.isSome.toNat + s.running.isSome.toNat
    simp only [if_true] at hcalls
    omega

/-- Nothing is scheduled, running or active, and `switch_init` is done. -/
structure AtRest (s : State ι) : Prop where
  init : s.initTodo = false
  queued : s.queued = none
  running : s.running = none
  isr : ∀ c, s.isr c = .idle

/-- **The LEDs count the scheduled toggles**: the two LEDs agree, and they are
high exactly when the number of calls of `tasklet_schedule`, one by
`switch_init` and one by each interrupt, less those that found the tasklet
scheduled, is odd. -/
theorem toggles_counted (g : Gpio) (es : List (Event ι)) (s : State ι)
    (hr : run next (start g) es = some s) (hrest : AtRest s) :
    s.gpio.getValue gpioLed1 = s.gpio.getValue gpioLed2 ∧
    s.coalesced ≤ 1 + s.handled ∧
    (s.gpio.getValue gpioLed1 = true ↔ Odd (1 + s.handled - s.coalesced)) := by
  have h : Accounted s := run_inv (fun h hs => accounted_step h hs) (accounted_start g) hr
  have hcalls := h.calls
  have hlights := h.lights
  have hsum : ∑ c, (s.isr c).called = 0 :=
    Finset.sum_eq_zero fun c _ => by rw [hrest.isr c]; rfl
  rw [hsum, hrest.init, hrest.queued, hrest.running] at hcalls
  rw [hrest.running] at hlights
  have hcalls : 1 + s.handled + 0 = s.finished + s.coalesced + 0 + 0 := hcalls
  refine ⟨hlights.1.trans hlights.2.symm, by omega, ?_⟩
  have hfinished : 1 + s.handled - s.coalesced = s.finished := by omega
  rw [hlights.1, hfinished, lit, decide_eq_true_iff, Nat.odd_iff]

/-- All steps of one interrupt on CPU `c`. -/
def press (c : ι) : List (Event ι) := .irq c :: List.replicate 5 (.isr c)

/-- The tasklet runs on CPU `c`. -/
def tasklet (c : ι) : List (Event ι) := .softirq c :: List.replicate 4 .body

/-- One press, after the tasklet scheduled by `switch_init` has run. -/
def onePress : List (Event Cpu) :=
  .init .cpu0 :: tasklet .cpu0 ++ press .cpu0 ++ tasklet .cpu0

/-- One press toggles the LEDs back. -/
theorem toggles_counted_onePress :
    ∃ s, run next (start ⟨fun _ => 0, fun _ => false⟩) onePress = some s ∧ s.handled = 1 ∧
      (s.gpio.getValue gpioLed1 = true ↔ Odd (1 + s.handled - s.coalesced)) := by
  obtain ⟨s, hs, hp⟩ := exists_run_of_any next (start ⟨fun _ => 0, fun _ => false⟩) onePress
    (fun s => decide (s.initTodo = false ∧ s.queued = none ∧ s.running = none ∧
      (∀ c, s.isr c = .idle) ∧ s.handled = 1)) (by decide)
  obtain ⟨hi, hq, hr, hc, hh⟩ := of_decide_eq_true hp
  obtain ⟨-, -, hlevel⟩ := toggles_counted ⟨fun _ => 0, fun _ => false⟩ onePress s hs
    ⟨hi, hq, hr, hc⟩
  exact ⟨s, hs, hh, hlevel⟩

/-- Two presses before the tasklet starts. -/
def twoPresses : List (Event Cpu) :=
  .init .cpu0 :: tasklet .cpu0 ++ press .cpu0 ++ press .cpu0 ++ tasklet .cpu0

/-- After two presses everything is at rest with the LEDs low, although one more
than the number of presses is odd. -/
theorem presses_coalesce :
    ∃ s, run next (start ⟨fun _ => 0, fun _ => false⟩) twoPresses = some s ∧ AtRest s ∧
      s.handled = 2 ∧ s.gpio.getValue gpioLed1 = false ∧
      ¬ (s.gpio.getValue gpioLed1 = true ↔ Odd (1 + s.handled)) := by
  obtain ⟨s, hs, hp⟩ := exists_run_of_any next (start ⟨fun _ => 0, fun _ => false⟩) twoPresses
    (fun s => decide (s.initTodo = false ∧ s.queued = none ∧ s.running = none ∧
      (∀ c, s.isr c = .idle) ∧ s.handled = 2 ∧ s.gpio.getValue gpioLed1 = false)) (by decide)
  obtain ⟨hi, hq, hr, hc, hh, hlow⟩ := of_decide_eq_true hp
  refine ⟨s, hs, ⟨hi, hq, hr, hc⟩, hh, hlow, fun hiff => ?_⟩
  rw [hlow, hh] at hiff
  exact absurd (hiff.mpr (by decide)) (by decide)

end Esystem.Softirq
