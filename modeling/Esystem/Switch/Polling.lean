import Esystem.Board.Gpio
import Esystem.Core.CInt

/-!
# The two programs that poll the switch

gpio_wiring/gpio_switch.c and gpio_python/gpio_switch.py blink two LEDs and then
poll a switch for ever: the LEDs are on while the switch reads LOW. The Python
program writes the LEDs on every sample; the C program only when the sample
differs from the last one, `last_val`, which is 0 before the first sample.

- `GpioWiring.shows_poll`: once the LEDs show the sample in `last_val`, they do
  so for ever.
- `agree_iff`: both programs agree exactly when the first sample is not LOW.
-/

namespace Esystem

/-- What a pin reads. -/
inductive Level where
  | low
  | high
  deriving DecidableEq

/-! ## gpio_wiring/gpio_switch.c -/

namespace GpioWiring

def led18 : Nat := 18

def led23 : Nat := 23

def sw25 : Nat := 25

/-- wiringPi's `HIGH`. -/
def high : CInt := 1

/-- wiringPi's `LOW`. -/
def low : CInt := 0

/-- `pinMode(pin, OUTPUT)`. -/
def pinModeOutput (pin : Nat) (g : Gpio) : Gpio :=
  g.selectOutput (4 * (pin / 10)) (3 * (pin % 10))

/-- `pinMode(pin, INPUT)`. -/
def pinModeInput (pin : Nat) (g : Gpio) : Gpio :=
  g.selectInput (4 * (pin / 10)) (3 * (pin % 10))

/-- `digitalWrite(pin, val)`. -/
def digitalWrite (pin : Nat) (val : CInt) (g : Gpio) : Gpio :=
  g.setValue pin (val != low)

/-- `digitalRead(SW25)`, when the pin reads `sample`. -/
def digitalRead : Level → CInt
  | .low => low
  | .high => high

/-- The pins, and the variables of `main`. -/
structure State where
  gpio : Gpio
  val : CInt
  lastVal : CInt

/-- One round of the blink loop. -/
def blink (g : Gpio) : Gpio :=
  let g := digitalWrite led23 high (digitalWrite led18 high g)
  digitalWrite led23 low (digitalWrite led18 low g)

/-- `main` up to the polling loop, with a successful `wiringPiSetupGpio`. -/
def start (g : Gpio) : State where
  gpio := blink^[5] (pinModeInput sw25 (pinModeOutput led23 (pinModeOutput led18 g)))
  val := 5
  lastVal := 0

/-- One round of the polling loop. -/
def poll (sample : Level) (s : State) : State :=
  let val := digitalRead sample
  let gpio :=
    if val ≠ s.lastVal then
      if val = high then digitalWrite led23 low (digitalWrite led18 low s.gpio)
      else digitalWrite led23 high (digitalWrite led18 high s.gpio)
    else s.gpio
  { gpio := gpio, val := val, lastVal := val }

end GpioWiring

/-! ## gpio_python/gpio_switch.py -/

namespace GpioPython

/-- `gpio.setup(pin, gpio.OUT)`. -/
def setupOut (pin : Nat) (g : Gpio) : Gpio :=
  g.selectOutput (4 * (pin / 10)) (3 * (pin % 10))

/-- `gpio.setup(pin, gpio.IN)`. -/
def setupIn (pin : Nat) (g : Gpio) : Gpio :=
  g.selectInput (4 * (pin / 10)) (3 * (pin % 10))

/-- `gpio.output(pin, gpio.HIGH)` and `gpio.output(pin, gpio.LOW)`. -/
def output (pin : Nat) (level : Level) (g : Gpio) : Gpio :=
  g.setValue pin (decide (level = .high))

/-- `gpio.input(25)`, an integer, when the pin reads `sample`. -/
def input : Level → Int
  | .low => 0
  | .high => 1

/-- One round of the blink loop. -/
def blink (g : Gpio) : Gpio :=
  let g := output 23 .high (output 18 .high g)
  output 23 .low (output 18 .low g)

/-- The program up to the polling loop; `range(1, 5)` has four elements. -/
def start (g : Gpio) : Gpio :=
  blink^[4] (setupIn 25 (setupOut 23 (setupOut 18 g)))

/-- One round of the polling loop; `inputIO == False` compares with 0. -/
def poll (sample : Level) (g : Gpio) : Gpio :=
  let inputIO := input sample
  if inputIO = 0 then output 23 .high (output 18 .high g)
  else output 23 .low (output 18 .low g)

end GpioPython

/-! ## What the LEDs show -/

/-- Both LEDs are high if the sample is LOW, and low if it is HIGH. -/
structure Shows (sample : Level) (g : Gpio) : Prop where
  led18 : g.level 18 = decide (sample = .low)
  led23 : g.level 23 = decide (sample = .low)

/-- Writing both LEDs. -/
theorem shows_setValue {sample : Level} {v : Bool} (hv : v = decide (sample = .low)) (g : Gpio) :
    Shows sample ((g.setValue 18 v).setValue 23 v) where
  led18 := by
    show Function.update (Function.update g.level 18 v) 23 v 18 = _
    rw [Function.update_of_ne (by decide), Function.update_self, hv]
  led23 := by
    show Function.update (Function.update g.level 18 v) 23 v 23 = _
    rw [Function.update_self, hv]

/-- The Python program shows every sample. -/
theorem GpioPython.shows_poll (sample : Level) (g : Gpio) :
    Shows sample (GpioPython.poll sample g) := by
  cases sample with
  | low => exact shows_setValue rfl g
  | high => exact shows_setValue rfl g

namespace GpioWiring

/-- The C program shows a sample that differs from the last one. -/
theorem shows_poll_of_ne {sample : Level} {s : State} (h : digitalRead sample ≠ s.lastVal) :
    Shows sample (poll sample s).gpio := by
  show Shows sample (if digitalRead sample ≠ s.lastVal then _ else _)
  rw [if_pos h]
  cases sample with
  | low => exact shows_setValue rfl s.gpio
  | high => exact shows_setValue rfl s.gpio

/-- The C program shows the same sample again if it showed it before. -/
theorem shows_poll {last sample : Level} {s : State} (hlast : s.lastVal = digitalRead last)
    (h : Shows last s.gpio) : Shows sample (poll sample s).gpio := by
  by_cases hsame : digitalRead sample = s.lastVal
  · have hsample : sample = last := by
      rw [hlast] at hsame
      revert hsame
      cases sample <;> cases last <;> decide
    have hgpio : (poll sample s).gpio = s.gpio := if_neg (not_not_intro hsame)
    rw [hgpio, hsample]
    exact h
  · exact shows_poll_of_ne hsame

/-- Both LEDs are low before the polling loop. -/
theorem start_low (g : Gpio) : Shows .high (start g).gpio :=
  shows_setValue rfl _

end GpioWiring

/-- After each sample the two programs have the LEDs at the same levels, high if
and only if the sample is LOW. -/
def Agree : GpioWiring.State → Gpio → List Level → Prop
  | _, _, [] => True
  | s, g, sample :: samples =>
    let s' := GpioWiring.poll sample s
    let g' := GpioPython.poll sample g
    (s'.gpio.level 18 = g'.level 18 ∧ s'.gpio.level 23 = g'.level 23) ∧
      Shows sample s'.gpio ∧ Agree s' g' samples

/-- One sample that both programs show. -/
theorem agree_cons {s : GpioWiring.State} {g : Gpio} {sample : Level} {samples : List Level}
    (h : Shows sample (GpioWiring.poll sample s).gpio) :
    Agree s g (sample :: samples) ↔
      Agree (GpioWiring.poll sample s) (GpioPython.poll sample g) samples := by
  have h' := GpioPython.shows_poll sample g
  constructor
  · intro hagree
    exact hagree.2.2
  · intro hagree
    exact ⟨⟨h.led18.trans h'.led18.symm, h.led23.trans h'.led23.symm⟩, h, hagree⟩

/-- Once the C program shows the sample in `last_val`, the programs agree for
ever. -/
theorem agree_of_shows {s : GpioWiring.State} {last : Level}
    (hlast : s.lastVal = GpioWiring.digitalRead last) (h : Shows last s.gpio) (g : Gpio)
    (samples : List Level) : Agree s g samples := by
  induction samples generalizing s g last with
  | nil => trivial
  | cons sample samples ih =>
    have hshows : Shows sample (GpioWiring.poll sample s).gpio := GpioWiring.shows_poll hlast h
    exact (agree_cons hshows).mpr (ih rfl hshows _)

/-- **The two programs agree exactly when the first sample is not LOW.** -/
theorem agree_iff (g g' : Gpio) (samples : List Level) :
    Agree (GpioWiring.start g) (GpioPython.start g') samples ↔ samples.head? ≠ some .low := by
  cases samples with
  | nil => simp [Agree]
  | cons sample samples =>
    cases sample with
    | low =>
      refine iff_of_false ?_ (not_not_intro rfl)
      -- the sample equals `last_val`, so the LEDs stay low
      intro hagree
      have hhigh := hagree.2.1.led18
      have hlow := (GpioWiring.start_low g).led18
      exact Bool.noConfusion (hlow.symm.trans hhigh)
    | high =>
      refine iff_of_true ?_ (by simp)
      have hshows : Shows .high (GpioWiring.poll .high (GpioWiring.start g)).gpio :=
        GpioWiring.shows_poll_of_ne (by simp [GpioWiring.start, GpioWiring.digitalRead,
          GpioWiring.high])
      exact (agree_cons hshows).mpr (agree_of_shows rfl hshows _ samples)

/-- A switch that reads LOW at once: the C program leaves the LEDs low, the Python
program turns them on. -/
theorem disagree_low :
    (GpioWiring.poll .low (GpioWiring.start ⟨fun _ => 0, fun _ => false⟩)).gpio.level 18 = false ∧
      (GpioPython.poll .low (GpioPython.start ⟨fun _ => 0, fun _ => false⟩)).level 18 = true ∧
      ¬ Agree (GpioWiring.start ⟨fun _ => 0, fun _ => false⟩)
        (GpioPython.start ⟨fun _ => 0, fun _ => false⟩) [.low] := by
  refine ⟨rfl, rfl, fun h => ?_⟩
  have hsame : false = true := h.1.1
  cases hsame

end Esystem
