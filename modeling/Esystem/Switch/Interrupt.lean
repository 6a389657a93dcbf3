import Esystem.Led.Equivalence
import Esystem.Switch.Resources

/-!
# The interrupt handler of switch_drv.c and what the application reads

`isr_func` counts interrupts in an `int` and switches both LEDs by the parity of
the count; `switch_read` hands the number of the interrupt and the count to
switch_test.c, as two `char`s.

- `toggles`: the LEDs show the parity of the number of interrupts, for ever, and
  no other pin changes.
- `reports_iff`: the application gets what was counted, and no byte too many or
  too few, exactly where it asks for two bytes and both numbers fit a `char`.
-/

namespace Esystem.SwitchDrv

open GpioDrv (gpioLed1 gpioLed2)

/-- The static variables that `isr_func` and `switch_read` use, and the board
since `switch_init` returned. -/
structure Device where
  switchIrq : CInt
  irqCount : CInt
  irqInfo : CChar × CChar
  board : Board

/-- After a `switch_init` that returned 0 on registers `g`; `irq` is what
`gpio_to_irq` returned. -/
def Device.start (irq : CInt) (g : Gpio) : Device := ⟨irq, 0, (0, 0), ⟨setUp g, []⟩⟩

def isrFunc (d : Device) : Device :=
  let d := { d with irqCount := d.irqCount + 1 }
  if d.irqCount.srem 2 = 0 then
    { d with
      board := (d.board.writel (bit 18) gpioClrOffset18).writel (bit 23) gpioClrOffset23 }
  else
    { d with
      board := (d.board.writel (bit 18) gpioSetOffset18).writel (bit 23) gpioSetOffset23 }

/-- What a call of `switch_read` returns, and the bytes that it stores from the
start of the user's buffer on. -/
structure ReadOutcome where
  ret : SizeT
  stored : List CChar
  device : Device

/-- `switch_read` with a fault-free `copy_to_user(buf, &irq_info, sizeof(irq_info))`. -/
def switchRead (count : SizeT) (d : Device) : ReadOutcome :=
  let d := { d with irqInfo := (toCChar d.switchIrq, toCChar d.irqCount) }
  { ret := count
    stored := [d.irqInfo.1, d.irqInfo.2]
    device := d }

/-- An interrupt is handled, or the application reads. -/
inductive DeviceEvent where
  | irq
  | read (count : SizeT)
  deriving DecidableEq

def Device.handle (d : Device) : DeviceEvent → Device
  | .irq => isrFunc d
  | .read count => (switchRead count d).device

/-- The device after the events `es`, from the return of `switch_init` on. -/
def Device.after (irq : CInt) (g : Gpio) (es : List DeviceEvent) : Device :=
  es.foldl Device.handle (Device.start irq g)

/-- How many interrupts have been handled. -/
def interrupts (es : List DeviceEvent) : Nat := es.count .irq

/-! ## What is counted and what is lit -/

/-- The LEDs are at the level `v`, and nothing else has changed since `g`. -/
structure Lit (g : Gpio) (v : Bool) (b : Board) : Prop where
  led1 : b.gpio.level gpioLed1 = v
  led2 : b.gpio.level gpioLed2 = v
  only : OnlyLeds g b

/-- Two register writes switch both LEDs and touch no other pin. -/
theorem lit_writel {g : Gpio} {b : Board} (h : OnlyLeds g b) :
    Lit g true ((b.writel (bit 18) gpioSetOffset18).writel (bit 23) gpioSetOffset23) ∧
    Lit g false ((b.writel (bit 18) gpioClrOffset18).writel (bit 23) gpioClrOffset23) := by
  have hon : (b.writel (bit 18) gpioSetOffset18).writel (bit 23) gpioSetOffset23
      = b.perform .on := by
    simp only [writel_eq_gpioSetValue]
    rfl
  have hoff : (b.writel (bit 18) gpioClrOffset18).writel (bit 23) gpioClrOffset23
      = b.perform .off := by
    simp only [writel_eq_gpioSetValue]
    rfl
  have hlevels := fun p => levels_perform [p] b
  rw [hon, hoff]
  exact ⟨⟨congrArg Prod.fst (hlevels .on), congrArg Prod.snd (hlevels .on), h.perform .on⟩,
    congrArg Prod.fst (hlevels .off), congrArg Prod.snd (hlevels .off), h.perform .off⟩

/-- What holds after `n` interrupts. -/
structure Counted (irq : CInt) (g : Gpio) (n : Nat) (d : Device) : Prop where
  switchIrq : d.switchIrq = irq
  irqCount : d.irqCount = BitVec.ofNat 32 n
  lit : Lit (setUp g) (decide (n % 2 = 1)) d.board

/-- A round of blinking ends with both LEDs low. -/
theorem level_blink (g : Gpio) :
    (blink g).level gpioLed1 = false ∧ (blink g).level gpioLed2 = false := by
  have hoff : ∀ g : Gpio, (g.writel (bit 18) gpioClrOffset18).writel (bit 23) gpioClrOffset23
      = (g.setValue gpioLed1 false).setValue gpioLed2 false := by
    intro g
    exact (Gpio.writel_clr (n := 23) (by decide) _).trans
      (congrArg _ (Gpio.writel_clr (n := 18) (by decide) g))
  unfold blink
  rw [hoff]
  constructor
  · have hne : gpioLed1 ≠ gpioLed2 := by decide
    exact (Gpio.getValue_setValue_of_ne hne _ _).trans (Gpio.getValue_setValue_self _ _ _)
  · exact Gpio.getValue_setValue_self _ _ _

/-- `switch_init` leaves both LEDs low. -/
theorem lit_start (g : Gpio) : Lit (setUp g) false ⟨setUp g, []⟩ := by
  obtain ⟨h1, h2⟩ := level_blink (blink^[4] (((g.selectOutput gpioSelOffset18 24).selectOutput
    gpioSelOffset23 9).selectInput gpioSelOffset25 15))
  exact ⟨h1, h2, fun _ _ _ => rfl, fun level hl => by cases hl⟩

variable {irq : CInt} {g : Gpio} {n : Nat} {d : Device}

theorem counted_start : Counted irq g 0 (Device.start irq g) where
  switchIrq := rfl
  irqCount := rfl
  lit := lit_start g

/-- An interrupt is counted and switches the LEDs. -/
theorem counted_isrFunc (h : Counted irq g n d) : Counted irq g (n + 1) (isrFunc d) := by
  have hcount : d.irqCount + 1 = BitVec.ofNat 32 (n + 1) := by
    rw [h.irqCount]
    exact (BitVec.ofNat_add n 1).symm
  obtain ⟨hon, hoff⟩ := lit_writel h.lit.only
  unfold isrFunc
  simp only [hcount, srem_two_eq_zero_iff]
  split
  · rename_i heven
    have hparity : decide ((n + 1) % 2 = 1) = false := by simp [heven]
    exact ⟨h.switchIrq, rfl, hparity ▸ hoff⟩
  · rename_i hodd
    have hparity : decide ((n + 1) % 2 = 1) = true := by
      rw [decide_eq_true_iff]
      omega
    exact ⟨h.switchIrq, rfl, hparity ▸ hon⟩

/-- After any history, what has been counted is the number of its interrupts. -/
theorem counted_after (irq : CInt) (g : Gpio) (es : List DeviceEvent) :
    Counted irq g (interrupts es) (Device.after irq g es) := by
  induction es using List.reverseRecOn with
  | nil => exact counted_start
  | append_singleton es e ih =>
    rw [Device.after, List.foldl_append, interrupts, List.count_append]
    cases e with
    | irq => exact counted_isrFunc ih
    | read count => exact ⟨ih.switchIrq, ih.irqCount, ih.lit⟩

/-- **The LEDs show the parity of the interrupts for ever**, also where the `int`
that counts them has wrapped around, and no other pin has changed since
`switch_init`. -/
theorem toggles (irq : CInt) (g : Gpio) (es : List DeviceEvent) :
    ((Device.after irq g es).board.gpio.level 18 = true ↔ Odd (interrupts es)) ∧
    ((Device.after irq g es).board.gpio.level 23 = true ↔ Odd (interrupts es)) ∧
    ∀ level, .levels level ∈ (Device.after irq g es).board.seen →
      ∀ p, p ≠ 18 → p ≠ 23 → level p = (setUp g).level p := by
  obtain ⟨-, -, h1, h2, honly⟩ := counted_after irq g es
  refine ⟨?_, ?_, honly.ever⟩
  · show (Device.after irq g es).board.gpio.level gpioLed1 = true ↔ _
    rw [h1, decide_eq_true_iff, Nat.odd_iff]
  · show (Device.after irq g es).board.gpio.level gpioLed2 = true ↔ _
    rw [h2, decide_eq_true_iff, Nat.odd_iff]

/-! ## What the application is told -/

/-- switch_test.c reads into `buf_in` and prints `buf_in[0]` and `buf_in[1]` as
`int`s. -/
def printed (signed : Bool) (o : ReadOutcome) (bufIn : List CChar) : CInt × CInt :=
  let bufIn := o.stored ++ bufIn.drop o.stored.length
  (ofCChar signed (bufIn.getD 0 0), ofCChar signed (bufIn.getD 1 0))

/-- A read of `count` bytes tells the application that interrupt `irq` has
happened `n` times: it stores no more than `count` bytes, returns their number,
and where the report has room both numbers are printed. -/
structure Reports (signed : Bool) (count : SizeT) (bufIn : List CChar) (irq n : Nat)
    (d : Device) : Prop where
  bounded : (switchRead count d).stored.length ≤ count.toNat
  returned : (switchRead count d).ret.toNat = (switchRead count d).stored.length
  decoded : (switchRead count d).stored.length ≤ count.toNat →
    (printed signed (switchRead count d) bufIn).1.toInt = irq ∧
    (printed signed (switchRead count d) bufIn).2.toInt = n

/-- What is printed of a number. -/
theorem printed_iff (signed : Bool) {n : Nat} (hn : n < 2 ^ 31) :
    (ofCChar signed (toCChar (BitVec.ofNat 32 n))).toInt = n ↔ n < charBound signed := by
  rw [← ofCChar_toCChar_iff signed hn, ← BitVec.toInt_inj, toInt_ofNat hn]

/-- **The interrupt information reaches the application exactly where it asks for
two bytes and both numbers fit a `char`.** -/
theorem reports_iff (signed : Bool) (count : SizeT) (bufIn : List CChar) (irq : Nat)
    (hirq : irq < 2 ^ 31) (g : Gpio) (es : List DeviceEvent) (hn : interrupts es < 2 ^ 31) :
    Reports signed count bufIn irq (interrupts es) (Device.after (BitVec.ofNat 32 irq) g es) ↔
      count = 2 ∧ irq < charBound signed ∧ interrupts es < charBound signed := by
  obtain ⟨hswitch, hcount, -⟩ := counted_after (BitVec.ofNat 32 irq) g es
  have hprinted : printed signed (switchRead count (Device.after (BitVec.ofNat 32 irq) g es)) bufIn
      = (ofCChar signed (toCChar (BitVec.ofNat 32 irq)),
        ofCChar signed (toCChar (BitVec.ofNat 32 (interrupts es)))) := by
    show (ofCChar signed (toCChar (Device.after _ g es).switchIrq),
      ofCChar signed (toCChar (Device.after _ g es).irqCount)) = _
    rw [hswitch, hcount]
  have htwo : count.toNat = 2 ↔ count = 2 := (BitVec.toNat_inj (x := count) (y := 2))
  rw [← htwo, ← printed_iff signed hirq, ← printed_iff signed hn]
  constructor
  · rintro ⟨hbounded, hreturned, hdecoded⟩
    rw [hprinted] at hdecoded
    exact ⟨hreturned, hdecoded hbounded⟩
  · rintro ⟨hlen, hdecoded⟩
    refine ⟨Nat.le_of_eq hlen.symm, hlen, fun _ => ?_⟩
    rw [hprinted]
    exact hdecoded

/-- Three interrupts, with a read between them. -/
def threePresses : List DeviceEvent := [.irq, .irq, .read 2, .irq]

theorem reports_threePresses :
    Reports true 2 [] 57 3
      (Device.after (BitVec.ofNat 32 57) ⟨fun _ => 0, fun _ => false⟩ threePresses) :=
  (reports_iff true 2 [] 57 (by decide) ⟨fun _ => 0, fun _ => false⟩ threePresses
    (by decide)).mpr (by decide)

/-- switch_test.c asks for 40 bytes: two are stored and 40 returned. A read of no
byte stores two as well, and after 256 interrupts the application prints 0. -/
theorem misreports :
    (∀ signed, ¬ Reports signed 40 (List.replicate 40 0) 57 0
      (Device.after (BitVec.ofNat 32 57) ⟨fun _ => 0, fun _ => false⟩ [])) ∧
    (∀ signed, ¬ Reports signed 0 [] 57 0
      (Device.after (BitVec.ofNat 32 57) ⟨fun _ => 0, fun _ => false⟩ [])) ∧
    ∀ signed, ¬ Reports signed 2 [0, 0] 57 256
      (Device.after (BitVec.ofNat 32 57) ⟨fun _ => 0, fun _ => false⟩
        (List.replicate 256 .irq)) := by
  refine ⟨fun _ h => ?_, fun _ h => ?_, fun signed h => ?_⟩
  · have hreturned : 40 = 2 := h.returned
    contradiction
  · have hbounded : 2 ≤ 0 := h.bounded
    contradiction
  · have hcount := (counted_after (BitVec.ofNat 32 57) ⟨fun _ => 0, fun _ => false⟩
      (List.replicate 256 .irq)).irqCount
    have hdecoded : (ofCChar signed (toCChar (Device.after (BitVec.ofNat 32 57)
        ⟨fun _ => 0, fun _ => false⟩ (List.replicate 256 .irq)).irqCount)).toInt = 256 :=
      (h.decoded (Nat.le_refl 2)).2
    rw [hcount, interrupts, List.count_replicate_self] at hdecoded
    cases signed <;> exact absurd hdecoded (by decide)

end Esystem.SwitchDrv
