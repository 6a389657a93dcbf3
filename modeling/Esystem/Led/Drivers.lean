import Esystem.Core.CLoop
import Esystem.Board.Timeline

/-!
# The two LED drivers

gpio_drv drives its two LEDs through gpiolib, gpio_drv1 through the registers.
Both blink the LEDs for each byte written to the device, and both have the same
loop around that.
-/

namespace Esystem

/-- The loop of `led_write`: `for (i = 0; i < len; i++)` over the bytes of the
user's buffer, each handed to `request`; returns `len`. -/
def ledWriteLoop (request : UInt8 → Board → Board) (buf : List UInt8) (b : Board) :
    Option (SizeT × Board) :=
  let len : SizeT := BitVec.ofNat 64 buf.length
  (forInt len (fun i b => request (buf.getD i.toNat 0) b) (buf.length + 1) 0 b).map
    fun b => (len, b)

/-- The character `'0'`. -/
def charZero : UInt8 := UInt8.ofNat '0'.toNat

/-! ## gpio_drv -/

namespace GpioDrv

/-- `#define GPIO_LED1 18`. -/
def gpioLed1 : Nat := 18

/-- `#define GPIO_LED2 23`. -/
def gpioLed2 : Nat := 23

/-- What `led_write` does about the byte `state`. -/
def request (state : UInt8) (b : Board) : Board :=
  if state = charZero then
    let b := (b.gpioSetValue gpioLed1 false).gpioSetValue gpioLed2 false
    let b := b.mdelay 1000
    let b := (b.gpioSetValue gpioLed1 true).gpioSetValue gpioLed2 true
    let b := b.mdelay 1000
    (b.gpioSetValue gpioLed1 false).gpioSetValue gpioLed2 false
  else
    let b := (b.gpioSetValue gpioLed1 true).gpioSetValue gpioLed2 true
    let b := b.mdelay 1000
    let b := (b.gpioSetValue gpioLed1 false).gpioSetValue gpioLed2 false
    let b := b.mdelay 1000
    (b.gpioSetValue gpioLed1 true).gpioSetValue gpioLed2 true

def ledWrite : List UInt8 → Board → Option (SizeT × Board) := ledWriteLoop request

/-- One of the five rounds at the end of `led_init`. -/
def blink (b : Board) : Board :=
  let b := ((b.gpioSetValue gpioLed1 true).gpioSetValue gpioLed2 true).mdelay 1000
  ((b.gpioSetValue gpioLed1 false).gpioSetValue gpioLed2 false).mdelay 1000

def ledInit (b : Board) : Board :=
  let b := b.access (Gpio.directionOutput gpioLed1 false)
  let b := b.access (Gpio.directionOutput gpioLed2 false)
  blink^[5] b

end GpioDrv

/-! ## gpio_drv1 -/

namespace GpioDrv1

/-- What `led_write` does about the byte `state`. -/
def request (state : UInt8) (b : Board) : Board :=
  if state = charZero then
    let b := (b.writel (bit 18) gpioClrOffset18).writel (bit 23) gpioClrOffset23
    let b := b.mdelay 1000
    let b := (b.writel (bit 18) gpioSetOffset18).writel (bit 23) gpioSetOffset23
    let b := b.mdelay 1000
    (b.writel (bit 18) gpioClrOffset18).writel (bit 23) gpioClrOffset23
  else
    let b := (b.writel (bit 18) gpioSetOffset18).writel (bit 23) gpioSetOffset23
    let b := b.mdelay 1000
    let b := (b.writel (bit 18) gpioClrOffset18).writel (bit 23) gpioClrOffset23
    let b := b.mdelay 1000
    (b.writel (bit 18) gpioSetOffset18).writel (bit 23) gpioSetOffset23

def ledWrite : List UInt8 → Board → Option (SizeT × Board) := ledWriteLoop request

/-- One of the five rounds at the end of `led_init`. -/
def blink (b : Board) : Board :=
  let b := ((b.writel (bit 18) gpioSetOffset18).writel (bit 23) gpioSetOffset23).mdelay 1000
  ((b.writel (bit 18) gpioClrOffset18).writel (bit 23) gpioClrOffset23).mdelay 1000

/-- `led_init` with a successful `ioremap`. -/
def ledInit (b : Board) : Board :=
  let b := b.access (Gpio.selectOutput gpioSelOffset18 24)
  let b := b.access (Gpio.selectOutput gpioSelOffset23 9)
  blink^[5] b

end GpioDrv1

/-- Several calls of `led_write`, one after another: what they return, and the
board in the end. -/
def ledWrites (ledWrite : List UInt8 → Board → Option (SizeT × Board)) :
    List (List UInt8) → Board → Option (List SizeT × Board)
  | [], b => some ([], b)
  | buf :: bufs, b => do
    let (ret, b) ← ledWrite buf b
    let (rets, b) ← ledWrites ledWrite bufs b
    return (ret :: rets, b)

end Esystem
