import Esystem.Board.Gpio
import Esystem.Core.BitField

/-!
# The functions of the pins

The `GPFSEL` registers seen as a map from pins to functions (`Gpio.field`). The
drivers write a register as a whole, with an offset and a shift that they have
worked out by hand; what they do to the map is to update it at one pin
(`field_selectOutput`, `field_selectInput`).
-/

namespace Esystem.Gpio

/-- The function of pin `p`, three bits of register `GPFSEL(p / 10)`: 0 makes the
pin an input and 1 an output. -/
def field (g : Gpio) (p : Nat) : BitVec 3 := (g.gpfsel (p / 10)).extractLsb' (3 * (p % 10)) 3

/-- The two bits of register `GPFSEL(r)` that belong to no pin. -/
def unused (g : Gpio) (r : Nat) : BitVec 2 := (g.gpfsel r).extractLsb' 30 2

/-- Pin `p` gets the function `v`. -/
def select (p : Nat) (v : BitVec 3) (g : Gpio) : Gpio :=
  { g with gpfsel :=
      Function.update g.gpfsel (p / 10) (setField (g.gpfsel (p / 10)) (3 * (p % 10)) v) }

variable {g g' : Gpio} {p : Nat}

theorem field_congr (h : g.gpfsel = g'.gpfsel) : g.field = g'.field := by
  unfold field
  rw [h]

theorem unused_congr (h : g.gpfsel = g'.gpfsel) : g.unused = g'.unused := by
  unfold unused
  rw [h]

/-- The map is updated at `p` and nowhere else. -/
theorem field_select (p : Nat) (v : BitVec 3) (g : Gpio) :
    (g.select p v).field = Function.update g.field p v := by
  funext q
  simp only [field, select]
  by_cases hreg : q / 10 = p / 10
  · rw [hreg, Function.update_self]
    by_cases hq : q = p
    · subst hq
      rw [Function.update_self, extractLsb'_setField_self _ _ (by omega)]
    · rw [Function.update_of_ne hq, extractLsb'_setField_of_apart _ _ (by omega) (by omega), ← hreg]
      rfl
  · have hq : q ≠ p := by
      rintro rfl
      exact hreg rfl
    rw [Function.update_of_ne hreg, Function.update_of_ne hq]
    rfl

theorem unused_select (p : Nat) (v : BitVec 3) (g : Gpio) : (g.select p v).unused = g.unused := by
  funext r
  simp only [unused, select]
  by_cases hreg : r = p / 10
  · subst hreg
    rw [Function.update_self, extractLsb'_setField_of_apart _ _ (by decide) (by omega)]
  · rw [Function.update_of_ne hreg]

/-- A write to a `GPFSEL` register. -/
theorem writel_gpfsel (hp : p < 60) (value : BitVec 32) (g : Gpio) :
    g.writel value (4 * (p / 10))
      = { g with gpfsel := Function.update g.gpfsel (p / 10) value } := by
  have hset : 4 * (p / 10) ≠ gpset0 := by
    unfold gpset0
    omega
  have hclr : 4 * (p / 10) ≠ gpclr0 := by
    unfold gpclr0
    omega
  rw [writel, if_neg hset, if_neg hclr, if_pos (by omega), Nat.mul_div_cancel_left _ (by decide)]

theorem readl_gpfsel (p : Nat) (g : Gpio) : g.readl (4 * (p / 10)) = g.gpfsel (p / 10) := by
  rw [readl, Nat.mul_div_cancel_left _ (by decide)]

/-- Function 1 is selected with the mask 7 at the place of the pin. -/
theorem selectOutput_eq (hp : p < 60) (g : Gpio) :
    g.selectOutput (4 * (p / 10)) (3 * (p % 10)) = g.select p 1 := by
  rw [selectOutput, writel_gpfsel hp, readl_gpfsel]
  rfl

/-- Function 0 likewise. -/
theorem selectInput_eq (hp : p < 60) (g : Gpio) :
    g.selectInput (4 * (p / 10)) (3 * (p % 10)) = g.select p 0 := by
  rw [selectInput, writel_gpfsel hp, readl_gpfsel]
  rfl

end Esystem.Gpio
