import Esystem.Core.LastWriter
import Esystem.Led.Drivers

/-!
# Concurrent writers of gpio_drv1

`led_write` of gpio_drv1 takes no lock, so the register writes of concurrent
calls interleave. Each LED ends at the level that its own last writer commands
with its last byte, and the last writers of the two LEDs need not be the same
call.

- `ledWrite_gpio`: a call alone carries out `ledWritels`.
- `paired_iff`: the LEDs stay paired exactly when their last writers command the
  same level.
- `unpairs`: two calls whose last writers do not.
-/

namespace Esystem.GpioDrv1

/-- A `writel(value, gpio_base + offset)`. -/
structure Writel where
  value : BitVec 32
  offset : Nat

/-- The levels of the pins as cells that are written by `writel`. -/
def pinCells : Cells Writel Gpio Nat Bool where
  exec w g := g.writel w.value w.offset
  read g p := g.level p
  effect w p :=
    if w.value.getLsbD p then
      if w.offset = gpset0 then some true else if w.offset = gpclr0 then some false else none
    else none
  read_exec w g p := by
    by_cases hs : w.offset = gpset0
    · rw [hs]
      show (g.level p || w.value.getLsbD p) = _
      cases w.value.getLsbD p
      · simp
      · simp
    · by_cases hc : w.offset = gpclr0
      · rw [hc]
        show (g.level p && !w.value.getLsbD p) = _
        cases w.value.getLsbD p
        · simp
        · simp [gpset0, gpclr0]
      · rw [Gpio.level_writel_other hs hc]
        simp [hs, hc]

/-- The register writes that `led_write` makes for the byte `state`. -/
def requestWritels (state : UInt8) : List Writel :=
  if state = charZero then
    [⟨bit 18, gpioClrOffset18⟩, ⟨bit 23, gpioClrOffset23⟩,
      ⟨bit 18, gpioSetOffset18⟩, ⟨bit 23, gpioSetOffset23⟩,
      ⟨bit 18, gpioClrOffset18⟩, ⟨bit 23, gpioClrOffset23⟩]
  else
    [⟨bit 18, gpioSetOffset18⟩, ⟨bit 23, gpioSetOffset23⟩,
      ⟨bit 18, gpioClrOffset18⟩, ⟨bit 23, gpioClrOffset23⟩,
      ⟨bit 18, gpioSetOffset18⟩, ⟨bit 23, gpioSetOffset23⟩]

/-- The register writes of a call of `led_write`. -/
def ledWritels (buf : List UInt8) : List Writel :=
  buf.flatMap requestWritels

theorem request_gpio (state : UInt8) (b : Board) :
    (request state b).gpio
      = (requestWritels state).foldl (fun g w => pinCells.exec w g) b.gpio := by
  unfold request requestWritels
  split
  · rfl
  · rfl

/-- A call of `led_write` that runs alone makes just these writes. -/
theorem ledWrite_gpio {buf : List UInt8} (hlen : buf.length ≤ maxRwCount) (b : Board) :
    ∃ b', ledWrite buf b = some (BitVec.ofNat 64 buf.length, b') ∧
      b'.gpio = (ledWritels buf).foldl (fun g w => pinCells.exec w g) b.gpio := by
  simp only [maxRwCount] at hlen
  refine ⟨buf.foldl (fun b c => request c b) b, ?_, ?_⟩
  · rw [ledWrite, ledWriteLoop, forInt_list (by omega), Option.map_some]
  · clear hlen
    rw [ledWritels, List.foldl_flatMap]
    induction buf generalizing b with
    | nil => rfl
    | cons c buf ih =>
      rw [List.foldl_cons, ih, List.foldl_cons, request_gpio]

/-! ## What a call leaves at the LEDs -/

/-- The level that the last byte of a write commands. -/
def commanded (buf : List UInt8) : Bool :=
  buf.getLast? != some charZero

/-- The two LEDs. -/
def IsLed (p : Nat) : Prop := p = 18 ∨ p = 23

/-- Every byte leaves both LEDs at the level it commands. -/
theorem lastEffect_request {p : Nat} (hp : IsLed p) (state : UInt8) :
    pinCells.lastEffect p (requestWritels state) = some (state != charZero) := by
  by_cases h : state = charZero
  · subst h
    rcases hp with rfl | rfl
    · decide
    · decide
  · have hne : (state != charZero) = true := bne_iff_ne.mpr h
    rw [requestWritels, if_neg h, hne]
    rcases hp with rfl | rfl
    · decide
    · decide

/-- A call leaves both LEDs at the level that its last byte commands. -/
theorem lastEffect_ledWritels {p : Nat} (hp : IsLed p) (buf : List UInt8) :
    pinCells.lastEffect p (ledWritels buf) = if buf = [] then none else some (commanded buf) := by
  induction buf with
  | nil => rfl
  | cons c buf ih =>
    have hcons : ledWritels (c :: buf) = requestWritels c ++ ledWritels buf := rfl
    rw [hcons, Cells.lastEffect_append, ih, lastEffect_request hp, if_neg (List.cons_ne_nil c buf)]
    cases buf with
    | nil => rfl
    | cons d buf => rfl

/-- A call that runs alone leaves both LEDs at that level. -/
theorem level_ledWrite {p : Nat} (hp : IsLed p) {buf : List UInt8} (hne : buf ≠ [])
    (hlen : buf.length ≤ maxRwCount) (b : Board) :
    ∃ b', ledWrite buf b = some (BitVec.ofNat 64 buf.length, b') ∧
      b'.gpio.level p = commanded buf := by
  obtain ⟨b', hb', hgpio⟩ := ledWrite_gpio hlen b
  refine ⟨b', hb', ?_⟩
  have hread := pinCells.read_foldl p (ledWritels buf) b.gpio
  rw [← hgpio, lastEffect_ledWritels hp, if_neg hne] at hread
  exact hread

/-! ## Concurrent calls -/

/-- Concurrent calls of `led_write` at work. -/
abbrev Calls (ι : Type) : Type := Writers ι Writel Gpio Nat

/-- The calls `ι` at their start, each with the bytes it is to write. -/
def calls {ι : Type} (bufs : ι → List UInt8) (g : Gpio) : Calls ι :=
  Writers.start (fun t => ledWritels (bufs t)) g

variable {ι : Type}

/-- The LEDs have the same level, the one commanded by the last byte of some
non-empty write; if there is none, the level they had before. -/
structure Paired (bufs : ι → List UInt8) (g : Gpio) (s : Calls ι) : Prop where
  same : s.mem.level 18 = s.mem.level 23
  fromWrite : ((∀ t, bufs t = []) ∧ s.mem.level 18 = g.level 18) ∨
    ∃ t, bufs t ≠ [] ∧ s.mem.level 18 = commanded (bufs t)

/-- The last writers of the two LEDs command the same level. -/
def LastWritersAgree (bufs : ι → List UInt8) (s : Calls ι) : Prop :=
  ∀ t u, s.writer 18 = some t → s.writer 23 = some u →
    commanded (bufs t) = commanded (bufs u)

variable [DecidableEq ι] {bufs : ι → List UInt8} {g : Gpio} {s : Calls ι}

/-- When all calls have returned, a LED has a last writer, and the level it
commands, unless nothing was written. -/
theorem level_of_done {sched : List ι}
    (hr : run (Writers.next pinCells) (calls bufs g) sched = some s)
    (hdone : ∀ t, s.todo t = []) {p : Nat} (hp : IsLed p) :
    ((∀ t, bufs t = []) ∧ s.writer p = none ∧ s.mem.level p = g.level p) ∨
      ∃ t, bufs t ≠ [] ∧ s.writer p = some t ∧ s.mem.level p = commanded (bufs t) := by
  cases hw : s.writer p with
  | none =>
    obtain ⟨hlevel, hnone⟩ := Writers.read_of_no_writer hr hdone hw
    refine .inl ⟨fun t => ?_, rfl, hlevel⟩
    by_contra hne
    have h := hnone t
    rw [lastEffect_ledWritels hp, if_neg hne] at h
    cases h
  | some t =>
    have h := Writers.read_of_writer hr (hdone t) hw
    rw [lastEffect_ledWritels hp] at h
    by_cases hempty : bufs t = []
    · rw [if_pos hempty] at h
      cases h
    · rw [if_neg hempty] at h
      exact .inr ⟨t, hempty, rfl, (Option.some.inj h).symm⟩

/-- **Concurrent writers leave the LEDs paired exactly when the last writers of
the two LEDs command the same level.** -/
theorem paired_iff (bufs : ι → List UInt8) (g : Gpio) (hsame : g.level 18 = g.level 23)
    (sched : List ι) (s : Calls ι)
    (hr : run (Writers.next pinCells) (calls bufs g) sched = some s)
    (hdone : ∀ t, s.todo t = []) :
    -- each LED is as its last writer commands
    (∀ p, IsLed p → ((∀ t, bufs t = []) ∧ s.mem.level p = g.level p) ∨
      ∃ t, bufs t ≠ [] ∧ s.writer p = some t ∧ s.mem.level p = commanded (bufs t)) ∧
    (Paired bufs g s ↔ LastWritersAgree bufs s) := by
  constructor
  · intro p hp
    rcases level_of_done hr hdone hp with ⟨hempty, -, hlevel⟩ | hlast
    · exact .inl ⟨hempty, hlevel⟩
    · exact .inr hlast
  · rcases level_of_done hr hdone (.inl rfl) with ⟨hempty, hno, h18⟩ | ⟨t, ht, hwt, h18⟩
    · -- nothing was written
      have h23 : s.mem.level 23 = g.level 23 := by
        rcases level_of_done hr hdone (.inr rfl) with ⟨-, -, h23⟩ | ⟨u, hu, -⟩
        · exact h23
        · exact absurd (hempty u) hu
      constructor
      · intro _ t u htw
        rw [hno] at htw
        cases htw
      · intro _
        exact ⟨by rw [h18, h23, hsame], .inl ⟨hempty, h18⟩⟩
    · obtain ⟨u, hwu, h23⟩ : ∃ u, s.writer 23 = some u ∧
          s.mem.level 23 = commanded (bufs u) := by
        rcases level_of_done hr hdone (.inr rfl) with ⟨hempty, -⟩ | ⟨u, -, hwu, h23⟩
        · exact absurd (hempty t) ht
        · exact ⟨u, hwu, h23⟩
      constructor
      · intro h t' u' ht' hu'
        rw [hwt] at ht'
        rw [hwu] at hu'
        cases ht'
        cases hu'
        rw [← h18, ← h23, h.same]
      · intro h
        exact ⟨by rw [h18, h23, h t u hwt hwu], .inr ⟨t, ht, h18⟩⟩

/-- Two callers, one writing `0` and one writing `1`. -/
inductive Caller where
  | zero
  | one
  deriving DecidableEq

def bytes : Caller → List UInt8
  | .zero => [charZero]
  | .one => [49]

/-- One call after the other leaves the LEDs paired. -/
theorem paired_serial : ∃ s,
    run (Writers.next pinCells) (calls bytes ⟨fun _ => 0, fun _ => false⟩)
      (List.replicate 6 .zero ++ List.replicate 6 .one) = some s ∧
    Paired bytes ⟨fun _ => 0, fun _ => false⟩ s := by
  obtain ⟨s, hs, hp⟩ := exists_run_of_any (Writers.next pinCells)
    (calls bytes ⟨fun _ => 0, fun _ => false⟩)
    (List.replicate 6 .zero ++ List.replicate 6 .one)
    (fun s => (s.todo .zero).isEmpty && (s.todo .one).isEmpty &&
      s.writer 18 == some .one && s.writer 23 == some .one) (by decide)
  simp only [Bool.and_eq_true, List.isEmpty_iff, beq_iff_eq] at hp
  obtain ⟨⟨⟨hzero, hone⟩, h18⟩, h23⟩ := hp
  obtain ⟨-, hiff⟩ := paired_iff bytes ⟨fun _ => 0, fun _ => false⟩ rfl _ s hs
    (fun t => by cases t <;> assumption)
  refine ⟨s, hs, hiff.mpr fun t u ht hu => ?_⟩
  rw [h18] at ht
  rw [h23] at hu
  cases ht
  cases hu
  rfl

/-- The first call lowers LED 18 for the last time; the second one runs from
start to end; then the first one lowers LED 23. -/
def nestedRun : List Caller :=
  List.replicate 5 .zero ++ List.replicate 6 .one ++ [.zero]

/-- Both calls have returned, with LED 18 high and LED 23 low. -/
theorem unpairs : ∃ s,
    run (Writers.next pinCells) (calls bytes ⟨fun _ => 0, fun _ => false⟩) nestedRun = some s ∧
    (∀ t, s.todo t = []) ∧ s.mem.level 18 = true ∧ s.mem.level 23 = false ∧
    ¬ Paired bytes ⟨fun _ => 0, fun _ => false⟩ s := by
  obtain ⟨s, hs, hp⟩ := exists_run_of_any (Writers.next pinCells)
    (calls bytes ⟨fun _ => 0, fun _ => false⟩) nestedRun
    (fun s => (s.todo .zero).isEmpty && (s.todo .one).isEmpty &&
      s.mem.level 18 && !s.mem.level 23) (by decide)
  simp only [Bool.and_eq_true, List.isEmpty_iff, Bool.not_eq_true'] at hp
  obtain ⟨⟨⟨hzero, hone⟩, h18⟩, h23⟩ := hp
  refine ⟨s, hs, fun t => by cases t <;> assumption, h18, h23, fun h => ?_⟩
  have hsame := h.same
  rw [h18, h23] at hsame
  cases hsame

end Esystem.GpioDrv1
