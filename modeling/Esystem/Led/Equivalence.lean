import Esystem.Led.Drivers

/-!
# The LED drivers do the same

Both drivers turn each byte into the same three phases (`phases`): off, on, off
for `'0'`, and on, off, on for any other byte. What can be seen of the LEDs is
then the rendering of the phases of all bytes, in order.

- `request_eq`, `request_eq_phases`: one byte.
- `drivers_equivalent`: any sequence of calls.
-/

namespace Esystem

open GpioDrv (gpioLed1 gpioLed2)

/-! ## Phases -/

/-- Both LEDs off, both on, or a second in between. -/
inductive Phase where
  | off
  | on
  | wait
  deriving DecidableEq

/-- The phases of one byte. -/
def phases (c : UInt8) : List Phase :=
  if c = charZero then [.off, .wait, .on, .wait, .off] else [.on, .wait, .off, .wait, .on]

/-- Carrying out a phase: LED 18 first, then LED 23. -/
def Board.perform (b : Board) : Phase → Board
  | .off => (b.gpioSetValue gpioLed1 false).gpioSetValue gpioLed2 false
  | .on => (b.gpioSetValue gpioLed1 true).gpioSetValue gpioLed2 true
  | .wait => b.mdelay 1000

/-- gpio_drv carries out the phases of each byte. -/
theorem request_eq_phases (c : UInt8) (b : Board) :
    GpioDrv.request c b = (phases c).foldl Board.perform b := by
  unfold GpioDrv.request phases
  split
  · rfl
  · rfl

/-- Register writes of one bit are gpiolib calls. -/
theorem writel_eq_gpioSetValue (b : Board) :
    b.writel (bit 18) gpioSetOffset18 = b.gpioSetValue gpioLed1 true ∧
    b.writel (bit 23) gpioSetOffset23 = b.gpioSetValue gpioLed2 true ∧
    b.writel (bit 18) gpioClrOffset18 = b.gpioSetValue gpioLed1 false ∧
    b.writel (bit 23) gpioClrOffset23 = b.gpioSetValue gpioLed2 false := by
  have hset : ∀ {n : Nat}, n < 32 → b.writel (bit n) gpset0 = b.gpioSetValue n true :=
    fun hn => congrArg b.access (funext fun g => Gpio.writel_set hn g)
  have hclr : ∀ {n : Nat}, n < 32 → b.writel (bit n) gpclr0 = b.gpioSetValue n false :=
    fun hn => congrArg b.access (funext fun g => Gpio.writel_clr hn g)
  exact ⟨hset (by decide), hset (by decide), hclr (by decide), hclr (by decide)⟩

/-- gpio_drv1 does with each byte what gpio_drv does. -/
theorem request_eq : GpioDrv1.request = GpioDrv.request := by
  funext c b
  unfold GpioDrv1.request GpioDrv.request
  simp only [writel_eq_gpioSetValue]

/-- Both drivers carry out the phases of all bytes, and return their number. -/
theorem ledWrite_eq {buf : List UInt8} (hlen : buf.length ≤ maxRwCount) (b : Board) :
    GpioDrv.ledWrite buf b
      = some (BitVec.ofNat 64 buf.length, (buf.flatMap phases).foldl Board.perform b) := by
  simp only [maxRwCount] at hlen
  rw [GpioDrv.ledWrite, ledWriteLoop, forInt_list (by omega), Option.map_some,
    List.foldl_flatMap]
  congr 2
  exact List.foldl_ext _ _ _ fun b c _ => request_eq_phases c b

theorem ledWrite_eq' {buf : List UInt8} (hlen : buf.length ≤ maxRwCount) (b : Board) :
    GpioDrv1.ledWrite buf b
      = some (BitVec.ofNat 64 buf.length, (buf.flatMap phases).foldl Board.perform b) := by
  rw [GpioDrv1.ledWrite, request_eq]
  exact ledWrite_eq hlen b

/-- Calls that each carry out phases carry out all of them, in order. -/
theorem ledWrites_eq {ledWrite : List UInt8 → Board → Option (SizeT × Board)}
    (hwrite : ∀ {buf : List UInt8}, buf.length ≤ maxRwCount → ∀ b, ledWrite buf b
      = some (BitVec.ofNat 64 buf.length, (buf.flatMap phases).foldl Board.perform b))
    {bufs : List (List UInt8)} (hlen : ∀ buf ∈ bufs, buf.length ≤ maxRwCount) (b : Board) :
    ledWrites ledWrite bufs b = some (bufs.map fun buf => BitVec.ofNat 64 buf.length,
      (bufs.flatten.flatMap phases).foldl Board.perform b) := by
  induction bufs generalizing b with
  | nil => rfl
  | cons buf bufs ih =>
    have hhead := hwrite (hlen buf List.mem_cons_self) b
    have htail := fun b => ih (fun x hx => hlen x (List.mem_cons_of_mem buf hx)) b
    simp only [ledWrites, hhead, htail, Option.bind_eq_bind, Option.bind_some, List.map_cons,
      List.flatten_cons, List.flatMap_append, List.foldl_append]
    rfl

/-! ## What is seen of the LEDs -/

/-- What an observer of the two LEDs sees: their levels, or a delay. -/
inductive LedSeen where
  | levels (led1 led2 : Bool)
  | mdelay (ms : Nat)
  deriving DecidableEq

/-- The two LEDs among all pins. -/
def Seen.leds : Seen → LedSeen
  | levels level => .levels (level gpioLed1) (level gpioLed2)
  | mdelay ms => .mdelay ms

/-- What carrying out phases looks like, from the given levels on. -/
def render : Bool → Bool → List Phase → List LedSeen
  | _, _, [] => []
  | _, led2, .off :: k => .levels false led2 :: .levels false false :: render false false k
  | _, led2, .on :: k => .levels true led2 :: .levels true true :: render true true k
  | led1, led2, .wait :: k => .mdelay 1000 :: render led1 led2 k

/-- Carrying out phases looks like their rendering. -/
theorem leds_perform (ps : List Phase) (b : Board) :
    (ps.foldl Board.perform b).seen.map Seen.leds = b.seen.map Seen.leds ++
      render (b.gpio.level gpioLed1) (b.gpio.level gpioLed2) ps := by
  induction ps generalizing b with
  | nil => exact (List.append_nil _).symm
  | cons p ps ih =>
    rw [List.foldl_cons, ih]
    cases p with
    | off =>
      simp [Board.perform, Board.gpioSetValue, Board.access, Gpio.setValue, Seen.leds, render,
        gpioLed1, gpioLed2]
    | on =>
      simp [Board.perform, Board.gpioSetValue, Board.access, Gpio.setValue, Seen.leds, render,
        gpioLed1, gpioLed2]
    | wait => simp [Board.perform, Board.mdelay, Seen.leds, render]

/-- The levels of the LEDs after phases. -/
def finalLevels : Bool → Bool → List Phase → Bool × Bool
  | led1, led2, [] => (led1, led2)
  | _, _, .off :: k => finalLevels false false k
  | _, _, .on :: k => finalLevels true true k
  | led1, led2, .wait :: k => finalLevels led1 led2 k

theorem levels_perform (ps : List Phase) (b : Board) :
    ((ps.foldl Board.perform b).gpio.level gpioLed1,
      (ps.foldl Board.perform b).gpio.level gpioLed2)
      = finalLevels (b.gpio.level gpioLed1) (b.gpio.level gpioLed2) ps := by
  induction ps generalizing b with
  | nil => rfl
  | cons p ps ih =>
    rw [List.foldl_cons, ih]
    cases p with
    | off =>
      simp [Board.perform, Board.gpioSetValue, Board.access, Gpio.setValue, finalLevels,
        gpioLed1, gpioLed2]
    | on =>
      simp [Board.perform, Board.gpioSetValue, Board.access, Gpio.setValue, finalLevels,
        gpioLed1, gpioLed2]
    | wait => rfl

/-- On board `b`, all pins but the LEDs have been at their levels in `g` ever
since. -/
structure OnlyLeds (g : Gpio) (b : Board) : Prop where
  now : ∀ p, p ≠ gpioLed1 → p ≠ gpioLed2 → b.gpio.level p = g.level p
  ever : ∀ level, Seen.levels level ∈ b.seen →
    ∀ p, p ≠ gpioLed1 → p ≠ gpioLed2 → level p = g.level p

theorem OnlyLeds.access {g : Gpio} {b : Board} (h : OnlyLeds g b) {f : Gpio → Gpio}
    (hf : ∀ g p, p ≠ gpioLed1 → p ≠ gpioLed2 → (f g).level p = g.level p) :
    OnlyLeds g (b.access f) where
  now p h1 h2 := (hf b.gpio p h1 h2).trans (h.now p h1 h2)
  ever level hl p h1 h2 := by
    rcases List.mem_append.mp hl with hl | hl
    · exact h.ever level hl p h1 h2
    · cases List.mem_singleton.mp hl
      exact (hf b.gpio p h1 h2).trans (h.now p h1 h2)

theorem OnlyLeds.mdelay {g : Gpio} {b : Board} (h : OnlyLeds g b) (ms : Nat) :
    OnlyLeds g (b.mdelay ms) where
  now := h.now
  ever level hl p h1 h2 := by
    rcases List.mem_append.mp hl with hl | hl
    · exact h.ever level hl p h1 h2
    · cases List.mem_singleton.mp hl

theorem OnlyLeds.perform {g : Gpio} {b : Board} (h : OnlyLeds g b) (p : Phase) :
    OnlyLeds g (b.perform p) := by
  have h1 : ∀ (v : Bool) (g : Gpio) (p : Nat), p ≠ gpioLed1 → p ≠ gpioLed2 →
      (g.setValue gpioLed1 v).level p = g.level p :=
    fun v g p hp _ => Function.update_of_ne hp _ _
  have h2 : ∀ (v : Bool) (g : Gpio) (p : Nat), p ≠ gpioLed1 → p ≠ gpioLed2 →
      (g.setValue gpioLed2 v).level p = g.level p :=
    fun v g p _ hp => Function.update_of_ne hp _ _
  cases p with
  | off => exact (h.access (h1 false)).access (h2 false)
  | on => exact (h.access (h1 true)).access (h2 true)
  | wait => exact h.mdelay 1000

theorem OnlyLeds.foldl {g : Gpio} {b : Board} (h : OnlyLeds g b) (ps : List Phase) :
    OnlyLeds g (ps.foldl Board.perform b) := by
  induction ps generalizing b with
  | nil => exact h
  | cons p ps ih => exact ih (h.perform p)

/-! ## After `led_init` -/

/-- The phases of the five rounds at the end of `led_init`. -/
def blinkPhases : List Phase := (List.replicate 5 [.on, .wait, .off, .wait]).flatten

theorem blink_eq : GpioDrv1.blink = GpioDrv.blink := by
  funext b
  unfold GpioDrv1.blink GpioDrv.blink
  simp only [writel_eq_gpioSetValue]

/-- The board once `led_init` of gpio_drv has succeeded; what is seen counts from
here. -/
def GpioDrv.ready (g : Gpio) : Board := { GpioDrv.ledInit ⟨g, []⟩ with seen := [] }

/-- The board once `led_init` of gpio_drv1 has succeeded. -/
def GpioDrv1.ready (g : Gpio) : Board := { GpioDrv1.ledInit ⟨g, []⟩ with seen := [] }

/-- A board that has blinked has its LEDs low, and touched no other pin. -/
theorem ready_of_blinked {g : Gpio} {b : Board} (h : OnlyLeds g b) :
    let b' : Board := { blinkPhases.foldl Board.perform b with seen := [] }
    b'.gpio.level gpioLed1 = false ∧ b'.gpio.level gpioLed2 = false ∧ OnlyLeds g b' := by
  have hlevels := levels_perform blinkPhases b
  exact ⟨congrArg Prod.fst hlevels, congrArg Prod.snd hlevels,
    ⟨(h.foldl blinkPhases).now, fun level hl => by cases hl⟩⟩

theorem GpioDrv.ready_spec (g : Gpio) :
    (GpioDrv.ready g).gpio.level gpioLed1 = false ∧
    (GpioDrv.ready g).gpio.level gpioLed2 = false ∧ OnlyLeds g (GpioDrv.ready g) := by
  have hstart : OnlyLeds g ⟨g, []⟩ := ⟨fun _ _ _ => rfl, fun level hl => by cases hl⟩
  refine ready_of_blinked ((hstart.access (f := Gpio.directionOutput gpioLed1 false) ?_).access
    (f := Gpio.directionOutput gpioLed2 false) ?_)
  · intro g p hp _
    refine (Function.update_of_ne hp _ _).trans (congrFun ?_ p)
    exact Gpio.level_selectOutput (by decide) (by decide) _ g
  · intro g p _ hp
    refine (Function.update_of_ne hp _ _).trans (congrFun ?_ p)
    exact Gpio.level_selectOutput (by decide) (by decide) _ g

theorem GpioDrv1.ready_spec (g : Gpio) :
    (GpioDrv1.ready g).gpio.level gpioLed1 = false ∧
    (GpioDrv1.ready g).gpio.level gpioLed2 = false ∧ OnlyLeds g (GpioDrv1.ready g) := by
  have hstart : OnlyLeds g ⟨g, []⟩ := ⟨fun _ _ _ => rfl, fun level hl => by cases hl⟩
  rw [GpioDrv1.ready, GpioDrv1.ledInit, blink_eq]
  refine ready_of_blinked ((hstart.access (f := Gpio.selectOutput gpioSelOffset18 24) ?_).access
    (f := Gpio.selectOutput gpioSelOffset23 9) ?_)
  · intro g p _ _
    exact congrFun (Gpio.level_selectOutput (by decide) (by decide) _ g) p
  · intro g p _ _
    exact congrFun (Gpio.level_selectOutput (by decide) (by decide) _ g) p

/-! ## Runs -/

/-- **The two LED drivers are equivalent.** -/
theorem drivers_equivalent (g g₁ : Gpio) (bufs : List (List UInt8))
    (hlen : ∀ buf ∈ bufs, buf.length ≤ maxRwCount) :
    ∃ rets b b₁,
      -- both return the lengths
      ledWrites GpioDrv.ledWrite bufs (GpioDrv.ready g) = some (rets, b) ∧
      ledWrites GpioDrv1.ledWrite bufs (GpioDrv1.ready g₁) = some (rets, b₁) ∧
      rets = bufs.map (fun buf => BitVec.ofNat 64 buf.length) ∧
      -- what is seen of the LEDs is the phases of all bytes, in order
      b.seen.map Seen.leds = render false false (bufs.flatten.flatMap phases) ∧
      b₁.seen.map Seen.leds = b.seen.map Seen.leds ∧
      -- the LEDs end at the same levels
      b.gpio.level gpioLed1 = b₁.gpio.level gpioLed1 ∧
      b.gpio.level gpioLed2 = b₁.gpio.level gpioLed2 ∧
      -- and no other pin ever changes
      OnlyLeds g b ∧ OnlyLeds g₁ b₁ := by
  obtain ⟨h1, h2, honly⟩ := GpioDrv.ready_spec g
  obtain ⟨h1', h2', honly'⟩ := GpioDrv1.ready_spec g₁
  have hleds := leds_perform (bufs.flatten.flatMap phases) (GpioDrv.ready g)
  have hleds' := leds_perform (bufs.flatten.flatMap phases) (GpioDrv1.ready g₁)
  have hlevels := levels_perform (bufs.flatten.flatMap phases) (GpioDrv.ready g)
  have hlevels' := levels_perform (bufs.flatten.flatMap phases) (GpioDrv1.ready g₁)
  rw [h1, h2] at hleds hlevels
  rw [h1', h2'] at hleds' hlevels'
  have hsame := hlevels.trans hlevels'.symm
  exact ⟨_, _, _, ledWrites_eq ledWrite_eq hlen _, ledWrites_eq ledWrite_eq' hlen _, rfl, hleds,
    hleds'.trans hleds.symm, congrArg Prod.fst hsame, congrArg Prod.snd hsame,
    honly.foldl _, honly'.foldl _⟩

/-- Two calls, with the bytes `0`, `1` and no byte at all. -/
theorem drivers_equivalent_example :
    ∃ b b₁,
      ledWrites GpioDrv.ledWrite [[charZero, 49], []] (GpioDrv.ready ⟨fun _ => 0, fun _ => true⟩)
        = some ([2, 0], b) ∧
      ledWrites GpioDrv1.ledWrite [[charZero, 49], []]
        (GpioDrv1.ready ⟨fun _ => 0, fun _ => false⟩) = some ([2, 0], b₁) ∧
      b₁.seen.map Seen.leds = b.seen.map Seen.leds := by
  obtain ⟨rets, b, b₁, hb, hb₁, rfl, -, hsame, -⟩ := drivers_equivalent
    ⟨fun _ => 0, fun _ => true⟩ ⟨fun _ => 0, fun _ => false⟩ [[charZero, 49], []] (by decide)
  exact ⟨b, b₁, hb, hb₁, hsame⟩

end Esystem
