import Esystem.Board.RawModules
import Esystem.Core.ReadModifyWrite

/-!
# Modules that are initialised at the same time

The modules that map the GPIO registers select the functions of their pins by
reading a `GPFSEL` register, changing it, and writing it back. Nothing keeps two of
them from doing so at the same time, and then one can write over what the other has
selected.

- `init_alone`: one that is initialised alone does what `RawModule.init` does.
- `inits_overlap`: the LEDs are outputs all the same, and the pins of other drivers
  are left alone. Pin 25 of switch_drv.c stays an input exactly if it was one
  before, or no other module was between reading and writing `GPFSEL2` when
  switch_drv.c wrote it.
-/

namespace Esystem.RawModule

open Rmw

/-- `sel_val = readl(gpio_base + offset); sel_val &= ~(7 << shift);
sel_val |= (v << shift); writel(sel_val, gpio_base + offset);` -/
def selection (offset shift : Nat) (v : BitVec 32) : Update Nat (BitVec 32) where
  reg := offset / 4
  change w := (w &&& ~~~(7#32 <<< shift)) ||| (v <<< shift)

/-- What a successful init function selects, in order. -/
def selections (m : RawModule) : List (Update Nat (BitVec 32)) :=
  [selection gpioSelOffset18 24 1, selection gpioSelOffset23 9 1] ++
    if m = .switchDrv then [selection gpioSelOffset25 15 0] else []

/-- The function of pin `p`, in the word of its register. -/
def fieldOf (p : Nat) (w : BitVec 32) : BitVec 3 := w.extractLsb' (3 * (p % 10)) 3

/-- The update gives pin `p` the function `v`, whatever the register holds. -/
def makes (p : Nat) (v : BitVec 3) (u : Update Nat (BitVec 32)) : Bool :=
  decide (u.reg = p / 10) && decide (fieldOf p (u.change 0) = v) &&
    decide (fieldOf p (u.change (BitVec.allOnes 32)) = v)

variable {ι : Type}

/-- The init functions of several modules, before they select anything. -/
def starting (kind : ι → RawModule) (g : Gpio) : State ι Nat (BitVec 32) :=
  start (fun i => (kind i).selections) g.gpfsel

/-- The registers; the levels of the pins do not matter here. -/
def registers (s : State ι Nat (BitVec 32)) : Gpio := ⟨s.mem, fun _ => false⟩

/-! ## The selections -/

/-- The three selections, as updates of one pin each. -/
theorem selection_cases {m : RawModule} {u : Update Nat (BitVec 32)} (hu : u ∈ m.selections) :
    ∃ p v, u.reg = p / 10 ∧ (∀ w, u.change w = setField w (3 * (p % 10)) v) ∧
      ((p = 18 ∧ v = (1 : BitVec 3)) ∨ (p = 23 ∧ v = 1) ∨ (p = 25 ∧ v = 0 ∧ m = .switchDrv)) := by
  simp only [selections, List.mem_append, List.mem_cons, List.not_mem_nil, or_false] at hu
  rcases hu with (rfl | rfl) | hu
  · exact ⟨18, 1, rfl, fun _ => rfl, .inl ⟨rfl, rfl⟩⟩
  · exact ⟨23, 1, rfl, fun _ => rfl, .inr (.inl ⟨rfl, rfl⟩)⟩
  · split at hu
    · rename_i hm
      cases List.mem_singleton.mp hu
      exact ⟨25, 0, rfl, fun _ => rfl, .inr (.inr ⟨rfl, rfl, hm⟩)⟩
    · cases hu

/-- A selection of one pin changes this pin and no other. -/
theorem fieldOf_setField {p q : Nat} (hreg : q / 10 = p / 10) (v : BitVec 3) (w : BitVec 32) :
    fieldOf q (setField w (3 * (p % 10)) v) = if q = p then v else fieldOf q w := by
  unfold fieldOf
  split
  · rename_i hq
    subst hq
    exact extractLsb'_setField_self _ _ (by omega)
  · rename_i hq
    exact extractLsb'_setField_of_apart _ _ (by omega) (by omega)

/-- A field of zeroes and one of ones are different functions. -/
theorem fieldOf_zero_ne (p : Nat) : fieldOf p 0 ≠ fieldOf p (BitVec.allOnes 32) := by
  intro h
  have hbit := congrArg (fun v : BitVec 3 => v.getLsbD 0) h
  simp only [fieldOf, BitVec.getLsbD_extractLsb', BitVec.getLsbD_allOnes] at hbit
  simp at hbit
  omega

/-- What gives a pin its function can be read off what an update does to zeroes and
ones. -/
theorem makes_iff {u : Update Nat (BitVec 32)} {p q : Nat} {v v' : BitVec 3}
    (hreg : u.reg = q / 10) (hchange : ∀ w, u.change w = setField w (3 * (q % 10)) v') :
    makes p v u = true ↔ p = q ∧ v' = v := by
  simp only [makes, Bool.and_eq_true, decide_eq_true_eq, hreg, hchange]
  constructor
  · rintro ⟨⟨hp, hzero⟩, hones⟩
    rw [fieldOf_setField hp.symm] at hzero hones
    by_cases hpq : p = q
    · exact ⟨hpq, by rwa [if_pos hpq] at hzero⟩
    · rw [if_neg hpq] at hzero hones
      exact absurd (hzero.trans hones.symm) (fieldOf_zero_ne p)
  · rintro ⟨rfl, rfl⟩
    have hself : ∀ w, fieldOf p (setField w (3 * (p % 10)) v') = v' := fun w => by
      rw [fieldOf_setField rfl, if_pos rfl]
    exact ⟨⟨rfl, hself 0⟩, hself (BitVec.allOnes 32)⟩

variable {kind : ι → RawModule} {g : Gpio}

theorem reg_of_makes {u : Update Nat (BitVec 32)} {p : Nat} {v : BitVec 3}
    (h : makes p v u = true) : u.reg = p / 10 := by
  simp only [makes, Bool.and_eq_true, decide_eq_true_eq] at h
  exact h.1.1

theorem fieldOf_of_makes {m : RawModule} {u : Update Nat (BitVec 32)} (hu : u ∈ m.selections)
    {p : Nat} {v : BitVec 3} (h : makes p v u = true) (w : BitVec 32) :
    fieldOf p (u.change w) = v := by
  obtain ⟨q, v', hreg, hchange, -⟩ := selection_cases hu
  obtain ⟨rfl, rfl⟩ := (makes_iff hreg hchange).mp h
  rw [hchange, fieldOf_setField rfl, if_pos rfl]

/-- Pin 18 is the only one of its register that is selected. -/
theorem settles_18 : Settles (makes 18 1) 1 (fun w => fieldOf 18 w = 1)
    fun i => (kind i).selections where
  reg _ _ _ hset := reg_of_makes hset
  establish _ _ hu hset := fieldOf_of_makes hu hset
  keeps i u hu hreg' w hw := by
    obtain ⟨p, v, hreg, hchange, ⟨rfl, rfl⟩ | ⟨rfl, rfl⟩ | ⟨rfl, rfl, -⟩⟩ := selection_cases hu
    · rw [hchange, fieldOf_setField rfl, if_pos rfl]
    · cases hreg.symm.trans hreg'
    · cases hreg.symm.trans hreg'
  first i past u k hprog hreg' := by
    have hu : u ∈ (kind i).selections := by
      rw [hprog]
      exact List.mem_append_right past List.mem_cons_self
    obtain ⟨p, v, hreg, hchange, ⟨rfl, rfl⟩ | ⟨rfl, rfl⟩ | ⟨rfl, rfl, -⟩⟩ := selection_cases hu
    · exact .inl ((makes_iff hreg hchange).mpr ⟨rfl, rfl⟩)
    · cases hreg.symm.trans hreg'
    · cases hreg.symm.trans hreg'

/-- Pin 23 shares its register with pin 25, but each init function selects it first. -/
theorem settles_23 : Settles (makes 23 1) 2 (fun w => fieldOf 23 w = 1)
    fun i => (kind i).selections where
  reg _ _ _ hset := reg_of_makes hset
  establish _ _ hu hset := fieldOf_of_makes hu hset
  keeps i u hu hreg' w hw := by
    obtain ⟨p, v, hreg, hchange, ⟨rfl, rfl⟩ | ⟨rfl, rfl⟩ | ⟨rfl, rfl, -⟩⟩ := selection_cases hu
    · cases hreg.symm.trans hreg'
    · rw [hchange, fieldOf_setField rfl, if_pos rfl]
    · rw [hchange, fieldOf_setField (p := 25) (q := 23) rfl, if_neg (by decide)]
      exact hw
  first i past u k hprog hreg' := by
    match past, hprog with
    | [], hprog =>
      cases (List.cons.inj hprog).1
      cases hreg'
    | [_], hprog =>
      cases (List.cons.inj (List.cons.inj hprog).2).1
      exact .inl (by decide)
    | _ :: v :: past, hprog =>
      cases (List.cons.inj (List.cons.inj hprog).2).1
      exact .inr ⟨_, List.mem_cons_of_mem _ List.mem_cons_self, by decide⟩

/-- Pin 25 is selected by switch_drv.c, and the others write its register. -/
theorem marks_25 : Marks (makes 25 0) 2 (fun w => fieldOf 25 w = 0)
    fun i => (kind i).selections where
  reg _ _ _ hset := reg_of_makes hset
  establish _ _ hu hset := fieldOf_of_makes hu hset
  others i u hu hreg' hset w := by
    obtain ⟨p, v, hreg, hchange, ⟨rfl, rfl⟩ | ⟨rfl, rfl⟩ | ⟨rfl, rfl, -⟩⟩ := selection_cases hu
    · cases hreg.symm.trans hreg'
    · rw [hchange, fieldOf_setField (p := 23) (q := 25) rfl, if_neg (by decide)]
    · rw [(makes_iff hreg hchange).mpr ⟨rfl, rfl⟩] at hset
      cases hset

/-- **A module that is initialised alone** does to the registers what its init
function does. -/
theorem init_alone (m : RawModule) (g : Gpio) :
    ∃ s, run next (starting (fun _ : Unit => m) g)
        (List.replicate (2 * m.selections.length) ()) = some s ∧
      s.mem = (m.init g).gpfsel := by
  obtain ⟨s, hs, hmem⟩ := run_alone (s := starting (fun _ : Unit => m) g) (i := ()) rfl
  refine ⟨s, hs, hmem.trans ?_⟩
  rw [gpfsel_init]
  cases m <;> rfl

/-! ## Several modules at the same time -/

variable [DecidableEq ι] {s : State ι Nat (BitVec 32)} {sched : List ι}

/-- A pin that none of the modules selects keeps its function. -/
theorem field_of_unselected (hr : run next (starting kind g) sched = some s) {p : Nat}
    (h18 : p ≠ 18) (h23 : p ≠ 23) (h25 : p = 25 → ∀ i, kind i ≠ .switchDrv) :
    (registers s).field p = g.field p := by
  refine keeps_run (P := fun r w => r = p / 10 → fieldOf p w = g.field p)
    (fun i u hu w hw hreg' => ?_) ?_ hr (p / 10) rfl
  · obtain ⟨q, v, hreg, hchange, hq⟩ := selection_cases hu
    have hpq : p ≠ q := by
      rcases hq with ⟨rfl, -⟩ | ⟨rfl, -⟩ | ⟨rfl, -, hm⟩
      · exact h18
      · exact h23
      · exact fun hp => h25 hp i hm
    rw [hchange, fieldOf_setField (hreg'.symm.trans hreg), if_neg hpq]
    exact hw hreg'
  · rintro r rfl
    rfl

theorem unused_run (hr : run next (starting kind g) sched = some s) (r : Nat) :
    (registers s).unused r = g.unused r := by
  refine keeps_run (P := fun r' w => r' = r → w.extractLsb' 30 2 = g.unused r)
    (fun i u hu w hw hreg' => ?_) ?_ hr r rfl
  · obtain ⟨q, v, -, hchange, -⟩ := selection_cases hu
    rw [hchange, extractLsb'_setField_of_apart _ _ (by decide) (by omega)]
    exact hw hreg'
  · rintro r' rfl
    rfl

/-- Once switch_drv.c has made pin 25 an input, it is one. -/
def KeepsSwitch (s : State ι Nat (BitVec 32)) : Prop :=
  Made (makes 25 0) s.proc → (registers s).field 25 = 0

/-- **Initialisations that overlap**: whichever modules are initialised at the same
time, and however their reads and writes interleave, pins of other drivers keep
their functions, and a pin with an LED is an output from the first selection on.
Once all have made their selections, pin 25 has been an input from the selection of
switch_drv.c on exactly if it was one before, or no other module was between reading
and writing its register then. -/
theorem inits_overlap (kind : ι → RawModule) (g : Gpio) (sched : List ι)
    (s : State ι Nat (BitVec 32)) (hr : run next (starting kind g) sched = some s) :
    (∀ p, p ≠ 18 → p ≠ 23 → (p = 25 → ∀ i, kind i ≠ .switchDrv) →
      (registers s).field p = g.field p) ∧
    (∀ r, (registers s).unused r = g.unused r) ∧
    (Made (makes 18 1) s.proc → (registers s).field 18 = 1) ∧
    (Made (makes 23 1) s.proc → (registers s).field 23 = 1) ∧
    ((∀ i, (s.proc i).todo = []) →
      (Along next KeepsSwitch (starting kind g) sched ↔
        g.field 25 = 0 ∨ StepsMeet next (Apart (makes 25 0) 2) (starting kind g) sched)) := by
  refine ⟨fun p h18 h23 h25 => field_of_unselected hr h18 h23 h25, unused_run hr, ?_, ?_, ?_⟩
  · exact settled_run settles_18 hr
  · exact settled_run settles_23 hr
  · exact fun hdone => stays_iff marks_25 hr hdone

/-- mutex.c reads `GPFSEL2`, switch_drv.c makes all its selections, and mutex.c writes
`GPFSEL2`. -/
def overlapping : List Bool :=
  List.replicate 3 true ++ List.replicate 6 false ++ [true]

/-- Where switch_drv.c comes in between, pin 25 is what it was before. -/
theorem inits_overlap_overlapping :
    ∃ s, run next (starting (fun b => if b then .mutex else .switchDrv)
        ⟨fun _ => BitVec.allOnes 32, fun _ => false⟩) overlapping = some s ∧
      (registers s).field 18 = 1 ∧ (registers s).field 23 = 1 ∧ (registers s).field 25 = 7 ∧
      ¬ Along next KeepsSwitch (starting (fun b => if b then .mutex else .switchDrv)
        ⟨fun _ => BitVec.allOnes 32, fun _ => false⟩) overlapping := by
  obtain ⟨s, hs, hp⟩ := exists_run_of_any next (starting (fun b => if b then .mutex else .switchDrv)
    ⟨fun _ => BitVec.allOnes 32, fun _ => false⟩) overlapping
    (fun s => decide (Made (makes 18 1) s.proc ∧ Made (makes 23 1) s.proc ∧
      (registers s).field 25 = 7) && (s.proc true).todo.isEmpty && (s.proc false).todo.isEmpty)
    (by decide)
  simp only [Bool.and_eq_true, decide_eq_true_eq, List.isEmpty_iff] at hp
  obtain ⟨⟨⟨h18, h23, h25⟩, htrue⟩, hfalse⟩ := hp
  obtain ⟨-, -, hled18, hled23, hswitch⟩ := inits_overlap _ _ overlapping s hs
  refine ⟨s, hs, hled18 h18, hled23 h23, h25, fun halong => ?_⟩
  have hdone : ∀ b, (s.proc b).todo = [] := fun b => by
    cases b with
    | true => exact htrue
    | false => exact hfalse
  exact absurd ((hswitch hdone).mp halong) (by decide)

end Esystem.RawModule
