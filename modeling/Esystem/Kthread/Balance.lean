import Esystem.Kthread.Unload

/-!
# What sharedm.c takes from the kernel and gives back

`shared_memory_init` takes four things in turn, a mapping of the GPIO registers,
a mapping of the shared word and two threads, and returns an error where one of
the calls fails. `shared_memory_exit` gives back the first. A run loads and
unloads the module any number of times; the threads of all loads run in between.

- `releases_iff`: so nothing of an earlier load is left while the module is not
  loaded exactly in the runs in which each load fails at its first call or not at
  all, and nothing is ever unloaded.
-/

namespace Esystem.SharedMemory

open LoopSys

/-- `ENOMEM`. -/
def enomem : CInt := 12

/-- Which of the calls of one load succeed. -/
structure Calls where
  ioremapGpio : Bool
  ioremapWord : Bool
  kthreadRun : Worker → Bool

/-- What a load finds: the stacks of its threads, the registers, and the word at
`PHYS_ADDR`. -/
structure Found where
  reg : Worker → KReg Unit
  gpio : Gpio
  word : CInt

/-- One load of the module: whether its mappings at `gpio_base` and `virt_addr`
are outstanding, which of its threads have been created and not killed, and the
state of these. -/
structure Load where
  gpioBase : Bool
  virtAddr : Bool
  created : Worker → Bool
  sys : LoopState Worker MyMutex (KOp ShmOp) (MyMutex → Option Worker) (KReg Unit) (KShared Shm)

/-- A load before its `shared_memory_init`. -/
def Load.fresh (f : Found) : Load where
  gpioBase := false
  virtAddr := false
  created := fun _ => false
  sys := init f.reg (fun _ => none) ⟨0, f.gpio, ⟨none, [], []⟩⟩

/-- Thread `t` of the load has been created, and has neither returned nor been
killed. -/
def Load.Running (l : Load) (t : Worker) : Prop :=
  l.created t = true ∧ ¬ (l.sys.ctl t).Done

/-- `shared_memory_init`, with what it returns. -/
def sharedMemoryInit (c : Calls) (f : Found) : CInt × Load :=
  if c.ioremapGpio then
    let f := { f with
      gpio := (f.gpio.selectOutput gpioSelOffset18 24).selectOutput gpioSelOffset23 9 }
    let l := { Load.fresh f with gpioBase := true }
    if c.ioremapWord then
      let l := { l with
        virtAddr := true
        created := c.kthreadRun
        sys := init f.reg (fun _ => none) ⟨0, f.gpio, ⟨some f.word, [], []⟩⟩ }
      if c.kthreadRun .thread1 && c.kthreadRun .thread2 then (0, l) else (-1, l)
    else (-enomem, l)
  else (-enomem, Load.fresh f)

/-- `shared_memory_exit`. -/
def sharedMemoryExit (l : Load) : Load :=
  if l.gpioBase then { l with gpioBase := false } else l

/-- All loads, by number; which one the module is loaded as; and how many there
have been. -/
structure Kernel where
  load : Nat → Load
  loaded : Option Nat
  loads : Nat

/-- The module is loaded or unloaded, or a thread of some load goes on. -/
inductive KernelEvent where
  | load (c : Calls) (f : Found)
  | unload
  | sched (n : Nat) (e : Event Worker)

/-- The module has never been loaded. -/
def boot (f : Found) : Kernel where
  load := fun _ => Load.fresh f
  loaded := none
  loads := 0

/-- A thread of a load goes on. A write to a register that is not mapped kills it. -/
def Load.sched (bound : Worker → Nat) (l : Load) (e : Event Worker) : Option Load :=
  if l.created e.thread then
    if (executed l.sys e).any isWritel && !l.gpioBase then
      some { l with created := Function.update l.created e.thread false }
    else ((threads bound).next l.sys e).map fun sys => { l with sys := sys }
  else none

/-- One event. The module is loaded iff `shared_memory_init` returns a value
`≥ 0`, and `shared_memory_exit` is called for a loaded module only. -/
def Kernel.next (bound : Worker → Nat) (k : Kernel) : KernelEvent → Option Kernel
  | .load c f =>
    match k.loaded with
    | some _ => none
    | none =>
      let r := sharedMemoryInit c f
      some {
        load := Function.update k.load k.loads r.2
        loaded := if 0 ≤ r.1.toInt then some k.loads else none
        loads := k.loads + 1 }
  | .unload =>
    match k.loaded with
    | none => none
    | some n =>
      some { k with
        load := Function.update k.load n (sharedMemoryExit (k.load n)), loaded := none }
  | .sched n e =>
    ((k.load n).sched bound e).map fun l => { k with load := Function.update k.load n l }

/-- While the module is not loaded, no mapping of any load is outstanding and
none of its threads is running. -/
def Balanced (k : Kernel) : Prop :=
  k.loaded = none → ∀ n, (k.load n).gpioBase = false ∧ (k.load n).virtAddr = false ∧
    ∀ t, ¬ (k.load n).Running t

/-- A load fails at its first call or not at all, and the module stays loaded. -/
def TakesAllOrNothing (_ : Kernel) : KernelEvent → Prop
  | .load c _ => c.ioremapGpio = false ∨
      c.ioremapWord = true ∧ c.kthreadRun .thread1 = true ∧ c.kthreadRun .thread2 = true
  | .unload => False
  | .sched _ _ => True

instance (k : Kernel) : DecidablePred (TakesAllOrNothing k)
  | .load c _ => inferInstanceAs (Decidable (c.ioremapGpio = false ∨
      c.ioremapWord = true ∧ c.kthreadRun .thread1 = true ∧ c.kthreadRun .thread2 = true))
  | .unload => .isFalse id
  | .sched _ _ => .isTrue trivial

/-! ## What a load does -/

variable {c : Calls} {f : Found}

/-- A load whose first call fails takes nothing and is not loaded. -/
theorem init_takes_nothing (h : c.ioremapGpio = false) :
    sharedMemoryInit c f = (-enomem, Load.fresh f) := by
  simp [sharedMemoryInit, h]

/-- A load in which nothing fails has mapped the word and is loaded. -/
theorem init_takes_all (h : c.ioremapGpio = true) (hw : c.ioremapWord = true)
    (h1 : c.kthreadRun .thread1 = true) (h2 : c.kthreadRun .thread2 = true) :
    (sharedMemoryInit c f).1 = 0 ∧ (sharedMemoryInit c f).2.virtAddr = true := by
  simp [sharedMemoryInit, h, hw, h1, h2]

/-- A load that fails after its first call leaves the registers mapped. -/
theorem init_leaves_mapping (h : c.ioremapGpio = true)
    (hfail : ¬ (c.ioremapWord = true ∧ c.kthreadRun .thread1 = true ∧
      c.kthreadRun .thread2 = true)) :
    (sharedMemoryInit c f).1.toInt < 0 ∧ (sharedMemoryInit c f).2.gpioBase = true := by
  cases hw : c.ioremapWord with
  | false =>
    simp only [sharedMemoryInit, h, hw, if_true, Bool.false_eq_true, if_false]
    exact ⟨by decide, trivial⟩
  | true =>
    have hthreads : (c.kthreadRun .thread1 && c.kthreadRun .thread2) = false := by
      rw [Bool.and_eq_false_imp]
      intro h1
      by_contra h2
      exact hfail ⟨hw, h1, by simpa using h2⟩
    simp only [sharedMemoryInit, h, hw, hthreads, if_true, Bool.false_eq_true, if_false]
    exact ⟨by decide, trivial⟩

/-- A thread of a load takes no mapping and gives none back. -/
theorem Load.sched_frame {bound : Worker → Nat} {l l' : Load} {e : Event Worker}
    (hs : l.sched bound e = some l') :
    l.created e.thread = true ∧ l'.gpioBase = l.gpioBase ∧ l'.virtAddr = l.virtAddr := by
  simp only [Load.sched] at hs
  split at hs
  · rename_i hcreated
    split at hs
    · cases hs
      exact ⟨hcreated, rfl, rfl⟩
    · obtain ⟨sys, -, rfl⟩ := Option.map_eq_some_iff.mp hs
      exact ⟨hcreated, rfl, rfl⟩
  · cases hs

/-! ## Runs -/

/-- The states of the runs in which loads take all or nothing: no load holds
anything until one is loaded, and that one has mapped the word. -/
structure Inv (k : Kernel) : Prop where
  unloaded : k.loaded = none → ∀ n, (k.load n).gpioBase = false ∧
    (k.load n).virtAddr = false ∧ ∀ t, (k.load n).created t = false
  loaded : ∀ n, k.loaded = some n → (k.load n).virtAddr = true

theorem inv_boot (f : Found) : Inv (boot f) where
  unloaded _ _ := ⟨rfl, rfl, fun _ => rfl⟩
  loaded n hn := by cases hn

variable {bound : Worker → Nat} {k k' : Kernel}

theorem Inv.balanced (h : Inv k) : Balanced k := by
  intro hk n
  obtain ⟨hgpio, hword, hcreated⟩ := h.unloaded hk n
  exact ⟨hgpio, hword, fun t ht => absurd (ht.1.symm.trans (hcreated t)) (by decide)⟩

/-- Events that take all or nothing keep the invariant. -/
theorem inv_step (h : Inv k) {e : KernelEvent} (he : TakesAllOrNothing k e)
    (hs : k.next bound e = some k') : Inv k' := by
  cases e with
  | load c f =>
    simp only [Kernel.next] at hs
    split at hs
    · cases hs
    · rename_i hk
      cases hs
      cases hgpio : c.ioremapGpio with
      | false =>
        rw [init_takes_nothing hgpio]
        refine ⟨fun _ n => ?_, fun n hn => by cases hn⟩
        show (Function.update k.load k.loads (Load.fresh f) n).gpioBase = false ∧
          (Function.update k.load k.loads (Load.fresh f) n).virtAddr = false ∧ ∀ t,
          (Function.update k.load k.loads (Load.fresh f) n).created t = false
        by_cases hn : n = k.loads
        · rw [hn, Function.update_self]
          exact ⟨rfl, rfl, fun _ => rfl⟩
        · rw [Function.update_of_ne hn]
          exact h.unloaded hk n
      | true =>
        obtain ⟨hw, h1, h2⟩ := he.resolve_left (by simp [hgpio])
        obtain ⟨hret, hword⟩ := init_takes_all (f := f) hgpio hw h1 h2
        rw [hret]
        refine ⟨fun hn => (by cases hn), fun n hn => ?_⟩
        cases hn
        show (Function.update k.load k.loads (sharedMemoryInit c f).2 k.loads).virtAddr = true
        rw [Function.update_self]
        exact hword
  | unload => exact he.elim
  | sched n e =>
    obtain ⟨l, hl, rfl⟩ := Option.map_eq_some_iff.mp hs
    obtain ⟨hcreated, -, hword⟩ := Load.sched_frame hl
    refine ⟨fun hk => ?_, fun m hm => ?_⟩
    · exact absurd (hcreated.symm.trans ((h.unloaded hk n).2.2 e.thread)) (by decide)
    · show (Function.update k.load n l m).virtAddr = true
      by_cases hmn : m = n
      · rw [hmn, Function.update_self, hword]
        exact h.loaded n (hmn ▸ hm)
      · rw [Function.update_of_ne hmn]
        exact h.loaded m hm

/-- Every other event leaves something of a load behind: a load that fails later
its mapping of the registers, an unload the mapping of the word. -/
theorem not_balanced_of_event (h : Inv k) {e : KernelEvent} (he : ¬ TakesAllOrNothing k e)
    (hs : k.next bound e = some k') : ¬ Balanced k' := by
  cases e with
  | load c f =>
    simp only [TakesAllOrNothing, not_or, Bool.not_eq_false] at he
    obtain ⟨hret, hgpio⟩ := init_leaves_mapping (f := f) he.1 he.2
    simp only [Kernel.next] at hs
    split at hs
    · cases hs
    · cases hs
      rw [if_neg (Int.not_le.mpr hret)]
      intro hb
      have hnone : (Function.update k.load k.loads (sharedMemoryInit c f).2 k.loads).gpioBase
          = false := (hb rfl k.loads).1
      rw [Function.update_self, hgpio] at hnone
      cases hnone
  | unload =>
    simp only [Kernel.next] at hs
    split at hs
    · cases hs
    · rename_i n hn
      cases hs
      intro hb
      have hnone : (Function.update k.load n (sharedMemoryExit (k.load n)) n).virtAddr
          = false := (hb rfl n).2.1
      have hword : (sharedMemoryExit (k.load n)).virtAddr = true := by
        unfold sharedMemoryExit
        split
        · exact h.loaded n hn
        · exact h.loaded n hn
      rw [Function.update_self, hword] at hnone
      cases hnone
  | sched n e => exact absurd trivial he

/-- **sharedm.c gives back what it takes exactly where it never has to**: when
each load fails at its first call or not at all, and nothing is unloaded. -/
theorem releases_iff (bound : Worker → Nat) (f : Found) (es : List KernelEvent) (k : Kernel)
    (hr : run (Kernel.next bound) (boot f) es = some k) :
    Along (Kernel.next bound) Balanced (boot f) es ↔
      StepsMeet (Kernel.next bound) TakesAllOrNothing (boot f) es :=
  along_iff_of_inv Inv.balanced (fun h he hs => inv_step h he hs)
    (fun h he hs => not_balanced_of_event h he hs) (inv_boot f) hr

/-- Zeroes everywhere. -/
def zeroes : Found := ⟨fun _ => ⟨0, ()⟩, ⟨fun _ => 0, fun _ => false⟩, 0⟩

/-- Two loads that fail at once, and one in which nothing fails. -/
def goodRun : List KernelEvent :=
  [.load ⟨false, true, fun _ => true⟩ zeroes, .load ⟨false, false, fun _ => false⟩ zeroes,
    .load ⟨true, true, fun _ => true⟩ zeroes, .sched 2 (.step .thread1), .sched 2 (.step .thread2)]

theorem releases_goodRun :
    Along (Kernel.next fun _ => 5) Balanced (boot zeroes) goodRun := by
  obtain ⟨k, hk, -⟩ := exists_run_of_any (Kernel.next fun _ => 5) (boot zeroes) goodRun
    (fun _ => true) (by decide)
  exact (releases_iff (fun _ => 5) zeroes goodRun k hk).mpr (by decide)

/-- After a load in which nothing fails and an unload, the word is still mapped
and both threads are running; after a load in which only the mapping of the word
fails, the registers are still mapped. -/
theorem leaves_behind :
    (∃ k, run (Kernel.next fun _ => 5) (boot zeroes)
        [.load ⟨true, true, fun _ => true⟩ zeroes, .unload] = some k ∧
      k.loaded = none ∧ (k.load 0).virtAddr = true ∧ (∀ t, (k.load 0).Running t) ∧
      ¬ Balanced k) ∧
    ∃ k, run (Kernel.next fun _ => 5) (boot zeroes)
        [.load ⟨true, false, fun _ => true⟩ zeroes] = some k ∧
      k.loaded = none ∧ (k.load 0).gpioBase = true ∧ ¬ Balanced k := by
  constructor
  · refine ⟨_, rfl, rfl, rfl, fun t => ⟨rfl, id⟩, fun hb => ?_⟩
    exact absurd (hb rfl 0).2.1 (by decide)
  · refine ⟨_, rfl, rfl, rfl, fun hb => ?_⟩
    exact absurd (hb rfl 0).1 (by decide)

end Esystem.SharedMemory
