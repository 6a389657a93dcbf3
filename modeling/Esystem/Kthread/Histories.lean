import Esystem.Core.LockLeak
import Esystem.Kthread.Completion
import Esystem.Kthread.Deadlock
import Esystem.Kthread.Unload

/-!
# The lock modules, loaded and unloaded again and again

What mutex.c, semaphore.c, spinlock.c, deadlock.c, deadlock_sol.c and messageq.c
take from the kernel, a mapping of the GPIO registers and two threads, and what
they give back. A run loads and unloads a module any number of times. Init goes
statement by statement, each of its calls can fail, and the threads of all loads
run in between, those of the present load from the moment they are created.

- `ReleasesExactly`: nothing of an earlier load is left while the module is not
  loaded exactly in the runs in which init returns with both threads or without a
  mapping, and exit is called when both threads have returned. No thread is killed
  in these runs.
- `AlwaysUnloads`: in these runs a loaded module can always be brought to where exit
  may be called. This needs threads that complete whatever happens, so deadlock.c
  does not have it.
-/

namespace Esystem

variable {L X B E K : Type}

namespace KModule

open LoopSys

/-! ## Loads -/

/-- `ENOMEM`. -/
def enomem : CInt := 12

/-- What a load finds: the stacks of its threads, the registers, and what the
memory of its locks and of its own data holds before init prepares it. -/
structure Found (B E K : Type) where
  reg : Worker → KReg B
  gpio : Gpio
  locks : K
  extra : E

/-- One load of a module: whether its mapping at `gpio_base` is outstanding, which
of its `thread1` and `thread2` are threads, which of these have been killed, and
their state. -/
structure Load (L X B E K : Type) where
  gpioBase : Bool
  thread : Worker → Bool
  killed : Worker → Bool
  sys : LoopState Worker L (KOp X) K (KReg B) (KShared E)

/-- A load before its init function. -/
def Load.fresh (f : Found B E K) : Load L X B E K where
  gpioBase := false
  thread := fun _ => false
  killed := fun _ => false
  sys := LoopSys.init f.reg f.locks ⟨0, f.gpio, f.extra⟩

/-- Thread `t` of the load has been created, and has neither returned nor been
killed. -/
def Load.Running (l : Load L X B E K) (t : Worker) : Prop :=
  l.thread t = true ∧ l.killed t = false ∧ ¬ (l.sys.ctl t).Done

/-- One statement of the init function; `ok` tells whether its call succeeds. -/
def Load.initStep (m : KModule L X B E K) (ok : Bool) (l : Load L X B E K) :
    InitStep → Load L X B E K
  | .ioremap => { l with gpioBase := ok }
  | .selectOutput offset shift =>
    { l with sys := { l.sys with shared :=
      { l.sys.shared with gpio := l.sys.shared.gpio.selectOutput offset shift } } }
  | .prepare =>
    { l with sys := { l.sys with
      locks := m.locks
      shared := { l.sys.shared with extra := m.prepared } } }
  | .kthreadRun t => { l with thread := Function.update l.thread t ok }
  | .ret => l

/-- What init returns at a statement, if it returns there. -/
def Load.returns (ok : Bool) (l : Load L X B E K) : InitStep → Option CInt
  | .ioremap => if ok then none else some (-enomem)
  | .ret => some (if l.thread .thread1 && l.thread .thread2 then 0 else -1)
  | _ => none

/-- The exit function. -/
def Load.exit (l : Load L X B E K) : Load L X B E K :=
  if l.gpioBase then { l with gpioBase := false } else l

/-- A thread goes on. A write to a register that is not mapped kills it. -/
def Load.sched (m : KModule L X B E K) (l : Load L X B E K) (e : Event Worker) :
    Option (Load L X B E K) :=
  if l.thread e.thread && !l.killed e.thread then
    if (executed l.sys e).any isWritel && !l.gpioBase then
      some { l with killed := Function.update l.killed e.thread true }
    else (m.threads.next l.sys e).map fun sys => { l with sys := sys }
  else none

/-! ## Histories -/

/-- The module is not loaded; its load `n` has `todo` of init before it; or it is
loaded as `n`. -/
inductive Phase where
  | absent
  | starting (n : Nat) (todo : List InitStep)
  | live (n : Nat)

/-- The load that is starting or loaded. -/
def Phase.current : Phase → Option Nat
  | absent => none
  | starting n _ => some n
  | live n => some n

/-- The load whose init is at its end. -/
def Phase.returning : Phase → Option Nat
  | starting n [.ret] => some n
  | _ => none

/-- The load that is loaded. -/
def Phase.loaded : Phase → Option Nat
  | live n => some n
  | _ => none

theorem Phase.eq_of_returning {p : Phase} {n : Nat} (h : p.returning = some n) :
    p = .starting n [.ret] := by
  unfold Phase.returning at h
  split at h
  · cases h
    rfl
  · cases h

theorem Phase.eq_of_loaded {p : Phase} {n : Nat} (h : p.loaded = some n) : p = .live n := by
  unfold Phase.loaded at h
  split at h
  · cases h
    rfl
  · cases h

/-- All loads, by number; how far the last one is; and how many there have been. -/
structure Kernel (L X B E K : Type) where
  load : Nat → Load L X B E K
  phase : Phase
  loads : Nat

/-- Replace load `n`. -/
def Kernel.put (k : Kernel L X B E K) (n : Nat) (l : Load L X B E K) : Kernel L X B E K :=
  { k with load := Function.update k.load n l }

@[simp] theorem Kernel.put_load (k : Kernel L X B E K) (n : Nat) (l : Load L X B E K) :
    (k.put n l).load n = l :=
  Function.update_self ..

@[simp] theorem Kernel.put_put (k : Kernel L X B E K) (n : Nat) (l l' : Load L X B E K) :
    (k.put n l).put n l' = k.put n l' := by
  simp only [put, Function.update_idem]

@[simp] theorem Kernel.put_self (k : Kernel L X B E K) (n : Nat) : k.put n (k.load n) = k := by
  simp only [put, Function.update_eq_self]

/-- A load begins, its init continues, the module is unloaded, or a thread of some
load goes on. -/
inductive KernelEvent (B E K : Type) where
  | load (f : Found B E K)
  | init (ok : Bool)
  | unload
  | sched (n : Nat) (e : Event Worker)

/-- The module has never been loaded. -/
def boot (f : Found B E K) : Kernel L X B E K where
  load := fun _ => Load.fresh f
  phase := .absent
  loads := 0

/-- One event. The module is loaded iff init returns a value `≥ 0`, and exit is
called for a loaded module only. -/
def Kernel.next (m : KModule L X B E K) (k : Kernel L X B E K) :
    KernelEvent B E K → Option (Kernel L X B E K)
  | .load f =>
    match k.phase with
    | .absent =>
      some {
        load := Function.update k.load k.loads (Load.fresh f)
        phase := .starting k.loads moduleInit
        loads := k.loads + 1 }
    | _ => none
  | .init ok =>
    match k.phase with
    | .starting n (x :: todo) =>
      some { k.put n ((k.load n).initStep m ok x) with
        phase :=
          match (k.load n).returns ok x with
          | none => .starting n todo
          | some v => if 0 ≤ v.toInt then .live n else .absent }
    | _ => none
  | .unload =>
    match k.phase with
    | .live n => some { k.put n (k.load n).exit with phase := .absent }
    | _ => none
  | .sched n e => ((k.load n).sched m e).map (k.put n)

/-- While the module is not loaded, no mapping of any load is outstanding and none
of its threads is running. -/
def Balanced (k : Kernel L X B E K) : Prop :=
  k.phase = .absent → ∀ n, (k.load n).gpioBase = false ∧ ∀ t, ¬ (k.load n).Running t

/-- Init comes to its end with both threads, and the module is unloaded when both
have returned. -/
def Orderly (k : Kernel L X B E K) : KernelEvent B E K → Prop
  | .load _ => True
  | .init _ => ∀ n ∈ k.phase.returning, ∀ t, (k.load n).thread t = true
  | .unload => ∀ n ∈ k.phase.loaded, ∀ t, ((k.load n).sys.ctl t).Done
  | .sched _ _ => True

instance (k : Kernel L X B E K) : DecidablePred (Orderly k)
  | .load _ => .isTrue trivial
  | .init _ =>
    inferInstanceAs (Decidable (∀ n ∈ k.phase.returning, ∀ t, (k.load n).thread t = true))
  | .unload =>
    inferInstanceAs (Decidable (∀ n ∈ k.phase.loaded, ∀ t, ((k.load n).sys.ctl t).Done))
  | .sched _ _ => .isTrue trivial

/-! ## How a load starts -/

variable {m : KModule L X B E K} {allowed : Event Worker → Prop}
  {l l' : Load L X B E K}

/-- Init ends with its `return`. -/
theorem todo_of_ret {todo : List InitStep} (h : InitStep.ret :: todo <:+ moduleInit) :
    todo = [] := by
  simpa [moduleInit, List.suffix_cons_iff] using h

/-- A load with `todo` of init before it: mapped from the first statement on, and
without threads until its locks are prepared. -/
structure Started (m : KModule L X B E K) (allowed : Event Worker → Prop)
    (l : Load L X B E K) (todo : List InitStep) : Prop where
  suffix : todo <:+ moduleInit
  mapped : todo ≠ moduleInit → l.gpioBase = true
  before : InitStep.prepare ∈ todo → (∀ t, l.thread t = false) ∧
    ∃ reg locks shared, l.sys = LoopSys.init reg locks shared
  after : InitStep.prepare ∉ todo → Reached m allowed l.sys

theorem started_fresh (f : Found B E K) : Started m allowed (Load.fresh f) moduleInit where
  suffix := List.suffix_rfl
  mapped h := absurd rfl h
  before _ := ⟨fun _ => rfl, f.reg, f.locks, _, rfl⟩
  after h := absurd (by simp [moduleInit]) h

/-- Init goes on, unless its first call fails. -/
theorem started_initStep {ok : Bool} {x : InitStep} {todo : List InitStep}
    (h : Started m allowed l (x :: todo)) (hok : l.returns ok x = none) :
    Started m allowed (l.initStep m ok x) todo := by
  have hmem := prepare_mem_iff h.suffix
  have hsuffix : todo <:+ moduleInit := (List.suffix_cons x todo).trans h.suffix
  have hmapped : x ≠ .ioremap → l.gpioBase = true := by
    intro hx
    refine h.mapped fun heq => hx ?_
    exact (List.cons.inj heq).1
  cases x with
  | ioremap =>
    have hok' : ok = true := by
      cases ok with
      | true => rfl
      | false => cases hok
    exact ⟨hsuffix, fun _ => hok', fun _ => h.before (List.mem_cons_of_mem _ (hmem.mpr rfl)),
      fun hnot => absurd (hmem.mpr rfl) hnot⟩
  | selectOutput offset shift =>
    obtain ⟨hthread, reg, locks, shared, hsys⟩ :=
      h.before (List.mem_cons_of_mem _ (hmem.mpr rfl))
    refine ⟨hsuffix, fun _ => hmapped InitStep.noConfusion, fun _ => ⟨hthread, reg, locks,
      { shared with gpio := shared.gpio.selectOutput offset shift }, ?_⟩,
      fun hnot => absurd (hmem.mpr rfl) hnot⟩
    simp only [Load.initStep, hsys]
    rfl
  | prepare =>
    obtain ⟨-, reg, locks, shared, hsys⟩ := h.before List.mem_cons_self
    refine ⟨hsuffix, fun _ => hmapped InitStep.noConfusion,
      fun hin => absurd (hmem.mp hin) Bool.false_ne_true, fun _ => ?_⟩
    refine ⟨reg, { shared with extra := m.prepared }, [], fun e he => absurd he List.not_mem_nil,
      ?_⟩
    simp only [Load.initStep, hsys]
    rfl
  | kthreadRun t =>
    have hnot : InitStep.prepare ∉ todo := fun hin => absurd (hmem.mp hin) Bool.false_ne_true
    refine ⟨hsuffix, fun _ => hmapped InitStep.noConfusion, fun hin => absurd hin hnot,
      fun _ => h.after ?_⟩
    rw [List.mem_cons, not_or]
    exact ⟨InitStep.noConfusion, hnot⟩
  | ret => cases hok

theorem initStep_killed (ok : Bool) (l : Load L X B E K) (x : InitStep) :
    (l.initStep m ok x).killed = l.killed := by
  cases x <;> rfl

/-- Init returns early without the mapping, and at its end with a value `≥ 0` iff
both threads have been created. -/
theorem returns_cases {ok : Bool} {x : InitStep} {v : CInt} (h : l.returns ok x = some v) :
    (x = .ioremap ∧ ok = false ∧ ¬ 0 ≤ v.toInt) ∨
      x = .ret ∧ (0 ≤ v.toInt ↔ ∀ t, l.thread t = true) := by
  cases x with
  | ioremap =>
    cases ok with
    | true => cases h
    | false =>
      cases h
      exact .inl ⟨rfl, rfl, by decide⟩
  | ret =>
    have hboth : (∀ t, l.thread t = true) ↔
        (l.thread .thread1 && l.thread .thread2) = true := by
      rw [Bool.and_eq_true]
      exact ⟨fun hall => ⟨hall _, hall _⟩, fun hboth t => by cases t; exacts [hboth.1, hboth.2]⟩
    cases h
    refine .inr ⟨rfl, ?_⟩
    rw [hboth]
    split
    · rename_i hyes
      exact iff_of_true (by decide) hyes
    · rename_i hno
      exact iff_of_false (by decide) hno
  | selectOutput offset shift => cases h
  | prepare => cases h
  | kthreadRun t => cases h

/-! ## Threads of a load -/

/-- A thread that has returned does nothing more. -/
theorem next_of_done {sys : LoopState Worker L (KOp X) K (KReg B) (KShared E)}
    {e : Event Worker} (h : (sys.ctl e.thread).Done) :
    executed sys e = none ∧ m.threads.next sys e = none := by
  obtain ⟨v, i, k, hc⟩ := Ctl.exists_returned h
  cases e with
  | step t => exact ⟨by rw [executed, show sys.ctl t = _ from hc],
      by rw [LoopSys.next, show sys.ctl t = _ from hc]⟩
  | interrupt t => exact ⟨rfl, by rw [LoopSys.next, show sys.ctl t = _ from hc]⟩

/-- Only running threads go on. -/
theorem Load.running_of_sched {e : Event Worker} (hs : l.sched m e = some l') :
    l.Running e.thread := by
  simp only [Load.sched] at hs
  split at hs
  · rename_i hthread
    rw [Bool.and_eq_true, Bool.not_eq_true'] at hthread
    refine ⟨hthread.1, hthread.2, fun hdone => ?_⟩
    obtain ⟨hexec, hnone⟩ := next_of_done (m := m) hdone
    rw [hexec, hnone] at hs
    cases hs
  · cases hs

/-- With the registers mapped, all that a running thread does is its next step. -/
theorem Load.sched_of_mapped (hmapped : l.gpioBase = true) {e : Event Worker}
    (hs : l.sched m e = some l') :
    ∃ sys, m.threads.next l.sys e = some sys ∧ l' = { l with sys := sys } := by
  have hfine : ((executed l.sys e).any isWritel && !l.gpioBase) = false := by
    rw [hmapped, Bool.not_true, Bool.and_false]
  rw [Load.sched, hfine] at hs
  split at hs
  · rw [if_neg Bool.false_ne_true] at hs
    obtain ⟨sys, hsys, rfl⟩ := Option.map_eq_some_iff.mp hs
    exact ⟨sys, hsys, rfl⟩
  · cases hs

/-- A load that has started runs its threads only with the registers mapped. -/
theorem Started.mapped_of_running {todo : List InitStep} (h : Started m allowed l todo)
    {t : Worker} (ht : l.Running t) : InitStep.prepare ∉ todo ∧ l.gpioBase = true := by
  have hnot : InitStep.prepare ∉ todo := by
    intro hin
    exact Bool.false_ne_true (((h.before hin).1 t).symm.trans ht.1)
  refine ⟨hnot, h.mapped ?_⟩
  rintro rfl
  exact hnot (by simp [moduleInit])

/-- A thread of a load that has started goes on. -/
theorem started_sched {todo : List InitStep} (h : Started m allowed l todo)
    {e : Event Worker} (he : allowed e) (hs : l.sched m e = some l') :
    Started m allowed l' todo ∧ l'.killed = l.killed := by
  obtain ⟨hnot, hmapped⟩ := h.mapped_of_running (Load.running_of_sched hs)
  obtain ⟨sys, hsys, rfl⟩ := Load.sched_of_mapped hmapped hs
  exact ⟨⟨h.suffix, h.mapped, fun hin => absurd hin hnot,
    fun _ => reached_step (h.after hnot) he hsys⟩, rfl⟩

/-! ## The invariant -/

/-- A load that holds nothing. -/
structure Clean (l : Load L X B E K) : Prop where
  unmapped : l.gpioBase = false
  still : ∀ t, ¬ l.Running t

/-- A load whose init has returned `0`. -/
structure Loaded (m : KModule L X B E K) (allowed : Event Worker → Prop)
    (l : Load L X B E K) : Prop where
  mapped : l.gpioBase = true
  created : ∀ t, l.thread t = true
  reached : Reached m allowed l.sys

/-- The states of the orderly runs: the loads before the present one hold nothing,
and no thread has been killed. -/
structure Inv (m : KModule L X B E K) (allowed : Event Worker → Prop)
    (k : Kernel L X B E K) : Prop where
  past : ∀ n, k.phase.current ≠ some n → Clean (k.load n)
  starting : ∀ n todo, k.phase = .starting n todo → Started m allowed (k.load n) todo
  live : ∀ n, k.phase = .live n → Loaded m allowed (k.load n)
  unharmed : ∀ n t, (k.load n).killed t = false

theorem clean_fresh (f : Found B E K) : Clean (Load.fresh f : Load L X B E K) where
  unmapped := rfl
  still _ h := Bool.false_ne_true h.1

theorem inv_boot (f : Found B E K) : Inv m allowed (boot f) where
  past _ _ := clean_fresh f
  starting n todo h := by cases h
  live n h := by cases h
  unharmed _ _ := rfl

variable {k k' : Kernel L X B E K}

theorem Inv.balanced (h : Inv m allowed k) : Balanced k := by
  intro hk n
  obtain ⟨hunmapped, hstill⟩ := h.past n (by simp [hk, Phase.current])
  exact ⟨hunmapped, hstill⟩

/-- What a run keeps of one load, when another holds nothing: the events that touch
load `n` only. -/
theorem Inv.update (h : Inv m allowed k) {n : Nat} {p : Phase} {loads : Nat}
    (hp : ∀ j, p.current = some j → j = n) (hk : ∀ j, k.phase.current = some j → j = n)
    (hpast : p.current ≠ some n → Clean l)
    (hstarting : ∀ todo, p = .starting n todo → Started m allowed l todo)
    (hlive : p = .live n → Loaded m allowed l) (hkilled : ∀ t, l.killed t = false) :
    Inv m allowed ⟨Function.update k.load n l, p, loads⟩ where
  past j hj := by
    show Clean (Function.update k.load n l j)
    by_cases hjn : j = n
    · rw [hjn, Function.update_self]
      exact hpast (hjn ▸ hj)
    · rw [Function.update_of_ne hjn]
      exact h.past j fun hcur => hjn (hk j hcur)
  starting j todo hj := by
    show Started m allowed (Function.update k.load n l j) todo
    obtain rfl : j = n := hp j (by rw [show p = _ from hj, Phase.current])
    rw [Function.update_self]
    exact hstarting todo hj
  live j hj := by
    show Loaded m allowed (Function.update k.load n l j)
    obtain rfl : j = n := hp j (by rw [show p = _ from hj, Phase.current])
    rw [Function.update_self]
    exact hlive hj
  unharmed := forall_update (P := fun _ (l : Load L X B E K) => ∀ t, l.killed t = false)
    h.unharmed hkilled

/-- What is allowed of the threads. -/
def Allows (allowed : Event Worker → Prop) : KernelEvent B E K → Prop
  | .sched _ e => allowed e
  | _ => True

/-- Init continues. -/
theorem inv_init (h : Inv m allowed k) {ok : Bool} {n : Nat} {x : InitStep}
    {todo : List InitStep} (he : Orderly (B := B) (E := E) k (.init ok))
    (hphase : k.phase = .starting n (x :: todo)) :
    Inv m allowed ⟨Function.update k.load n ((k.load n).initStep m ok x),
      (match (k.load n).returns ok x with
        | none => .starting n todo
        | some v => if 0 ≤ v.toInt then .live n else .absent), k.loads⟩ := by
  have hstarted := h.starting n _ hphase
  have hcur : ∀ j, k.phase.current = some j → j = n := by
    intro j hj
    rw [hphase] at hj
    exact (Option.some.inj hj).symm
  have hkilled : ∀ t, ((k.load n).initStep m ok x).killed t = false := by
    rw [initStep_killed]
    exact h.unharmed n
  cases hret : (k.load n).returns ok x with
  | none =>
    refine h.update (fun j hj => (Option.some.inj hj).symm) hcur (fun hne => absurd rfl hne)
      (fun todo' htodo => ?_) (fun hlive => by cases hlive) hkilled
    cases htodo
    exact started_initStep hstarted hret
  | some v =>
    rcases returns_cases hret with ⟨rfl, rfl, hv⟩ | ⟨rfl, hv⟩
    · -- without the mapping, before there is a thread
      have hthread := (hstarted.before (by
        exact List.mem_cons_of_mem _ ((prepare_mem_iff hstarted.suffix).mpr rfl))).1
      simp only [if_neg hv]
      refine h.update (fun j hj => by cases hj) hcur (fun _ => ⟨rfl, fun t ht => ?_⟩)
        (fun _ htodo => by cases htodo) (fun hlive => by cases hlive) hkilled
      exact Bool.false_ne_true ((hthread t).symm.trans ht.1)
    · -- at the end, with both threads
      obtain rfl := todo_of_ret hstarted.suffix
      have hboth := he n (by rw [hphase]; rfl)
      simp only [if_pos (hv.mpr hboth)]
      refine h.update (fun j hj => (Option.some.inj hj).symm) hcur (fun hne => absurd rfl hne)
        (fun _ htodo => by cases htodo) (fun _ => ⟨?_, hboth, ?_⟩) hkilled
      · exact hstarted.mapped (by simp [moduleInit])
      · exact hstarted.after (by simp)

/-- A thread goes on. -/
theorem inv_sched (h : Inv m allowed k) {n : Nat} {e : Event Worker} (he : allowed e)
    (hs : (k.load n).sched m e = some l) :
    Inv m allowed (k.put n l) := by
  have hrunning := Load.running_of_sched hs
  -- threads of earlier loads have all come to rest
  have hcur : k.phase.current = some n := by
    by_contra hne
    exact (h.past n hne).still _ hrunning
  have hn : ∀ j, k.phase.current = some j → j = n := fun j hj =>
    Option.some.inj (hj.symm.trans hcur)
  have hstays : (∀ todo, k.phase = .starting n todo → Started m allowed l todo) ∧
      (k.phase = .live n → Loaded m allowed l) ∧ l.killed = (k.load n).killed := by
    cases hphase : k.phase with
    | absent =>
      rw [hphase] at hcur
      cases hcur
    | starting j todo =>
      obtain rfl := hn j (by rw [hphase]; rfl)
      obtain ⟨hstarted, hkilled⟩ := started_sched (h.starting j todo hphase) he hs
      refine ⟨fun todo' htodo => ?_, fun hlive => (by cases hlive), hkilled⟩
      cases htodo
      exact hstarted
    | live j =>
      obtain rfl := hn j (by rw [hphase]; rfl)
      have hloaded := h.live j hphase
      obtain ⟨sys, hsys, rfl⟩ := Load.sched_of_mapped hloaded.mapped hs
      exact ⟨fun _ htodo => (by cases htodo),
        fun _ => ⟨hloaded.mapped, hloaded.created, reached_step hloaded.reached he hsys⟩, rfl⟩
  refine h.update hn hn (fun hne => absurd hcur hne) hstays.1 hstays.2.1 fun t => ?_
  rw [hstays.2.2]
  exact h.unharmed n t

/-- Orderly events keep the invariant. -/
theorem inv_step (h : Inv m allowed k) {e : KernelEvent B E K}
    (he : Orderly k e ∧ Allows allowed e) (hs : k.next m e = some k') : Inv m allowed k' := by
  cases e with
  | load f =>
    simp only [Kernel.next] at hs
    split at hs
    · rename_i hphase
      cases hs
      refine h.update (fun j hj => (Option.some.inj hj).symm) (fun j hj => ?_)
        (fun hne => absurd rfl hne) (fun todo htodo => ?_) (fun hlive => ?_) (fun _ => rfl)
      · rw [hphase] at hj
        cases hj
      · cases htodo
        exact started_fresh f
      · cases hlive
    · cases hs
  | init ok =>
    simp only [Kernel.next] at hs
    split at hs
    · rename_i n x todo hphase
      cases hs
      exact inv_init h he.1 hphase
    · cases hs
  | unload =>
    simp only [Kernel.next] at hs
    split at hs
    · rename_i n hphase
      cases hs
      have hloaded := h.live n hphase
      have hexit : (k.load n).exit = { k.load n with gpioBase := false } := if_pos hloaded.mapped
      rw [hexit]
      refine h.update (fun j hj => by cases hj) (fun j hj => ?_) (fun _ => ?_)
        (fun _ htodo => by cases htodo) (fun hlive => by cases hlive) (h.unharmed n)
      · rw [hphase] at hj
        exact (Option.some.inj hj).symm
      · exact ⟨rfl, fun t ht => ht.2.2 (he.1 n (by rw [hphase]; rfl) t)⟩
    · cases hs
  | sched n e =>
    obtain ⟨l, hl, rfl⟩ := Option.map_eq_some_iff.mp hs
    exact inv_sched h he.2 hl

/-- Every other event leaves something of the present load behind: the return of
init without both threads its mapping, and an unload a thread that is running. -/
theorem not_balanced_of_event (h : Inv m allowed k) {e : KernelEvent B E K}
    (he : ¬ Orderly k e) (hs : k.next m e = some k') : ¬ Balanced k' := by
  cases e with
  | load f => exact absurd trivial he
  | sched n e => exact absurd trivial he
  | init ok =>
    simp only [Orderly, not_forall] at he
    obtain ⟨n, hn, t, ht⟩ := he
    have hphase := Phase.eq_of_returning hn
    have hmapped : (k.load n).gpioBase = true :=
      (h.starting n _ hphase).mapped (by simp [moduleInit])
    have hnot : ((k.load n).thread .thread1 && (k.load n).thread .thread2) = false := by
      cases t with
      | thread1 => rw [Bool.not_eq_true _ |>.mp ht, Bool.false_and]
      | thread2 => rw [Bool.not_eq_true _ |>.mp ht, Bool.and_false]
    simp only [Kernel.next, hphase, Load.returns, hnot] at hs
    cases hs
    intro hb
    have hnone : (Function.update k.load n (k.load n) n).gpioBase = false := (hb rfl n).1
    rw [Function.update_self, hmapped] at hnone
    cases hnone
  | unload =>
    simp only [Orderly, not_forall] at he
    obtain ⟨n, hn, t, ht⟩ := he
    have hphase := Phase.eq_of_loaded hn
    have hloaded := h.live n hphase
    have hexit : (k.load n).exit = { k.load n with gpioBase := false } := if_pos hloaded.mapped
    simp only [Kernel.next, hphase, hexit] at hs
    cases hs
    intro hb
    have hstill : ¬ (Function.update k.load n { k.load n with gpioBase := false } n).Running t :=
      (hb rfl n).2 t
    rw [Function.update_self] at hstill
    exact hstill ⟨hloaded.created t, h.unharmed n t, ht⟩

/-- Nothing of an earlier load is left while the module is not loaded exactly in
the orderly runs, in which no thread is killed. -/
def ReleasesExactly (m : KModule L X B E K) : Prop :=
  ∀ f es k, run (Kernel.next m) (boot f) es = some k →
    (Along (Kernel.next m) Balanced (boot f) es ↔
      StepsMeet (Kernel.next m) Orderly (boot f) es) ∧
    (StepsMeet (Kernel.next m) Orderly (boot f) es → ∀ n t, (k.load n).killed t = false)

/-- An orderly event, whatever the threads do. -/
theorem inv_step_any (h : Inv m anyEvent k) {e : KernelEvent B E K} (he : Orderly k e)
    (hs : k.next m e = some k') : Inv m anyEvent k' := by
  refine inv_step h ⟨he, ?_⟩ hs
  cases e <;> trivial

/-- An orderly run. -/
theorem inv_run (h : Inv m anyEvent k) {es : List (KernelEvent B E K)}
    (hC : StepsMeet (Kernel.next m) Orderly k es) (hr : run (Kernel.next m) k es = some k') :
    Inv m anyEvent k' :=
  run_inv_where (fun h he hs => inv_step_any h he hs) h hC hr

theorem releasesExactly (m : KModule L X B E K) : m.ReleasesExactly := by
  intro f es k hr
  constructor
  · exact along_iff_of_inv Inv.balanced (fun h he hs => inv_step_any h he hs)
      (fun h he hs => not_balanced_of_event h he hs) (inv_boot f) hr
  · intro hC
    exact (inv_run (inv_boot f) hC hr).unharmed

/-! ## Bringing a loaded module to its exit -/

/-- What the threads of the loaded module can do, the kernel can let them do. -/
theorem run_lifts {n : Nat} {es : List (Event Worker)}
    {sys' : LoopState Worker L (KOp X) K (KReg B) (KShared E)}
    (hmapped : (k.load n).gpioBase = true) (hcreated : ∀ t, (k.load n).thread t = true)
    (hkilled : ∀ t, (k.load n).killed t = false)
    (hr : run m.threads.next (k.load n).sys es = some sys') :
    run (Kernel.next m) k (es.map (.sched n)) =
      some (k.put n { k.load n with sys := sys' }) := by
  induction es generalizing k with
  | nil =>
    cases hr
    exact congrArg some (k.put_self n).symm
  | cons e es ih =>
    obtain ⟨sys, hsys, hrest⟩ := run_cons_inv hr
    have hsched : (k.load n).sched m e = some { k.load n with sys := sys } := by
      rw [Load.sched, hcreated, hkilled, hsys]
      simp [hmapped]
    have hnext : Kernel.next m k (.sched n e) = some (k.put n { k.load n with sys := sys }) := by
      rw [Kernel.next, hsched, Option.map_some]
    refine (run_cons_some hnext).mpr ?_
    have hrun := ih (k := k.put n { k.load n with sys := sys }) (by rwa [Kernel.put_load])
      (by rwa [Kernel.put_load]) (by rwa [Kernel.put_load]) (by rwa [Kernel.put_load])
    rw [Kernel.put_load, Kernel.put_put] at hrun
    exact hrun

/-- From every state of an orderly run in which the module is loaded, its threads
can be brought to return, and then the module unloaded with nothing left behind. -/
def AlwaysUnloads (m : KModule L X B E K) (allowed : Event Worker → Prop) : Prop :=
  ∀ f es k n, run (Kernel.next m) (boot f) es = some k →
    StepsMeet (Kernel.next m) Orderly (boot f) es → (∀ e ∈ es, Allows allowed e) →
    k.phase = .live n → ∃ (sched : List Worker) (k' : Kernel L X B E K),
      run (Kernel.next m) k (sched.map (fun t => .sched n (.step t)) ++ [.unload]) = some k' ∧
        k'.phase = .absent ∧ Balanced k'

theorem alwaysUnloads {Free : K → Prop}
    (hcompletes : ∀ reg shared, Completes allowed m.threads
      (LoopSys.init reg m.locks shared) Free) : m.AlwaysUnloads allowed := by
  intro f es k n hr hC hallows hphase
  have hCallows : StepsMeet (Kernel.next m) (fun k e => Orderly k e ∧ Allows allowed e)
      (boot f) es :=
    (stepsMeet_congr (fun e he _ _ _ => ⟨fun h => ⟨h, hallows e he⟩, And.left⟩) hr).mp hC
  have hinv : Inv m allowed k :=
    run_inv_where (fun h he hs => inv_step h he hs) (inv_boot f) hCallows hr
  obtain ⟨hmapped, hcreated, reg, shared, done, hdone, hreached⟩ := hinv.live n hphase
  obtain ⟨sched, sys', hsched, hall⟩ := (hcompletes reg shared).reaches done _ hdone hreached
  have hrun := run_lifts hmapped hcreated (hinv.unharmed n) hsched
  rw [List.map_map] at hrun
  -- the threads have returned, so the unload is orderly
  obtain ⟨k', hk'⟩ : ∃ k', Kernel.next m (k.put n { k.load n with sys := sys' }) .unload
      = some k' := by
    rw [Kernel.next, show (k.put n _).phase = _ from hphase]
    exact ⟨_, rfl⟩
  have hlast : Inv m anyEvent (k.put n { k.load n with sys := sys' }) := by
    refine inv_run (inv_run (inv_boot f) hC hr) ?_ hrun
    refine stepsMeet_of_mem (fun e he k => ?_) k
    obtain ⟨t, -, rfl⟩ := List.mem_map.mp he
    trivial
  have horderly : Orderly (B := B) (E := E) (k.put n { k.load n with sys := sys' }) .unload := by
    intro j hj t
    have hjn := Phase.eq_of_loaded hj
    rw [show (k.put n _).phase = _ from hphase] at hjn
    cases hjn
    rw [Kernel.put_load]
    exact hall t
  refine ⟨sched, k', run_append_some hrun ((run_cons_some hk').mpr rfl), ?_,
    (inv_step_any hlast horderly hk').balanced⟩
  rw [Kernel.next, show (k.put n _).phase = _ from hphase] at hk'
  cases hk'
  rfl

/-- A load in which nothing fails, up to the end of its init. -/
def loadAll (f : Found B E K) : List (KernelEvent B E K) :=
  .load f :: List.replicate 7 (.init true)

/-- What the threads find after it. -/
def start (m : KModule L X B E K) (f : Found B E K) :
    LoopState Worker L (KOp X) K (KReg B) (KShared E) :=
  LoopSys.init f.reg m.locks
    ⟨0, (f.gpio.selectOutput gpioSelOffset18 24).selectOutput gpioSelOffset23 9, m.prepared⟩

theorem run_loadAll (m : KModule L X B E K) (f : Found B E K) :
    ∃ k, run (Kernel.next m) (boot f) (loadAll f) = some k ∧ k.phase = .live 0 ∧
      (k.load 0).sys = m.start f :=
  ⟨_, rfl, rfl, rfl⟩

theorem orderly_loadAll (m : KModule L X B E K) (f : Found B E K) :
    StepsMeet (Kernel.next m) Orderly (boot f) (loadAll f) :=
  of_decide_eq_true rfl

/-- A module whose threads can get stuck cannot always be unloaded. -/
theorem not_alwaysUnloads {f : Found B E K} {sched : List Worker}
    {sys : LoopState Worker L (KOp X) K (KReg B) (KShared E)}
    (hr : run m.threads.next (m.start f) (sched.map .step) = some sys)
    (hstuck : ∀ t, m.threads.next sys (.step t) = none) (hsome : ∃ t, ¬ (sys.ctl t).Done) :
    ¬ m.AlwaysUnloads uninterrupted := by
  intro hunloads
  obtain ⟨k, hk, hphase, hsys⟩ := run_loadAll m f
  have hinv : Inv m anyEvent k := inv_run (inv_boot f) (orderly_loadAll m f) hk
  have hloaded := hinv.live 0 hphase
  have hrun := run_lifts hloaded.mapped hloaded.created (hinv.unharmed 0)
    (show run m.threads.next (k.load 0).sys _ = _ by rw [hsys]; exact hr)
  have hsteps : StepsMeet (Kernel.next m) Orderly k ((sched.map .step).map (.sched 0)) := by
    refine stepsMeet_of_mem (fun e he k => ?_) k
    obtain ⟨e', -, rfl⟩ := List.mem_map.mp he
    trivial
  have hallows : ∀ e ∈ loadAll f ++ (sched.map .step).map (.sched 0),
      Allows uninterrupted e := by
    intro e he
    rcases List.mem_append.mp he with hload | hsched
    · rcases List.mem_cons.mp hload with rfl | hinit
      · trivial
      · rw [List.eq_of_mem_replicate hinit]
        trivial
    · obtain ⟨e', he', rfl⟩ := List.mem_map.mp hsched
      obtain ⟨t, -, rfl⟩ := List.mem_map.mp he'
      exact ⟨t, rfl⟩
  obtain ⟨more, k', hmore, -, hbalanced⟩ := hunloads f _ _ 0 (run_append_some hk hrun)
    ((stepsMeet_append hk).mpr ⟨orderly_loadAll m f, hsteps⟩) hallows hphase
  have hlast := inv_run hinv hsteps hrun
  cases more with
  | nil =>
    -- unloaded at once, with a thread that has not returned
    obtain ⟨k₁, hk₁, hend⟩ := run_cons_inv hmore
    cases hend
    obtain ⟨t, ht⟩ := hsome
    refine not_balanced_of_event hlast (fun horderly => ht ?_) hk₁ hbalanced
    have hdone := horderly 0 (by rw [show (k.put 0 _).phase = _ from hphase]; rfl) t
    rwa [Kernel.put_load] at hdone
  | cons t more =>
    obtain ⟨k₁, hk₁, -⟩ := run_cons_inv hmore
    obtain ⟨l, hl, -⟩ := Option.map_eq_some_iff.mp hk₁
    rw [Kernel.put_load] at hl
    obtain ⟨sys', hsys', -⟩ :=
      Load.sched_of_mapped (l := { k.load 0 with sys := sys }) hloaded.mapped hl
    rw [hstuck t] at hsys'
    cases hsys'

end KModule

/-- The threads of deadlock.c get stuck in their first round. -/
theorem Deadlock.not_alwaysUnloads {bound : Worker → Nat} (h : ∀ t, 0 < bound t) :
    ¬ (Deadlock.kmodule bound).AlwaysUnloads uninterrupted := by
  let f : KModule.Found Unit Unit (MyMutexes → Option Worker) :=
    ⟨fun _ => ⟨0, ()⟩, ⟨fun _ => 0, fun _ => false⟩, fun _ => none, ()⟩
  obtain ⟨s, ⟨sched, hr⟩, hdead, -, -⟩ :=
    Deadlock.deadlock_from f.reg _ (h .thread1) (h .thread2)
  refine KModule.not_alwaysUnloads (f := f) hr (fun t => ?_) ?_
  · have htaken : s.locks (Deadlock.secondMutex t) ≠ none := by
      cases t with
      | thread1 => exact fun hn => by cases hn.symm.trans (hdead.owns .thread2)
      | thread2 => exact fun hn => by cases hn.symm.trans (hdead.owns .thread1)
    obtain ⟨i, k, hc⟩ := hdead.waits t
    rw [LoopSys.next, hc]
    show Option.map _ (if s.locks (Deadlock.secondMutex t) = none then _ else none) = none
    rw [if_neg htaken, Option.map_none]
  · obtain ⟨i, k, hc⟩ := hdead.waits .thread1
    refine ⟨.thread1, ?_⟩
    rw [hc]
    exact id

/-- **The lock modules give back what they take exactly in the orderly runs**: in
each of the six modules that take a mapping and two threads, nothing is left behind
exactly if init returns with both threads or without the mapping, and exit is called
when both threads have returned; no thread is killed then. A loaded mutex.c,
semaphore.c or messageq.c can always be brought to an orderly exit, whatever
acquisitions have been interrupted, deadlock_sol.c if none has, and deadlock.c not
even then. -/
theorem lock_modules_release (bound : Worker → Nat) :
    (Mutex.kmodule bound).ReleasesExactly ∧ (Semaphore.kmodule bound).ReleasesExactly ∧
    (Spinlock.kmodule bound).ReleasesExactly ∧ (Deadlock.kmodule bound).ReleasesExactly ∧
    (DeadlockSol.kmodule bound).ReleasesExactly ∧
    (MessageQueue.kmodule bound).ReleasesExactly ∧
    (Mutex.kmodule bound).AlwaysUnloads anyEvent ∧
    (Semaphore.kmodule bound).AlwaysUnloads anyEvent ∧
    (MessageQueue.kmodule bound).AlwaysUnloads anyEvent ∧
    (DeadlockSol.kmodule bound).AlwaysUnloads uninterrupted ∧
    ((∀ t, 0 < bound t) → ¬ (Deadlock.kmodule bound).AlwaysUnloads uninterrupted) := by
  refine ⟨KModule.releasesExactly _, KModule.releasesExactly _, KModule.releasesExactly _,
    KModule.releasesExactly _, KModule.releasesExactly _, KModule.releasesExactly _,
    ?_, ?_, ?_, ?_, Deadlock.not_alwaysUnloads⟩
  · exact KModule.alwaysUnloads fun reg shared =>
      completes_of_unheld rfl Mutex.bracketed (fun _ => acquiresUnheld_of_subsingleton _) reg shared
  · exact KModule.alwaysUnloads fun reg shared =>
      completes_of_unheld_counting Semaphore.ofMutex_injective (fun .mySemaphore => ⟨.myMutex, rfl⟩)
        rfl rfl (Semaphore.relabels bound) Mutex.bracketed
        (fun _ => acquiresUnheld_of_subsingleton _) reg shared
  · exact KModule.alwaysUnloads fun reg shared =>
      completes_of_unheld rfl MessageQueue.bracketed
        (fun _ => acquiresUnheld_of_subsingleton _) reg shared
  · exact KModule.alwaysUnloads fun reg shared => DeadlockSol.completes id bound reg shared

/-- What a load of mutex.c finds. -/
def Mutex.found : KModule.Found Unit Unit (MyMutex → Option Worker) :=
  ⟨fun _ => ⟨0, ()⟩, ⟨fun _ => 0, fun _ => false⟩, fun _ => none, ()⟩

/-- A load that fails at its first call; one in which nothing fails, both of its
threads to their end, and an unload; another load. -/
def loadedAgain : List (KModule.KernelEvent Unit Unit (MyMutex → Option Worker)) :=
  [.load Mutex.found, .init false] ++ KModule.loadAll Mutex.found ++
    List.replicate 12 (.sched 1 (.step .thread1)) ++
    List.replicate 12 (.sched 1 (.step .thread2)) ++ [.unload] ++ KModule.loadAll Mutex.found

theorem lock_modules_release_loadedAgain :
    Along (KModule.Kernel.next (Mutex.kmodule fun _ => 1)) KModule.Balanced
        (KModule.boot Mutex.found) loadedAgain ∧
      ¬ (Deadlock.kmodule fun _ => 5).AlwaysUnloads uninterrupted := by
  obtain ⟨k, hk, -⟩ := exists_run_of_any (KModule.Kernel.next (Mutex.kmodule fun _ => 1))
    (KModule.boot Mutex.found) loadedAgain (fun _ => true) (by decide)
  obtain ⟨hmutex, -⟩ := lock_modules_release fun _ => 1
  obtain ⟨-, -, -, -, -, -, -, -, -, -, hdeadlock⟩ := lock_modules_release fun _ => 5
  exact ⟨(hmutex Mutex.found loadedAgain k hk).1.mpr (by decide), hdeadlock fun _ => by decide⟩

end Esystem
