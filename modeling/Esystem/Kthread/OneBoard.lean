import Esystem.Core.Interleaving
import Esystem.Kthread.Reports

/-!
# The lock modules on one board

The seven lock modules map the same GPIO registers without reserving them, so any
of them can be loaded together, and their threads then drive the same two LEDs.
Each has its own locks, its own counter and its own data.

- `Together.next`: a step of one module works on the registers as all have left
  them.
- `run_together_iff`: together the modules can do what each can do alone, and each
  is then where it would be alone, but for the registers.
- `share_leds`: an LED that is lit is being lit by a thread, so all is dark once all
  threads have returned; both are lit only by threads of different modules.
-/

namespace Esystem

open LoopSys Kthread
open Mutex (ledPin)

/-- The threads of a module, with the state of its locks and of its own data when
they start. -/
structure KThreads where
  L : Type
  X : Type
  B : Type
  E : Type
  K : Type
  sync : Sync Worker L K
  bound : Worker → Nat
  prog : Worker → Block L (KOp X)
  extra : Nat → X → B → E → B × E
  locks : K
  prepared : E

namespace KThreads

abbrev State (m : KThreads) : Type :=
  LoopState Worker m.L (KOp m.X) m.K (KReg m.B) (KShared m.E)

def sys (m : KThreads) : LoopSys Worker m.L (KOp m.X) m.K (KReg m.B) (KShared m.E) :=
  kthreads m.sync m.bound m.prog m.extra

/-- The threads as init starts them. -/
def start (m : KThreads) (reg : Worker → KReg m.B) (gpio : Gpio) : m.State :=
  init reg m.locks ⟨0, gpio, m.prepared⟩

end KThreads

/-! ## What threads do to the registers -/

variable {L X B E K : Type}

/-- The state of a module with the registers as they really are. -/
def LoopState.onBoard (s : LoopState Worker L (KOp X) K (KReg B) (KShared E)) (g : Gpio) :
    LoopState Worker L (KOp X) K (KReg B) (KShared E) :=
  { s with shared := { s.shared with gpio := g } }

/-- What a statement does to the registers. -/
def drives : Option (Stmt L (KOp X)) → Gpio → Gpio
  | some (.act (.writel value offset)), g => g.writel value offset
  | _, g => g

/-- A pin has the level that the last statement about it drove it to. -/
theorem level_drives (x : Option (Stmt L (KOp X))) (g : Gpio) (p : Nat) :
    (drives x g).level p =
      if x.any (lights p) = true then true
      else if x.any (darkens p) = true then false else g.level p := by
  match x with
  | none => rfl
  | some (.lock l) => rfl
  | some (.unlock l) => rfl
  | some (.act .loadCounter) => rfl
  | some (.act .storeCounter) => rfl
  | some (.act .printkCounter) => rfl
  | some (.act (.msleep ms)) => rfl
  | some (.act (.extra x)) => rfl
  | some (.act (.writel value offset)) => exact level_writel (L := L) (X := X) value offset g p

/-- **Threads write the registers and never read them**: a step on other registers
is the same step. -/
theorem step_onBoard {m : KThreads} {s s' : m.State} {e : Event Worker}
    (h : m.sys.Step s e s') (g : Gpio) :
    m.sys.Step (s.onBoard g) e (s'.onBoard (drives (executed s e) g)) := by
  cases h with
  | enter hc hi =>
    rw [executed, hc]
    exact .enter hc hi
  | leave hc hi =>
    rw [executed, hc]
    exact .leave hc hi
  | again hc =>
    rw [executed, hc]
    exact .again hc
  | lock hc ha =>
    rw [executed, hc]
    exact .lock hc ha
  | unlock hc =>
    rw [executed, hc]
    exact .unlock hc
  | interrupted hc hi => exact .interrupted hc hi
  | @act t i a k hc =>
    rw [executed, hc]
    have hact : m.sys.Step (s.onBoard g) (.step t) _ := .act hc
    cases a with
    | loadCounter => exact hact
    | storeCounter => exact hact
    | printkCounter => exact hact
    | writel value offset => exact hact
    | msleep ms => exact hact
    | extra x => exact hact

theorem next_onBoard (m : KThreads) (s : m.State) (e : Event Worker) (g : Gpio) :
    m.sys.next (s.onBoard g) e =
      (m.sys.next s e).map fun s' => s'.onBoard (drives (executed s e) g) := by
  cases hnext : m.sys.next s e with
  | some s' => exact next_of_step (step_onBoard (step_of_next hnext) g)
  | none =>
    -- otherwise the same step would be possible on the registers as they are
    by_contra hsome
    obtain ⟨s', hs'⟩ := Option.ne_none_iff_exists'.mp hsome
    have hback := next_of_step (step_onBoard (step_of_next hs') s.shared.gpio)
    cases hnext.symm.trans hback

/-- The registers after a step. -/
theorem gpio_of_next {m : KThreads} {s s' : m.State} {e : Event Worker}
    (h : m.sys.next s e = some s') :
    s'.shared.gpio = drives (executed s e) s.shared.gpio := by
  have hsame := next_onBoard m s e s.shared.gpio
  rw [show s.onBoard s.shared.gpio = s from rfl, h, Option.map_some] at hsame
  exact congrArg (fun x => x.shared.gpio) (Option.some.inj hsame)

/-! ## Modules on one board -/

variable {I : Type} [DecidableEq I] {m : I → KThreads}

/-- Modules that have been loaded, and the registers they share. -/
structure Together (m : I → KThreads) where
  part : ∀ i, (m i).State
  gpio : Gpio

namespace Together

/-- One of the modules makes a step, on the registers as they are. -/
def next (s : Together m) (e : I × Event Worker) : Option (Together m) :=
  ((m e.1).sys.next ((s.part e.1).onBoard s.gpio) e.2).map fun x =>
    ⟨Function.update s.part e.1 x, x.shared.gpio⟩

/-- All modules have been loaded. -/
def start (m : I → KThreads) (reg : ∀ i, Worker → KReg (m i).B) (gpio : Gpio) : Together m where
  part i := (m i).start (reg i) gpio
  gpio := gpio

end Together

/-- The modules together, beside what each would be alone: they differ in the
registers only, and an LED that is lit is lit by one of them alone. -/
structure Beside (x : ∀ i, (m i).State) (s : Together m) : Prop where
  same : ∀ i g, (s.part i).onBoard g = (x i).onBoard g
  lamps : ∀ t, s.gpio.level (ledPin t) = true →
    ∃ i, (x i).shared.gpio.level (ledPin t) = true

omit [DecidableEq I] in
theorem beside_start (reg : ∀ i, Worker → KReg (m i).B) {gpio : Gpio}
    (hdark : ∀ t, gpio.level (ledPin t) = false) :
    Beside (fun i => (m i).start (reg i) gpio) (Together.start m reg gpio) where
  same _ _ := rfl
  lamps t ht := absurd ((hdark t).symm.trans ht) Bool.false_ne_true

/-- A module makes the same step together with the others and alone. -/
theorem beside_step {x : ∀ i, (m i).State} {s : Together m} (h : Beside x s)
    (e : I × Event Worker) :
    Option.Rel Beside (interleaved (fun i => (m i).sys.next) x e) (s.next e) := by
  obtain ⟨i, e⟩ := e
  rw [interleaved, Together.next, h.same, next_onBoard]
  cases hnext : (m i).sys.next (x i) e with
  | none => exact .none
  | some x' =>
    refine .some ⟨fun j g => ?_, fun t hp => ?_⟩
    · show (Function.update s.part i _ j).onBoard g = (Function.update x i x' j).onBoard g
      by_cases hj : j = i
      · subst hj
        rw [Function.update_self, Function.update_self]
        rfl
      · rw [Function.update_of_ne hj, Function.update_of_ne hj]
        exact h.same j g
    · change (drives (executed (x i) e) s.gpio).level (ledPin t) = true at hp
      have hgpio := gpio_of_next hnext
      rw [level_drives] at hp
      by_cases hlights : (executed (x i) e).any (lights (ledPin t)) = true
      · -- the module lights it, alone as well
        refine ⟨i, ?_⟩
        rw [Function.update_self, hgpio, level_drives, if_pos hlights]
      · rw [if_neg hlights] at hp
        by_cases hdarkens : (executed (x i) e).any (darkens (ledPin t)) = true
        · rw [if_pos hdarkens] at hp
          cases hp
        · -- nothing about this pin: whoever lights it lights it still
          rw [if_neg hdarkens] at hp
          obtain ⟨j, hj⟩ := h.lamps t hp
          refine ⟨j, ?_⟩
          by_cases hji : j = i
          · subst hji
            rwa [Function.update_self, hgpio, level_drives, if_neg hlights, if_neg hdarkens]
          · rwa [Function.update_of_ne hji]

/-- The modules together run in lockstep with the modules each for itself. -/
theorem beside_lockstep (m : I → KThreads) :
    Lockstep (interleaved fun i => (m i).sys.next) (fun _ _ => ([] : List Unit))
      (Together.next (m := m)) (fun _ _ => []) Beside :=
  ⟨fun h => beside_step h, fun _ _ => rfl⟩

variable {reg : ∀ i, Worker → KReg (m i).B} {gpio : Gpio} {es : List (I × Event Worker)}

/-- Together the modules can do what each of them can do alone. -/
theorem run_together_iff (hdark : ∀ t, gpio.level (ledPin t) = false) :
    (∃ s, run Together.next (Together.start m reg gpio) es = some s) ↔
      ∀ i, ∃ x, run (m i).sys.next ((m i).start (reg i) gpio) (eventsOf i es) = some x := by
  constructor
  · rintro ⟨s, hr⟩ i
    obtain ⟨x, hx, -⟩ := (beside_lockstep m).flip.run (beside_start reg hdark) hr
    exact ⟨x i, run_interleaved_iff.mp hx i⟩
  · intro h
    choose x hx using h
    obtain ⟨s, hs, -⟩ := (beside_lockstep m).run (beside_start reg hdark)
      (run_interleaved_iff.mpr hx)
    exact ⟨s, hs⟩

/-- Each of the modules is where it would be alone. -/
theorem alone_of_run (hdark : ∀ t, gpio.level (ledPin t) = false) {s : Together m}
    (hr : run Together.next (Together.start m reg gpio) es = some s) :
    ∃ x : ∀ i, (m i).State, Beside x s ∧
      ∀ i, run (m i).sys.next ((m i).start (reg i) gpio) (eventsOf i es) = some (x i) := by
  obtain ⟨x, hx, hbeside, -⟩ := (beside_lockstep m).flip.run (beside_start reg hdark) hr
  exact ⟨x, hbeside, run_interleaved_iff.mp hx⟩

/-! ## The LEDs -/

/-- Thread `t` of the module is between switching its LED on and off. -/
def KThreads.Lit (m : KThreads) (s : m.State) (t : Worker) : Prop :=
  lit (ledPin t) (m.sys.rest s t) = true

/-- What is needed of a module: each thread switches its own LED on and off, waits
for no lock in between, and the two do not do so at the same time. -/
structure KThreads.Blinks (m : KThreads) : Prop where
  guarded : LedGuarded ledPin m.prog
  waits : ∀ t, AtEach (fun k => (k.head?).any isLock = true → lit (ledPin t) k = false) (m.prog t)
  one : ∀ reg gpio es s, run m.sys.next (m.start reg gpio) es = some s →
    ∀ t u, m.Lit s t → m.Lit s u → t = u

/-- Where a thread is does not depend on the registers. -/
theorem KThreads.lit_onBoard {m : KThreads} {s x : m.State}
    (h : ∀ g, s.onBoard g = x.onBoard g) (t : Worker) : m.Lit s t ↔ m.Lit x t := by
  have hctl : s.ctl = x.ctl := congrArg (fun y => y.ctl) (h s.shared.gpio)
  rw [KThreads.Lit, KThreads.Lit, rest, rest, hctl]

/-- A thread that has returned, in either way, is not lighting its LED. -/
theorem KThreads.Blinks.not_lit_of_done {m : KThreads} (hm : m.Blinks) {s : m.State}
    (hok : m.sys.AllOk s) {t : Worker} (hd : (s.ctl t).Done) : ¬ m.Lit s t := by
  intro ht
  rw [KThreads.Lit] at ht
  have hdark : lit (ledPin t) (m.sys.rest s t) = false := by
    rcases (hok t).rest_of_done hd with hrest | ⟨l, k, hrest⟩
    · rw [rest, hrest]
      exact (hm.guarded.own t).outside
    · exact hm.waits t _ (hok.rest_suffix t) (by rw [rest, hrest]; rfl)
  exact Bool.false_ne_true (hdark.symm.trans ht)

/-- What the modules show together. -/
theorem leds_of_run (hm : ∀ i, (m i).Blinks) (hdark : ∀ t, gpio.level (ledPin t) = false)
    {s : Together m} (hr : run Together.next (Together.start m reg gpio) es = some s) :
    (∀ t, s.gpio.level (ledPin t) = true → ∃ i, (m i).Lit (s.part i) t) ∧
    (∀ t u, t ≠ u → s.gpio.level (ledPin t) = true → s.gpio.level (ledPin u) = true →
      ∃ i j, i ≠ j ∧ (m i).Lit (s.part i) t ∧ (m j).Lit (s.part j) u) ∧
    ((∀ i t, ((s.part i).ctl t).Done) → ∀ t, s.gpio.level (ledPin t) = false) := by
  obtain ⟨x, hbeside, halone⟩ := alone_of_run hdark hr
  have hlit : ∀ i t, (m i).Lit (s.part i) t ↔ (m i).Lit (x i) t := fun i =>
    KThreads.lit_onBoard (hbeside.same i)
  have hlamps : ∀ t, s.gpio.level (ledPin t) = true → ∃ i, (m i).Lit (s.part i) t := by
    intro t ht
    obtain ⟨i, hi⟩ := hbeside.lamps t ht
    have hleds : LedsOk (m i).sys ledPin (x i) := ledsOk_run (hm i).guarded hdark (halone i)
    exact ⟨i, (hlit i t).mpr ((hleds t).symm.trans hi)⟩
  refine ⟨hlamps, fun t u htu ht hu => ?_, fun hdone t => ?_⟩
  · obtain ⟨i, hi⟩ := hlamps t ht
    obtain ⟨j, hj⟩ := hlamps u hu
    refine ⟨i, j, ?_, hi, hj⟩
    rintro rfl
    exact htu ((hm i).one _ _ _ _ (halone i) t u ((hlit i t).mp hi) ((hlit i u).mp hj))
  · by_contra hlevel
    obtain ⟨i, hi⟩ := hlamps t (by simpa using hlevel)
    have hok : (m i).sys.AllOk (x i) := run_inv (fun h hs => allOk_step h (step_of_next hs))
      (allOk_init _ _ _) (halone i)
    have hctl : (s.part i).ctl = (x i).ctl :=
      congrArg (fun y => y.ctl) (hbeside.same i s.gpio)
    exact (hm i).not_lit_of_done hok (hctl ▸ hdone i t) ((hlit i t).mp hi)

/-! ## The seven modules -/

/-- The seven modules. -/
inductive LockModule where
  | mutex
  | semaphore
  | spinlock
  | deadlock
  | deadlockSol
  | messageQueue
  | sharedMemory
  deriving DecidableEq

/-- What each of them starts; `word` is what the memory at `virt_addr` holds. -/
def LockModule.kthreads (word : CInt) (bound : Worker → Nat) : LockModule → KThreads
  | .mutex => ⟨MyMutex, Empty, Unit, Unit, MyMutex → Option Worker, exclusive true, bound,
      Mutex.threadFunction, noExtra, fun _ => none, ()⟩
  | .semaphore => ⟨Semaphore.MySemaphore, Empty, Unit, Unit, Semaphore.MySemaphore → Nat,
      counting true, bound, Semaphore.threadFunction, noExtra, fun _ => 1, ()⟩
  | .spinlock => ⟨Spinlock.MySpinlock, Empty, Unit, Unit, Spinlock.MySpinlock → Option Worker,
      exclusive false, bound, Spinlock.threadFunction, noExtra, fun _ => none, ()⟩
  | .deadlock => ⟨MyMutexes, Empty, Unit, Unit, MyMutexes → Option Worker, exclusive true, bound,
      Deadlock.threadFunction, noExtra, fun _ => none, ()⟩
  | .deadlockSol => ⟨MyMutexes, Empty, Unit, Unit, MyMutexes → Option Worker, exclusive true,
      bound, DeadlockSol.threadFunction, noExtra, fun _ => none, ()⟩
  | .messageQueue => ⟨MyMutex, MessageQueue.FifoOp, MessageQueue.Buffer, MessageQueue.Fifo,
      MyMutex → Option Worker, exclusive true, bound, MessageQueue.threadFunction,
      MessageQueue.exec, fun _ => none, ⟨[], [], [], []⟩⟩
  | .sharedMemory => ⟨MyMutex, SharedMemory.ShmOp, Unit, SharedMemory.Shm,
      MyMutex → Option Worker, exclusive true, bound, SharedMemory.threadFunction,
      SharedMemory.exec, fun _ => none, ⟨some word, [], []⟩⟩

/-- The threads of the modules, each by its name. -/
theorem LockModule.sys_eq (word : CInt) (bound : Worker → Nat) :
    (LockModule.mutex.kthreads word bound).sys = Mutex.threads bound ∧
    (LockModule.semaphore.kthreads word bound).sys = Semaphore.threads bound ∧
    (LockModule.spinlock.kthreads word bound).sys = Spinlock.threads bound ∧
    (LockModule.deadlock.kthreads word bound).sys = Deadlock.threads bound ∧
    (LockModule.deadlockSol.kthreads word bound).sys = DeadlockSol.threads id bound ∧
    (LockModule.messageQueue.kthreads word bound).sys = MessageQueue.threads bound ∧
    (LockModule.sharedMemory.kthreads word bound).sys = SharedMemory.threads bound :=
  ⟨rfl, rfl, rfl, rfl, rfl, rfl, rfl⟩

/-- The thread functions of a module that blink inside the lock `l`. -/
structure BlinkGuarded [DecidableEq L] (l : L) (prog : Worker → Block L (KOp X)) : Prop where
  leds : LedGuarded ledPin prog
  waits : ∀ t, AtEach (fun k => (k.head?).any isLock = true → lit (ledPin t) k = false) (prog t)
  owes : ∀ t, AtEach (fun k => lit (ledPin t) k = true → owes l k = true) (prog t)

instance [DecidableEq L] (l : L) (prog : Worker → Block L (KOp X)) :
    Decidable (BlinkGuarded l prog) :=
  decidable_of_iff ((∀ t, Bracketed (lights (ledPin t)) (darkens (ledPin t)) (prog t)) ∧
      (∀ t u, u ≠ t → ∀ x ∈ prog u,
        lights (ledPin t) x = false ∧ darkens (ledPin t) x = false) ∧
      (∀ t, AtEach (fun k => (k.head?).any isLock = true → lit (ledPin t) k = false) (prog t)) ∧
      ∀ t, AtEach (fun k => lit (ledPin t) k = true → Esystem.owes l k = true) (prog t))
    ⟨fun ⟨hown, halone, hw, ho⟩ => ⟨⟨hown, halone⟩, hw, ho⟩,
      fun h => ⟨h.leds.own, h.leds.alone, h.waits, h.owes⟩⟩

theorem Mutex.blinkGuarded : BlinkGuarded MyMutex.myMutex Mutex.threadFunction := by decide

theorem Semaphore.blinkGuarded :
    BlinkGuarded Semaphore.MySemaphore.mySemaphore Semaphore.threadFunction := by decide

theorem Spinlock.blinkGuarded :
    BlinkGuarded Spinlock.MySpinlock.mySpinlock Spinlock.threadFunction := by decide

theorem Deadlock.blinkGuarded : BlinkGuarded MyMutexes.myMutex2 Deadlock.threadFunction := by
  decide

theorem DeadlockSol.blinkGuarded : BlinkGuarded MyMutexes.myMutex2 DeadlockSol.threadFunction := by
  decide

theorem MessageQueue.blinkGuarded : BlinkGuarded MyMutex.myMutex MessageQueue.threadFunction := by
  decide

theorem SharedMemory.blinkGuarded : BlinkGuarded MyMutex.myMutex SharedMemory.threadFunction := by
  decide

/-- Whether an LED is lit does not depend on what the locks are called. -/
theorem lit_mapLock {L' : Type} (f : L → L') (p : Nat) (k : Block L (KOp X)) :
    lit p (Block.mapLock f k) = lit p k := by
  induction k with
  | nil => rfl
  | cons x k ih =>
    have hk : lit p (Block.mapLock f (x :: k)) =
        if darkens p (x.mapLock f) then true
        else if lights p (x.mapLock f) then false else lit p (Block.mapLock f k) := rfl
    rw [hk, ih]
    cases x with
    | lock l => rfl
    | unlock l => rfl
    | act a => cases a <;> rfl

section One

variable [DecidableEq L] {b : Bool} {bound : Worker → Nat} {prog : Worker → Block L (KOp X)}
  {extra : Nat → X → B → E → B × E}

/-- Threads that blink inside the same lock do not do so at the same time. -/
theorem BlinkGuarded.one {l : L} (h : BlinkGuarded l prog)
    (hb : ∀ t l, LockBracketed (prog t) l) {reg : Worker → KReg B} {shared : KShared E}
    {es : List (Event Worker)}
    {s : LoopState Worker L (KOp X) (L → Option Worker) (KReg B) (KShared E)}
    (hr : run (kthreads (exclusive b) bound prog extra).next
      (init reg (fun _ => none) shared) es = some s) {t u : Worker}
    (ht : lit (ledPin t) ((kthreads (exclusive b) bound prog extra).rest s t) = true)
    (hu : lit (ledPin u) ((kthreads (exclusive b) bound prog extra).rest s u) = true) :
    t = u := by
  obtain ⟨hok, hheld⟩ := held_run rfl hb (allOk_init _ _ _) (heldAsOwed_init hb _ _) hr
  exact owes_unique hheld (h.owes t _ (hok.rest_suffix t) ht)
    (h.owes u _ (hok.rest_suffix u) hu)

end One

/-- The threads of semaphore.c do not blink at the same time, since those of mutex.c
do not. -/
theorem Semaphore.one {bound : Worker → Nat} {reg : Worker → KReg Unit} {shared : KShared Unit}
    {es : List (Event Worker)}
    {s : LoopState Worker MySemaphore (KOp Empty) (MySemaphore → Nat) (KReg Unit) (KShared Unit)}
    (hr : run (Semaphore.threads bound).next (init reg (fun _ => 1) shared) es = some s)
    {t u : Worker} (ht : lit (ledPin t) ((Semaphore.threads bound).rest s t) = true)
    (hu : lit (ledPin u) ((Semaphore.threads bound).rest s u) = true) : t = u := by
  have hlock : Lockstep (Mutex.threads bound).next (fun _ _ => ([] : List Unit))
      (Semaphore.threads bound).next (fun _ _ => []) (Binary ofMutex (Mutex.threads bound)) :=
    ⟨fun h => binary_next ofMutex_injective rfl rfl (relabels bound) Mutex.bracketed h,
      fun _ _ => rfl⟩
  -- what it does, mutex.c does too, with the same threads at the same places
  obtain ⟨x, hx, hsame, -⟩ := hlock.flip.run (binary_init Mutex.bracketed ofMutex reg shared) hr
  rw [hsame.same.rest (relabels bound), lit_mapLock] at ht hu
  exact Mutex.blinkGuarded.one Mutex.bracketed hx ht hu

/-- Each of the seven modules blinks one LED at a time. -/
theorem LockModule.blinks (word : CInt) (bound : Worker → Nat) (k : LockModule) :
    (k.kthreads word bound).Blinks := by
  cases k with
  | mutex =>
    exact ⟨Mutex.blinkGuarded.leds, Mutex.blinkGuarded.waits,
      fun _ _ _ _ hr _ _ ht hu => Mutex.blinkGuarded.one Mutex.bracketed hr ht hu⟩
  | semaphore =>
    exact ⟨Semaphore.blinkGuarded.leds, Semaphore.blinkGuarded.waits,
      fun _ _ _ _ hr _ _ ht hu => Semaphore.one hr ht hu⟩
  | spinlock =>
    exact ⟨Spinlock.blinkGuarded.leds, Spinlock.blinkGuarded.waits,
      fun _ _ _ _ hr _ _ ht hu => Spinlock.blinkGuarded.one Spinlock.bracketed hr ht hu⟩
  | deadlock =>
    exact ⟨Deadlock.blinkGuarded.leds, Deadlock.blinkGuarded.waits,
      fun _ _ _ _ hr _ _ ht hu => Deadlock.blinkGuarded.one Deadlock.bracketed hr ht hu⟩
  | deadlockSol =>
    exact ⟨DeadlockSol.blinkGuarded.leds, DeadlockSol.blinkGuarded.waits,
      fun _ _ _ _ hr _ _ ht hu => DeadlockSol.blinkGuarded.one DeadlockSol.bracketed hr ht hu⟩
  | messageQueue =>
    exact ⟨MessageQueue.blinkGuarded.leds, MessageQueue.blinkGuarded.waits,
      fun _ _ _ _ hr _ _ ht hu => MessageQueue.blinkGuarded.one MessageQueue.bracketed hr ht hu⟩
  | sharedMemory =>
    exact ⟨SharedMemory.blinkGuarded.leds, SharedMemory.blinkGuarded.waits,
      fun _ _ _ _ hr _ _ ht hu => SharedMemory.blinkGuarded.one SharedMemory.bracketed hr ht hu⟩

/-- The modules that are loaded, with all loop bounds. -/
def LockModule.onBoard (loaded : Set LockModule) (word : CInt) (bound : loaded → Worker → Nat)
    (k : loaded) : KThreads :=
  k.val.kthreads word (bound k)

/-- **Lock modules share a board**: whichever of the seven modules are loaded, with
all loop bounds and all interrupted acquisitions, they can do together what each can
do alone, and each is then where it would be alone. An LED is lit only while some
thread is between switching it on and off, both only by two different modules, and
none once all threads have returned. -/
theorem share_leds (loaded : Set LockModule) (word : CInt) (bound : loaded → Worker → Nat)
    (reg : ∀ k, Worker → KReg (LockModule.onBoard loaded word bound k).B) (gpio : Gpio)
    (hdark : ∀ t, gpio.level (ledPin t) = false) (es : List (loaded × Event Worker)) :
    ((∃ s, run Together.next (Together.start (LockModule.onBoard loaded word bound) reg gpio) es
        = some s) ↔
      ∀ k, ∃ x, run (LockModule.onBoard loaded word bound k).sys.next
        ((LockModule.onBoard loaded word bound k).start (reg k) gpio) (eventsOf k es) = some x) ∧
    ∀ s, run Together.next (Together.start (LockModule.onBoard loaded word bound) reg gpio) es
        = some s →
      (∀ k, ∃ x, run (LockModule.onBoard loaded word bound k).sys.next
          ((LockModule.onBoard loaded word bound k).start (reg k) gpio) (eventsOf k es) = some x ∧
        (s.part k).onBoard gpio = x.onBoard gpio) ∧
      (∀ t, s.gpio.level (ledPin t) = true → ∃ k, KThreads.Lit _ (s.part k) t) ∧
      (∀ t u, t ≠ u → s.gpio.level (ledPin t) = true → s.gpio.level (ledPin u) = true →
        ∃ j k, j ≠ k ∧ KThreads.Lit _ (s.part j) t ∧ KThreads.Lit _ (s.part k) u) ∧
      ((∀ k t, ((s.part k).ctl t).Done) → ∀ t, s.gpio.level (ledPin t) = false) := by
  refine ⟨run_together_iff hdark, fun s hr => ⟨fun k => ?_, ?_⟩⟩
  · obtain ⟨x, hbeside, halone⟩ := alone_of_run hdark hr
    exact ⟨x k, halone k, hbeside.same k gpio⟩
  · exact leds_of_run (fun k => k.val.blinks word (bound k)) hdark hr

/-- Stacks full of zeroes. -/
def LockModule.zeroes (word : CInt) (bound : Worker → Nat) :
    (k : LockModule) → Worker → KReg (k.kthreads word bound).B
  | .mutex, _ => ⟨0, ()⟩
  | .semaphore, _ => ⟨0, ()⟩
  | .spinlock, _ => ⟨0, ()⟩
  | .deadlock, _ => ⟨0, ()⟩
  | .deadlockSol, _ => ⟨0, ()⟩
  | .messageQueue, _ => ⟨0, List.replicate 100 0, List.length_replicate⟩
  | .sharedMemory, _ => ⟨0, ()⟩

/-- `thread1` of mutex.c and `thread2` of spinlock.c, to their LEDs. -/
def bothBlink : List (({.mutex, .spinlock} : Set LockModule) × Event Worker) :=
  List.replicate 6 (⟨.mutex, .inl rfl⟩, .step .thread1) ++
    List.replicate 6 (⟨.spinlock, .inr rfl⟩, .step .thread2)

/-- Both LEDs are lit then. -/
theorem share_leds_bothBlink :
    ∃ s, run Together.next (Together.start
        (LockModule.onBoard {.mutex, .spinlock} 0 fun _ _ => 5)
        (fun k => LockModule.zeroes 0 (fun _ => 5) k.val) ⟨fun _ => 0, fun _ => false⟩) bothBlink
        = some s ∧
      (∀ t, s.gpio.level (ledPin t) = true) ∧
      ∃ j k, j ≠ k ∧ KThreads.Lit _ (s.part j) .thread1 ∧ KThreads.Lit _ (s.part k) .thread2 := by
  obtain ⟨s, hs, hp⟩ := exists_run_of_any Together.next (Together.start
    (LockModule.onBoard {.mutex, .spinlock} 0 fun _ _ => 5)
    (fun k => LockModule.zeroes 0 (fun _ => 5) k.val) ⟨fun _ => 0, fun _ => false⟩) bothBlink
    (fun s => s.gpio.level 18 && s.gpio.level 23) (by decide)
  rw [Bool.and_eq_true] at hp
  obtain ⟨-, hled⟩ := share_leds {.mutex, .spinlock} 0 (fun _ _ => 5)
    (fun k => LockModule.zeroes 0 (fun _ => 5) k.val) ⟨fun _ => 0, fun _ => false⟩
    (fun _ => rfl) bothBlink
  obtain ⟨-, -, hboth, -⟩ := hled s hs
  exact ⟨s, hs, fun t => by cases t; exacts [hp.1, hp.2],
    hboth .thread1 .thread2 (by decide) hp.1 hp.2⟩

end Esystem
