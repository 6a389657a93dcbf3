import Esystem.Core.Trace
import Esystem.Kthread.CriticalSection
import Esystem.Kthread.Completion
import Esystem.Kthread.Leaks
import Esystem.Kthread.Spinlock

/-!
# What the kernel log shows of the counter

Each round of a thread increments `shared_counter` and prints it. The log of a
lock module is the interleaving of what its threads print. Whatever the
scheduler does, and however many acquisitions are interrupted, it shows the
numbers 1, 2, 3, … in this order, each once (`log_counts`): a thread prints the
number that its own increment made, before any other thread can increment.
-/

namespace Esystem

open LoopSys

variable {ι L X B E K : Type}

/-- The `printk` of the counter. -/
def isPrintk : Stmt L (KOp X) → Bool
  | .act .printkCounter => true
  | _ => false

/-- The statement is an acquisition. -/
def isLock : Stmt L (KOp X) → Bool
  | .lock _ => true
  | _ => false

/-- What an event prints of `shared_counter`. -/
def printk (s : LoopState ι L (KOp X) K (KReg B) (KShared E)) : Event ι → List CInt
  | .step t =>
    match s.ctl t with
    | .body _ (.act .printkCounter :: _) => [s.shared.sharedCounter]
    | _ => []
  | .interrupt _ => []

/-- The numbers `a`, `a + 1`, …, of which there are `n`. -/
def countUp (a n : Nat) : List CInt :=
  (List.range' a n).map (BitVec.ofNat 32)

/-- The thread has incremented the counter and not printed it yet. -/
def unreported (k : Block L (KOp X)) : Bool :=
  owed isStore isPrintk k

/-- Every increment is printed before the next one and before `m` is released. -/
structure ReportGuarded [DecidableEq L] (m : L) (b : Block L (KOp X)) : Prop where
  bracketed : Bracketed isStore isPrintk b
  guarded : AtEach (fun k => unreported k = true → owes m k = true) b
  locks : AtEach (fun k => (k.head?).any isLock = true → unreported k = false) b

instance [DecidableEq L] (m : L) (b : Block L (KOp X)) : Decidable (ReportGuarded m b) :=
  decidable_of_iff (Bracketed isStore isPrintk b ∧
      AtEach (fun k => unreported k = true → owes m k = true) b ∧
      AtEach (fun k => (k.head?).any isLock = true → unreported k = false) b)
    ⟨fun h => ⟨h.1, h.2.1, h.2.2⟩, fun h => ⟨h.bracketed, h.guarded, h.locks⟩⟩

/-- A thread has incremented as often as it has printed, and once more if it has
not reported its last increment. -/
theorem performed_isStore {b : Block L (KOp X)} (h : Bracketed isStore isPrintk b)
    {c : Ctl L (KOp X)} (hc : c.rest b <:+ b) :
    c.performed isStore b = c.performed isPrintk b
      + if unreported (c.rest b) = true then 1 else 0 := by
  have hbody := h.countP_suffix List.suffix_rfl
  rw [h.outside] at hbody
  have hrest := h.countP_suffix hc
  have hle : (c.rest b).countP isPrintk ≤ b.countP isPrintk := countP_suffix_le hc
  unfold Ctl.performed unreported
  simp only [Bool.false_eq_true, if_false, Nat.add_zero] at hbody
  rw [hbody] at hle ⊢
  omega

namespace Kthread

variable [Fintype ι] [DecidableEq ι] [DecidableEq L] {b : Bool} {bound : ι → Nat}
  {prog : ι → Block L (KOp X)} {extra : Nat → X → B → E → B × E} {m : L}
  {s s' : LoopState ι L (KOp X) (L → Option ι) (KReg B) (KShared E)}

omit [DecidableEq ι] [DecidableEq L] in
/-- Increments and reports, over all threads. -/
theorem total_isStore {M : LoopSys ι L (KOp X) K (KReg B) (KShared E)}
    {s : LoopState ι L (KOp X) K (KReg B) (KShared E)}
    (h : ∀ t, Bracketed isStore isPrintk (M.prog t)) (hok : M.AllOk s) :
    M.total isStore s = M.total isPrintk s
      + ∑ t, if unreported (M.rest s t) = true then 1 else 0 := by
  unfold total
  rw [← Finset.sum_add_distrib]
  exact Finset.sum_congr rfl fun t _ => performed_isStore (h t) (hok.rest_suffix t)

omit [Fintype ι] in
/-- At most one thread has an increment to report. -/
theorem unreported_unique (hg : ∀ t, ReportGuarded m (prog t))
    (hok : (kthreads (exclusive b) bound prog extra).AllOk s)
    (hheld : (kthreads (exclusive b) bound prog extra).HeldAsOwed s) {t u : ι}
    (ht : unreported ((kthreads (exclusive b) bound prog extra).rest s t) = true)
    (hu : unreported ((kthreads (exclusive b) bound prog extra).rest s u) = true) : t = u :=
  owes_unique hheld ((hg t).guarded _ (hok.rest_suffix t) ht)
    ((hg u).guarded _ (hok.rest_suffix u) hu)

/-- **What is printed is the number of the increment**: an event that prints the
counter prints how many reports there are with it. -/
theorem printk_eq (hg : ∀ t, ReportGuarded m (prog t))
    (hinv : SectionInv (kthreads (exclusive b) bound prog extra) s) (e : Event ι) :
    printk s e = countUp ((kthreads (exclusive b) bound prog extra).total isPrintk s + 1)
      (if (executed s e).any isPrintk = true then 1 else 0) := by
  by_cases hany : (executed s e).any isPrintk = true
  · rw [if_pos hany]
    obtain ⟨x, hx, hkind⟩ := (Option.any_eq_true _ _).mp hany
    obtain ⟨t, i, k, rfl, hc⟩ := ctl_of_executed hx
    match x, hkind, hc with
    | .act .printkCounter, _, hc =>
      have ht : unreported ((kthreads (exclusive b) bound prog extra).rest s t) = true := by
        rw [rest, hc]
        exact owed_of_closes rfl k
      -- nobody else has an increment to report
      have hone : (∑ u, if unreported ((kthreads (exclusive b) bound prog extra).rest s u) = true
          then 1 else 0) = 1 := by
        rw [Finset.sum_eq_single t, if_pos ht]
        · intro u _ hu
          exact if_neg fun h => hu (unreported_unique hg hinv.ok hinv.held h ht)
        · exact fun h => absurd (Finset.mem_univ t) h
      have hcount := hinv.counter.count
      rw [total_isStore (fun t => (hg t).bracketed) hinv.ok, hone] at hcount
      rw [printk, hc]
      exact congrArg (fun v => [v]) hcount
  · rw [if_neg hany]
    show printk s e = []
    cases e with
    | interrupt t => rfl
    | step t =>
      rw [printk]
      split
      · rename_i i k hc
        exact absurd (by rw [executed, hc]; rfl) hany
      · rfl

theorem countUp_append (a n k : Nat) : countUp a n ++ countUp (a + n) k = countUp a (n + k) := by
  rw [countUp, countUp, countUp, ← List.map_append, ← List.range'_append_1]

/-- Along a run, the reports carry on counting where they were. -/
theorem observed_printk (hb : ∀ t l, LockBracketed (prog t) l)
    (hc : ∀ t, CounterGuarded m (prog t)) (hg : ∀ t, ReportGuarded m (prog t))
    {es : List (Event ι)} (hinv : SectionInv (kthreads (exclusive b) bound prog extra) s)
    (hr : run (kthreads (exclusive b) bound prog extra).next s es = some s') :
    observed (kthreads (exclusive b) bound prog extra).next printk s es =
      countUp ((kthreads (exclusive b) bound prog extra).total isPrintk s + 1)
        ((kthreads (exclusive b) bound prog extra).executions isPrintk s es) := by
  induction es generalizing s with
  | nil => rfl
  | cons e es ih =>
    obtain ⟨y, hy, hrest⟩ := run_cons_inv hr
    have htotal := total_step (p := isPrintk) hinv.ok (step_of_next hy)
    rw [observed_cons hy, ih (sectionInv_step hb hc hinv hy) hrest, htotal, printk_eq hg hinv,
      executions, hy, ← countUp_append, Nat.add_right_comm]

end Kthread

/-! ## The modules -/

/-- In every run of the module, the log shows 1, 2, 3, … in this order, each
once. The counter is the last number shown, or one ahead while an increment is
being reported; once all threads have returned it is the last number shown. -/
def LogCounts [DecidableEq ι] (M : LoopSys ι L (KOp X) K (KReg B) (KShared E))
    (s₀ : LoopState ι L (KOp X) K (KReg B) (KShared E)) : Prop :=
  ∀ es s, run M.next s₀ es = some s →
    ∃ n, observed M.next printk s₀ es = countUp 1 n ∧
      (s.shared.sharedCounter = BitVec.ofNat 32 n ∨
        s.shared.sharedCounter = BitVec.ofNat 32 (n + 1)) ∧
      ((∀ t, (s.ctl t).Done) → s.shared.sharedCounter = BitVec.ofNat 32 n)

section LogCounts

open Kthread

variable [Fintype ι] [DecidableEq ι] [DecidableEq L] {b : Bool} {bound : ι → Nat}
  {prog : ι → Block L (KOp X)} {extra : Nat → X → B → E → B × E} {m : L}

/-- The log of threads over mutexes. -/
theorem logCounts_of_guarded (hb : ∀ t l, LockBracketed (prog t) l)
    (hc : ∀ t, CounterGuarded m (prog t)) (hg : ∀ t, ReportGuarded m (prog t))
    (reg : ι → KReg B) (gpio : Gpio) (e : E) :
    LogCounts (kthreads (exclusive b) bound prog extra)
      (init reg (fun _ => none) ⟨0, gpio, e⟩) := by
  intro es s hr
  have hinit : SectionInv (kthreads (exclusive b) bound prog extra)
      (init reg (fun _ => none) ⟨0, gpio, e⟩) := sectionInv_init hb hc reg gpio e
  have hinv : SectionInv (kthreads (exclusive b) bound prog extra) s := sectionInv_run hb hc hr
  have hobs := observed_printk hb hc hg hinit hr
  have htotal := total_run (p := isPrintk) hinit.ok hr
  rw [total_init, Nat.zero_add] at htotal
  rw [total_init, Nat.zero_add, ← htotal] at hobs
  have hcount := hinv.counter.count
  rw [total_isStore (fun t => (hg t).bracketed) hinv.ok] at hcount
  refine ⟨_, hobs, ?_, fun hdone => ?_⟩
  · -- at most one thread is between its increment and its report
    by_cases hex : ∃ t, unreported ((kthreads (exclusive b) bound prog extra).rest s t) = true
    · obtain ⟨t, ht⟩ := hex
      refine .inr ?_
      rw [hcount, Finset.sum_eq_single t, if_pos ht]
      · intro u _ hu
        exact if_neg fun h => hu (unreported_unique hg hinv.ok hinv.held h ht)
      · exact fun h => absurd (Finset.mem_univ t) h
    · refine .inl ?_
      rw [hcount, Finset.sum_eq_zero fun t _ => if_neg fun h => hex ⟨t, h⟩, Nat.add_zero]
  · -- a thread returns at its loop test or at an acquisition, with nothing to report
    rw [hcount, Finset.sum_eq_zero fun t _ => if_neg ?_, Nat.add_zero]
    rw [Bool.not_eq_true]
    have hsuf : (kthreads (exclusive b) bound prog extra).rest s t <:+ prog t :=
      hinv.ok.rest_suffix t
    rcases (hinv.ok t).rest_of_done (hdone t) with hrest | ⟨l, k, hrest⟩
    · rw [rest, hrest]
      exact (hg t).bracketed.outside
    · exact (hg t).locks _ hsuf (by rw [rest, hrest]; rfl)

end LogCounts

/-- What is printed does not depend on what the locks are called. -/
theorem printk_mapLock {L' K' : Type} {f : L → L'} {RK : K → K' → Prop}
    {s : LoopState ι L (KOp X) K (KReg B) (KShared E)}
    {s' : LoopState ι L' (KOp X) K' (KReg B) (KShared E)} (h : SameBut f RK s s') (e : Event ι) :
    printk s e = printk s' e := by
  cases e with
  | interrupt t => rfl
  | step t =>
    have ht := h.ctl t
    rw [printk, printk, ht, h.shared]
    match s.ctl t with
    | .head i => rfl
    | .returned v i k => rfl
    | .body i [] => rfl
    | .body i (.lock l :: k) => rfl
    | .body i (.unlock l :: k) => rfl
    | .body i (.act .loadCounter :: k) => rfl
    | .body i (.act .storeCounter :: k) => rfl
    | .body i (.act .printkCounter :: k) => rfl
    | .body i (.act (.writel value offset) :: k) => rfl
    | .body i (.act (.msleep ms) :: k) => rfl
    | .body i (.act (.extra x) :: k) => rfl

/-- The log of threads over binary semaphores is that of threads over mutexes. -/
theorem LogCounts.of_binary [DecidableEq ι] [DecidableEq L] {L' : Type} [DecidableEq L']
    {f : L → L'} (hf : Function.Injective f)
    {M : LoopSys ι L (KOp X) (L → Option ι) (KReg B) (KShared E)}
    {M' : LoopSys ι L' (KOp X) (L' → Nat) (KReg B) (KShared E)} {b : Bool}
    (hM : M.sync = exclusive b) (hM' : M'.sync = counting b) (hMM' : Relabels f M M')
    (hb : ∀ t l, LockBracketed (M.prog t) l) {reg : ι → KReg B} {shared : KShared E}
    (h : LogCounts M (init reg (fun _ => none) shared)) :
    LogCounts M' (init reg (fun _ => 1) shared) := by
  intro es s' hr
  have hlock : Lockstep M.next printk M'.next printk (Binary f M) :=
    ⟨fun h => binary_next hf hM hM' hMM' hb h, fun h => printk_mapLock h.same⟩
  obtain ⟨s, hs, hss, hobs⟩ := hlock.flip.run (binary_init hb f reg shared) hr
  obtain ⟨n, hn, hcounter, hdone⟩ := h es s hs
  rw [hobs, hss.same.shared]
  refine ⟨n, hn, hcounter, fun hall => hdone fun t => ?_⟩
  have ht := hall t
  rwa [hss.same.ctl t, done_mapLock] at ht

theorem Mutex.reportGuarded (t : Worker) :
    ReportGuarded MyMutex.myMutex (threadFunction t) := by
  cases t <;> decide

theorem Spinlock.counterGuarded (t : Worker) :
    CounterGuarded MySpinlock.mySpinlock (threadFunction t) := by
  cases t <;> decide

theorem Spinlock.reportGuarded (t : Worker) :
    ReportGuarded MySpinlock.mySpinlock (threadFunction t) := by
  cases t <;> decide

theorem Deadlock.reportGuarded (t : Worker) :
    ReportGuarded MyMutexes.myMutex2 (threadFunction t) := by
  cases t <;> decide

theorem DeadlockSol.reportGuarded (t : Worker) :
    ReportGuarded MyMutexes.myMutex2 (threadFunction t) := by
  cases t <;> decide

theorem MessageQueue.counterGuarded (t : Worker) :
    CounterGuarded MyMutex.myMutex (threadFunction t) := by
  cases t <;> decide

theorem MessageQueue.reportGuarded (t : Worker) :
    ReportGuarded MyMutex.myMutex (threadFunction t) := by
  cases t <;> decide

theorem SharedMemory.counterGuarded (t : Worker) :
    CounterGuarded MyMutex.myMutex (threadFunction t) := by
  cases t <;> decide

theorem SharedMemory.reportGuarded (t : Worker) :
    ReportGuarded MyMutex.myMutex (threadFunction t) := by
  cases t <;> decide

/-- **The log of every lock module counts 1, 2, 3, …**, for all loop bounds, all
interleavings and all patterns of interrupted acquisitions, also where
acquisitions leak or the threads of deadlock.c block each other. -/
theorem log_counts (bound : Worker → Nat) (gpio : Gpio) :
    (∀ reg, LogCounts (Mutex.threads bound) (init reg (fun _ => none) ⟨0, gpio, ()⟩)) ∧
    (∀ reg, LogCounts (Semaphore.threads bound) (init reg (fun _ => 1) ⟨0, gpio, ()⟩)) ∧
    (∀ reg, LogCounts (Spinlock.threads bound) (init reg (fun _ => none) ⟨0, gpio, ()⟩)) ∧
    (∀ reg, LogCounts (Deadlock.threads bound) (init reg (fun _ => none) ⟨0, gpio, ()⟩)) ∧
    (∀ (κ : Type) [Fintype κ] [DecidableEq κ] (fn : κ → Worker) (rounds : κ → Nat) reg,
      LogCounts (DeadlockSol.threads fn rounds) (init reg (fun _ => none) ⟨0, gpio, ()⟩)) ∧
    (∀ reg fifo,
      LogCounts (MessageQueue.threads bound) (init reg (fun _ => none) ⟨0, gpio, fifo⟩)) ∧
    ∀ reg shm,
      LogCounts (SharedMemory.threads bound) (init reg (fun _ => none) ⟨0, gpio, shm⟩) := by
  have hmutex : ∀ reg,
      LogCounts (Mutex.threads bound) (init reg (fun _ => none) ⟨0, gpio, ()⟩) := fun reg =>
    logCounts_of_guarded Mutex.bracketed Mutex.counterGuarded Mutex.reportGuarded reg gpio ()
  refine ⟨hmutex, fun reg => ?_, fun reg => ?_, fun reg => ?_, fun κ _ _ fn rounds reg => ?_,
    fun reg fifo => ?_, fun reg shm => ?_⟩
  · exact (hmutex reg).of_binary Semaphore.ofMutex_injective rfl rfl (Semaphore.relabels bound)
      Mutex.bracketed
  · exact logCounts_of_guarded Spinlock.bracketed Spinlock.counterGuarded Spinlock.reportGuarded
      reg gpio ()
  · exact logCounts_of_guarded Deadlock.bracketed Deadlock.counterGuarded Deadlock.reportGuarded
      reg gpio ()
  · exact logCounts_of_guarded (fun t => DeadlockSol.bracketed (fn t))
      (fun t => DeadlockSol.counterGuarded (fn t)) (fun t => DeadlockSol.reportGuarded (fn t))
      reg gpio ()
  · exact logCounts_of_guarded MessageQueue.bracketed MessageQueue.counterGuarded
      MessageQueue.reportGuarded reg gpio fifo
  · exact logCounts_of_guarded SharedMemory.bracketed SharedMemory.counterGuarded
      SharedMemory.reportGuarded reg gpio shm

end Esystem
