import Esystem.Kthread.CriticalSection
import Esystem.Kthread.Programs

/-!
# The two locks of deadlock_sol.c

Every thread of deadlock_sol.c takes `my_mutex1` before `my_mutex2`.

- `no_deadlock`: without interrupted acquisitions, any number of such threads
  always has a step to take until all have returned, and then both mutexes are
  free and no increment is lost.
- `clean_iff`: the error path after `my_mutex2` returns `-1` with `my_mutex1`
  still locked, so the threads give back what they hold exactly in the runs in
  which no acquisition of `my_mutex2` is interrupted.
-/

namespace Esystem.DeadlockSol

open LoopSys Kthread

variable {ι : Type}

/-- The states of threads `ι`. -/
abbrev State (ι : Type) : Type :=
  LoopState ι MyMutexes (KOp Empty) (MyMutexes → Option ι) (KReg Unit) (KShared Unit)

/-- The state in which `mutex_module_init` starts the threads. -/
def start (reg : ι → KReg Unit) (gpio : Gpio) : State ι :=
  init reg (fun _ => none) ⟨0, gpio, ()⟩

/-! ## The bodies, by evaluation -/

theorem bracketed (w : Worker) (l : MyMutexes) : LockBracketed (threadFunction w) l := by
  cases w <;> cases l <;> decide

theorem counterGuarded (w : Worker) :
    CounterGuarded MyMutexes.myMutex2 (threadFunction w) := by
  cases w <;> decide

/-- `my_mutex2` is held only inside `my_mutex1`. -/
theorem owes_myMutex1 (w : Worker) : AtEach
    (fun k => owes MyMutexes.myMutex2 k = true → owes MyMutexes.myMutex1 k = true)
    (threadFunction w) := by
  cases w <;> decide

/-- `my_mutex1` is acquired with nothing held. -/
theorem acquires_myMutex1 (w : Worker) : AtEach
    (fun k => k.head? = some (.lock .myMutex1) → ∀ l : MyMutexes, owes l k = false)
    (threadFunction w) := by
  cases w <;> decide

/-- `my_mutex2` is acquired with `my_mutex1` held. -/
theorem acquires_myMutex2 (w : Worker) : AtEach
    (fun k => k.head? = some (.lock .myMutex2) →
      owes MyMutexes.myMutex1 k = true ∧ owes MyMutexes.myMutex2 k = false)
    (threadFunction w) := by
  cases w <;> decide

theorem countP_isStore (w : Worker) : (threadFunction w).countP isStore = 1 := by
  cases w <;> rfl

/-- The position of a mutex in the order in which the threads acquire. -/
def rank : MyMutexes → Nat
  | .myMutex1 => 0
  | .myMutex2 => 1

/-- Every acquisition is of a mutex that comes after all that are held. -/
theorem acquires_in_order (w : Worker) (l : MyMutexes) (k : Block MyMutexes (KOp Empty))
    (hk : .lock l :: k <:+ threadFunction w) (m : MyMutexes)
    (hm : owes m (.lock l :: k) = true) : rank m < rank l := by
  cases l with
  | myMutex1 =>
    rw [acquires_myMutex1 w _ hk rfl m] at hm
    cases hm
  | myMutex2 =>
    have h2 := (acquires_myMutex2 w _ hk rfl).2
    cases m with
    | myMutex1 => decide
    | myMutex2 =>
      rw [h2] at hm
      cases hm

/-- There is no endless chain of later and later mutexes. -/
theorem wellFounded_later : WellFounded fun l m : MyMutexes => rank m < rank l :=
  Subrelation.wf (r := fun l m => 1 - rank l < 1 - rank m)
    (fun {l m} h => by cases l <;> cases m <;> revert h <;> decide)
    (measure fun l => 1 - rank l).wf

variable [DecidableEq ι] {fn : ι → Worker} {bound : ι → Nat} {s : State ι}

/-! ## No deadlock -/

/-- Whoever attempts `my_mutex2` finds it free. -/
theorem myMutex2_free (hok : (threads fn bound).AllOk s)
    (hheld : (threads fn bound).HeldAsOwed s) {t : ι} {i : Nat}
    {k : Block MyMutexes (KOp Empty)} (hc : s.ctl t = .body i (.lock .myMutex2 :: k)) :
    s.locks .myMutex2 = none := by
  have hrest : (threads fn bound).rest s t = .lock .myMutex2 :: k := by rw [rest, hc]; rfl
  have hsuf := hok.rest_suffix t
  rw [hrest] at hsuf
  obtain ⟨h1, h2⟩ := acquires_myMutex2 (fn t) _ hsuf rfl
  cases hl : s.locks .myMutex2 with
  | none => rfl
  | some u =>
    -- the owner `u` holds `my_mutex1` as well, but `t` does
    have hu2 := (hheld _ u).mp hl
    have hu1 := owes_myMutex1 (fn u) _ (hok.rest_suffix u) hu2
    have htu : t = u := owes_unique hheld (hrest ▸ h1) hu1
    rw [← htu, hrest, h2] at hu2
    cases hu2

/-- A state in which all threads have left their loops. -/
theorem free_of_finished (hheld : (threads fn bound).HeldAsOwed s)
    (hend : ∀ t, s.ctl t = .returned 0 (bound t) (threadFunction (fn t))) (l : MyMutexes) :
    s.locks l = none := by
  cases hl : s.locks l with
  | none => rfl
  | some t =>
    have howes := (hheld l t).mp hl
    rw [owes_of_returned (bracketed (fn t) l) (hend t)] at howes
    cases howes

/-- **deadlock_sol.c does not deadlock**, with any number of threads. -/
theorem no_deadlock [Fintype ι] (fn : ι → Worker) (N : Nat) (reg : ι → KReg Unit)
    (gpio : Gpio) (sched : List ι) (s : State ι)
    (hr : run (threads fn fun _ => N).next (start reg gpio) (sched.map .step) = some s) :
    -- some thread can step until all have returned
    ((∀ t, (s.ctl t).Done) ∨
      ∃ t s', (threads fn fun _ => N).next s (.step t) = some s') ∧
    -- `my_mutex2` is free whenever it is attempted
    (∀ t i k, s.ctl t = .body i (.lock .myMutex2 :: k) → s.locks .myMutex2 = none) ∧
    -- at most one thread is between its acquisition and its release
    (∀ t u, owes .myMutex2 ((threads fn fun _ => N).rest s t) = true →
      owes .myMutex2 ((threads fn fun _ => N).rest s u) = true → t = u) ∧
    -- in the end both mutexes are free and every increment is counted
    ((∀ t, (s.ctl t).Done) → (∀ l, s.locks l = none) ∧
      s.shared.sharedCounter = BitVec.ofNat 32 (N * Fintype.card ι) ∧
      (N * Fintype.card ι < 2 ^ 31 →
        s.shared.sharedCounter.toInt = N * Fintype.card ι)) := by
  have hinv : SectionInv (threads fn fun _ => N) s :=
    sectionInv_run (fun t => bracketed (fn t)) (fun t => counterGuarded (fn t)) hr
  have hend : ∀ t, (s.ctl t).Done → s.ctl t = .returned 0 N (threadFunction (fn t)) :=
    fun t ht => returned_of_steps hr ht
  refine ⟨?_, fun t i k hc => myMutex2_free hinv.ok hinv.held hc,
    fun t u => owes_unique hinv.held, fun hdone => ?_⟩
  · refine progress_of_ordered rfl wellFounded_later
      (fun t l k hk => acquires_in_order (fn t) l k hk) hinv.ok hinv.held fun t ht l => ?_
    exact owes_of_returned (bracketed (fn t) l) (hend t ht)
  · have hcount : s.shared.sharedCounter = BitVec.ofNat 32 (N * Fintype.card ι) := by
      have hperf : ∀ t, (s.ctl t).performed isStore (threadFunction (fn t)) = N := by
        intro t
        rw [hend t (hdone t), Ctl.performed, Ctl.rest_returned, countP_isStore]
        show N * 1 + (1 - 1) = N
        omega
      have htotal : (threads fn fun _ => N).total isStore s = N * Fintype.card ι := by
        refine (Finset.sum_congr rfl fun t _ => hperf t).trans ?_
        rw [Finset.sum_const, Nat.nsmul_eq_mul, Nat.mul_comm]
        rfl
      rw [hinv.counter.count, htotal]
    refine ⟨free_of_finished hinv.held fun t => hend t (hdone t), hcount, fun hlt => ?_⟩
    rw [hcount, toInt_ofNat hlt]
    exact Nat.cast_mul _ _

/-- One round of each thread, one after the other. -/
def sequentialRun : List Worker :=
  List.replicate 14 .thread1 ++ List.replicate 14 .thread2

theorem no_deadlock_sequential :
    ∃ s, run (threads id fun _ => 1).next
        (start (fun _ => ⟨0, ()⟩) ⟨fun _ => 0, fun _ => false⟩)
        (sequentialRun.map .step) = some s ∧
      (∀ l, s.locks l = none) ∧ s.shared.sharedCounter.toInt = 2 := by
  obtain ⟨s, hs, hp⟩ := exists_run_of_any (threads id fun _ => 1).next
    (start (fun _ => ⟨0, ()⟩) ⟨fun _ => 0, fun _ => false⟩) (sequentialRun.map .step)
    (fun s => decide (∀ t, (s.ctl t).Done)) (by decide)
  obtain ⟨-, -, -, hfinal⟩ := no_deadlock id 1 (fun _ => ⟨0, ()⟩)
    ⟨fun _ => 0, fun _ => false⟩ sequentialRun s hs
  have hend := hfinal (of_decide_eq_true hp)
  exact ⟨s, hs, hend.1, hend.2.2 (by decide)⟩

/-! ## The error path of `my_mutex2` -/

/-- Thread `t` waits for a mutex that will never be released: it is taken in
every continuation of the run. -/
def WaitsForever (bound : Worker → Nat) (s : State Worker) (t : Worker) : Prop :=
  ∃ i l k, s.ctl t = .body i (.lock l :: k) ∧
    ∀ es s', run (threads id bound).next s es = some s' → s'.locks l ≠ none

/-- The threads that have returned hold nothing, and leave no other thread
waiting for ever. -/
structure Clean (bound : Worker → Nat) (s : State Worker) : Prop where
  released : ∀ t, (s.ctl t).Done → ∀ l, s.locks l ≠ some t
  unblocked : ∀ t u, t ≠ u → (s.ctl t).Done → ¬ WaitsForever bound s u

/-- The event is not an interrupted acquisition of `my_mutex2`. -/
def SparesMyMutex2 (s : State Worker) (e : Event Worker) : Prop :=
  ∀ t i k, e = .interrupt t → s.ctl t ≠ .body i (.lock .myMutex2 :: k)

variable {bound : Worker → Nat} {s s' : State Worker}

/-- With two threads, a clean return of one is all the other needs: a mutex it
waits for has no owner left. -/
theorem clean_of_released (hheld : (threads id bound).HeldAsOwed s)
    (h : ∀ t, (s.ctl t).Done → ∀ l, s.locks l ≠ some t) : Clean bound s where
  released := h
  unblocked := by
    rintro t u htu hd ⟨i, l, k, hc, hforever⟩
    obtain ⟨v, hv⟩ := Option.ne_none_iff_exists'.mp (hforever [] s rfl)
    have hvt : v = t :=
      Worker.eq_of_ne_of_ne (Ne.symm htu) (owner_ne_of_waiting hheld hc hv)
    exact h t hd l (hvt ▸ hv)

/-- A step that interrupts no acquisition of `my_mutex2` keeps the state clean. -/
theorem clean_step (hinv : SectionInv (threads id bound) s) (h : Clean bound s)
    {e : Event Worker} (he : SparesMyMutex2 s e)
    (hs : (threads id bound).next s e = some s') : Clean bound s' := by
  have hinv' : SectionInv (threads id bound) s' := sectionInv_step bracketed counterGuarded hinv hs
  refine clean_of_released hinv'.held fun t hd l hl => ?_
  have howes := (hinv'.held l t).mp hl
  rcases done_of_step (step_of_next hs) hd with ⟨hd0, hsame⟩ | hrest | ⟨i, m, k, rfl, hc, hrest⟩
  · refine h.released t hd0 l ((hinv.held l t).mpr ?_)
    rw [rest] at howes ⊢
    rwa [← hsame]
  · have hout : owes l ((threads id bound).prog t) = false := (bracketed t l).owes_body
    rw [hrest, hout] at howes
    cases howes
  · cases m with
    | myMutex1 =>
      have hsuf := hinv'.ok.rest_suffix t
      rw [hrest] at hsuf
      rw [hrest, acquires_myMutex1 t _ hsuf rfl l] at howes
      cases howes
    | myMutex2 => exact he t i k rfl hc

/-- An interrupted acquisition of `my_mutex2` returns with `my_mutex1` locked. -/
theorem not_clean_of_interrupt (hinv : SectionInv (threads id bound) s) {e : Event Worker}
    (he : ¬ SparesMyMutex2 s e) (hs : (threads id bound).next s e = some s') :
    ¬ Clean bound s' := by
  intro h
  simp only [SparesMyMutex2, not_forall, not_not] at he
  obtain ⟨t, i, k, rfl, hc⟩ := he
  have hinv' : SectionInv (threads id bound) s' := sectionInv_step bracketed counterGuarded hinv hs
  have hsuf := hinv.ok.rest_suffix t
  rw [rest, hc, Ctl.rest_body] at hsuf
  cases step_of_next hs with
  | @interrupted _ j l k' hc' hi =>
    rw [hc] at hc'
    cases hc'
    have hctl : (s.goto t (.returned (-1) i (.lock .myMutex2 :: k))).ctl t
        = .returned (-1) i (.lock .myMutex2 :: k) := Function.update_self _ _ _
    refine h.released t (by rw [hctl]; trivial) .myMutex1 ((hinv'.held _ t).mpr ?_)
    rw [rest, hctl]
    exact (acquires_myMutex2 t _ hsuf rfl).1

/-- A thread that comes to `my_mutex1` after the other one returned from
`my_mutex2` waits for ever. -/
theorem waitsForever_of_interrupted (hinv : SectionInv (threads id bound) s) {t u : Worker}
    {i j : Nat} {k k' : Block MyMutexes (KOp Empty)}
    (ht : s.ctl t = .returned (-1) i (.lock .myMutex2 :: k))
    (hu : s.ctl u = .body j (.lock .myMutex1 :: k')) : WaitsForever bound s u := by
  have hsuf := hinv.ok.rest_suffix t
  rw [rest, ht, Ctl.rest_returned] at hsuf
  have howner : s.locks .myMutex1 = some t := by
    rw [hinv.held, rest, ht]
    exact (acquires_myMutex2 t _ hsuf rfl).1
  refine ⟨j, .myMutex1, k', hu, fun es s' hr => ?_⟩
  rw [owned_of_done rfl bracketed hinv.ok hinv.held (by rw [ht]; trivial) howner hr]
  exact Option.some_ne_none t

/-- **The error paths of deadlock_sol.c give back what they hold exactly when
no acquisition of `my_mutex2` is interrupted.** -/
theorem clean_iff (bound : Worker → Nat) (reg : Worker → KReg Unit) (gpio : Gpio)
    (es : List (Event Worker)) (s : State Worker)
    (hr : run (threads id bound).next (start reg gpio) es = some s) :
    Along (threads id bound).next (Clean bound) (start reg gpio) es ↔
      StepsMeet (threads id bound).next SparesMyMutex2 (start reg gpio) es :=
  along_iff_stepsMeet (B := SectionInv (threads id bound))
    (fun h hs => sectionInv_step bracketed counterGuarded h hs)
    (fun hB h hC hs => clean_step hB h hC hs)
    (fun hB _ hC hs => not_clean_of_interrupt hB hC hs)
    (sectionInv_init bracketed counterGuarded reg gpio ())
    (clean_of_released (heldAsOwed_init bracketed _ _) fun _ h => h.elim) hr

/-- The threads are clean all along `sequentialRun`. -/
theorem clean_sequential : Along (threads id fun _ => 1).next (Clean fun _ => 1)
    (start (fun _ => ⟨0, ()⟩) ⟨fun _ => 0, fun _ => false⟩) (sequentialRun.map .step) := by
  obtain ⟨s, hs, -⟩ := exists_run_of_any (threads id fun _ => 1).next
    (start (fun _ => ⟨0, ()⟩) ⟨fun _ => 0, fun _ => false⟩) (sequentialRun.map .step)
    (fun _ => true) (by decide)
  refine (clean_iff (fun _ => 1) (fun _ => ⟨0, ()⟩) ⟨fun _ => 0, fun _ => false⟩
    (sequentialRun.map .step) s hs).mpr (stepsMeet_of_mem (fun e he s t i k hint => ?_) _)
  obtain ⟨u, -, rfl⟩ := List.mem_map.mp he
  cases hint

/-- `thread1` takes `my_mutex1` and is interrupted at `my_mutex2`; `thread2` then
comes to `my_mutex1`. -/
def leakRun : List (Event Worker) :=
  [.step .thread1, .step .thread1, .interrupt .thread1, .step .thread2]

/-- After `leakRun`, `thread1` has returned owning `my_mutex1`, and `thread2`
waits for it for ever. -/
theorem leaks_myMutex1 :
    ∃ s, run (threads id fun _ => 5).next
        (start (fun _ => ⟨0, ()⟩) ⟨fun _ => 0, fun _ => false⟩) leakRun = some s ∧
      (s.ctl .thread1).Done ∧ s.locks .myMutex1 = some .thread1 ∧
      WaitsForever (fun _ => 5) s .thread2 ∧ ¬ Clean (fun _ => 5) s := by
  let t1 := Ctl.returned (-1) 0 (threadFunction1.drop 1)
  let t2 := Ctl.body 0 threadFunction2
  obtain ⟨s, hs, hp⟩ := exists_run_of_any (threads id fun _ => 5).next
    (start (fun _ => ⟨0, ()⟩) ⟨fun _ => 0, fun _ => false⟩) leakRun
    (fun s => decide (s.ctl .thread1 = t1 ∧ s.ctl .thread2 = t2 ∧
      s.locks .myMutex1 = some .thread1)) (by decide)
  obtain ⟨h1, h2, hl⟩ := of_decide_eq_true hp
  have hinv : SectionInv (threads id fun _ => 5) s := sectionInv_run bracketed counterGuarded hs
  have hwait : WaitsForever (fun _ => 5) s .thread2 := waitsForever_of_interrupted hinv h1 h2
  have hd : (s.ctl .thread1).Done := by rw [h1]; trivial
  exact ⟨s, hs, hd, hl, hwait, fun h => h.released .thread1 hd .myMutex1 hl⟩

end Esystem.DeadlockSol
