import Esystem.Core.Alone
import Esystem.Kthread.CriticalSection
import Esystem.Kthread.Programs

/-!
# The deadlock of deadlock.c

`thread_function1` takes `my_mutex1` first and `thread_function2` takes
`my_mutex2` first, each in order to hold both.

- `stuck_iff_deadlocked`: the only way to be stuck before both threads have
  returned is that each holds its first mutex and waits for the other one.
- `deadlock_from`: that state is reached after any numbers of completed rounds.
- `deadlocks_exactly`: both, with the value of `shared_counter`.
-/

namespace Esystem.Deadlock

open LoopSys Kthread

/-- The states of the two threads. -/
abbrev State : Type :=
  LoopState Worker MyMutexes (KOp Empty) (MyMutexes → Option Worker) (KReg Unit) (KShared Unit)

/-- The state in which `mutex_module_init` starts the threads. -/
def start (reg : Worker → KReg Unit) (gpio : Gpio) : State :=
  init reg (fun _ => none) ⟨0, gpio, ()⟩

/-- The mutex a thread takes first. -/
def firstMutex : Worker → MyMutexes
  | .thread1 => .myMutex1
  | .thread2 => .myMutex2

/-- The mutex a thread takes second. -/
def secondMutex : Worker → MyMutexes
  | .thread1 => .myMutex2
  | .thread2 => .myMutex1

/-- `thread1` holds `my_mutex1` and waits for `my_mutex2`, and `thread2` holds
`my_mutex2` and waits for `my_mutex1`. -/
structure Deadlocked (s : State) : Prop where
  owns : ∀ t, s.locks (firstMutex t) = some t
  waits : ∀ t, ∃ i k, s.ctl t = .body i (.lock (secondMutex t) :: k)

/-! ## The bodies, by evaluation -/

theorem bracketed (w : Worker) (l : MyMutexes) : LockBracketed (threadFunction w) l := by
  cases w <;> cases l <;> decide

theorem counterGuarded (w : Worker) :
    CounterGuarded MyMutexes.myMutex2 (threadFunction w) := by
  cases w <;> decide

/-- Who holds `m` where it acquires `l` acquires its second mutex and holds its
first. -/
theorem acquires_second (w : Worker) (l m : MyMutexes) : AtEach
    (fun k => k.head? = some (.lock l) → owes m k = true →
      l = secondMutex w ∧ m = firstMutex w)
    (threadFunction w) := by
  cases w <;> cases l <;> cases m <;> decide

theorem countP_isStore (w : Worker) : (threadFunction w).countP isStore = 1 := by
  cases w <;> rfl

/-- `shared_counter` is stored after the second acquisition of the round. -/
theorem stores_after_second (w : Worker) : AtEach
    (fun k => k.head? = some (.lock (secondMutex w)) → k.countP isStore = 1)
    (threadFunction w) := by
  cases w <;> decide

/-- A whole round gives back what it takes. -/
theorem locksAfter_round (w : Worker) :
    (exclusive true).locksAfter w (threadFunction w) (fun _ : MyMutexes => none)
      = some fun _ => none := by
  cases w with
  | thread1 =>
    refine congrArg some (funext fun l => ?_)
    cases l <;> rfl
  | thread2 =>
    refine congrArg some (funext fun l => ?_)
    cases l <;> rfl

variable {bound : Worker → Nat} {s : State}

/-! ## Every stuck state -/

/-- A thread that has not returned and cannot step waits for a mutex that the
other thread owns. -/
theorem waits_for_other (hheld : (threads bound).HeldAsOwed s) {t : Worker}
    (hd : ¬ (s.ctl t).Done) (hstuck : (threads bound).next s (.step t) = none) :
    ∃ i l k u, s.ctl t = .body i (.lock l :: k) ∧ u ≠ t ∧ s.locks l = some u := by
  rcases can_step_or_blocked (M := threads bound) hd with ⟨s', hs'⟩ | ⟨i, l, k, hc, ha⟩
  · rw [hstuck] at hs'
    cases hs'
  · obtain ⟨u, hu⟩ := owner_of_blocked (X := threads bound) rfl ha
    exact ⟨i, l, k, u, hc, owner_ne_of_waiting hheld hc hu, hu⟩

/-- **The only way to be stuck**: in a state in which the threads hold what they
owe and a returned thread holds nothing, nobody can step before both have
returned exactly when the threads wait for each other's first mutex. -/
theorem stuck_iff_deadlocked (hok : (threads bound).AllOk s)
    (hheld : (threads bound).HeldAsOwed s)
    (hret : ∀ t, (s.ctl t).Done → ∀ l, s.locks l ≠ some t) (hsome : ∃ t, ¬ (s.ctl t).Done) :
    (∀ t, (threads bound).next s (.step t) = none) ↔ Deadlocked s := by
  constructor
  · intro hstuck
    obtain ⟨t, ht⟩ := hsome
    obtain ⟨i, l, k, u, hct, hut, hl⟩ := waits_for_other hheld ht (hstuck t)
    have hu : ¬ (s.ctl u).Done := fun hd => hret u hd l hl
    obtain ⟨j, m, k', v, hcu, hvu, hm⟩ := waits_for_other hheld hu (hstuck u)
    rw [Worker.eq_of_ne_of_ne hut hvu] at hm
    -- each holds the mutex that the other one waits for, so it is at its second
    have hsecond : ∀ {t i l m k}, s.ctl t = .body i (.lock l :: k) → s.locks m = some t →
        s.locks (firstMutex t) = some t ∧
          ∃ i k, s.ctl t = .body i (.lock (secondMutex t) :: k) := by
      intro t i l m k hc hm
      have hrest : (threads bound).rest s t = .lock l :: k := by rw [rest, hc]; rfl
      have howes := (hheld m t).mp hm
      have hsuf := hok.rest_suffix t
      rw [hrest] at howes hsuf
      obtain ⟨rfl, rfl⟩ := acquires_second t l m _ hsuf rfl howes
      exact ⟨hm, i, k, hc⟩
    have htwo : ∀ w, w = t ∨ w = u := by
      intro w
      by_cases hw : w = u
      · exact .inr hw
      · exact .inl (Worker.eq_of_ne_of_ne hut hw)
    constructor
    · intro w
      rcases htwo w with rfl | rfl
      · exact (hsecond hct hm).1
      · exact (hsecond hcu hl).1
    · intro w
      rcases htwo w with rfl | rfl
      · exact (hsecond hct hm).2
      · exact (hsecond hcu hl).2
  · intro h t
    obtain ⟨i, k, hc⟩ := h.waits t
    obtain ⟨u, hu⟩ : ∃ u, s.locks (secondMutex t) = some u := by
      cases t with
      | thread1 => exact ⟨.thread2, h.owns .thread2⟩
      | thread2 => exact ⟨.thread1, h.owns .thread1⟩
    have hblocked : (threads bound).sync.acquire t (secondMutex t) s.locks = none :=
      if_neg (by rw [hu]; exact Option.some_ne_none u)
    simp only [next, hc, hblocked, Option.map_none]

/-- In a deadlock, `shared_counter` is the number of completed rounds. -/
theorem sharedCounter_of_deadlocked (hinv : SectionInv (threads bound) s) (h : Deadlocked s) :
    s.shared.sharedCounter
      = BitVec.ofNat 32 ((s.ctl .thread1).round + (s.ctl .thread2).round) := by
  have hperf : ∀ t, (s.ctl t).performed isStore (threadFunction t) = (s.ctl t).round := by
    intro t
    obtain ⟨i, k, hc⟩ := h.waits t
    have hsuf := hinv.ok.rest_suffix t
    rw [rest, hc, Ctl.rest_body] at hsuf
    rw [hc, Ctl.performed, Ctl.rest_body, stores_after_second t _ hsuf rfl, countP_isStore]
    exact Nat.mul_one _
  have htotal : (threads bound).total isStore s
      = (s.ctl .thread1).round + (s.ctl .thread2).round := by
    rw [total, sum_worker]
    exact congrArg₂ (· + ·) (hperf .thread1) (hperf .thread2)
  rw [hinv.counter.count, htotal]

/-! ## A schedule into the deadlock, after any numbers of rounds -/

/-- The threads can deadlock after `a` and `b` rounds. -/
theorem deadlock_from (reg : Worker → KReg Unit) (gpio : Gpio) {a b : Nat}
    (ha : a < bound .thread1) (hb : b < bound .thread2) :
    ∃ s, (threads bound).Leads (start reg gpio) s ∧ Deadlocked s ∧
      (s.ctl .thread1).round = a ∧ (s.ctl .thread2).round = b := by
  -- `a` rounds of `thread1`, then `b` rounds of `thread2`
  obtain ⟨s₁, hr₁, hc₁, hl₁⟩ := leads_rounds (M := threads bound) (s := start reg gpio)
    (t := .thread1) (i := 0) (n := a) (locksAfter_round .thread1) rfl rfl
    (by rw [Nat.zero_add]; exact Nat.le_of_lt ha)
  obtain ⟨s₂, hr₂, hc₂, hl₂⟩ := leads_rounds (M := threads bound) (s := s₁)
    (t := .thread2) (i := 0) (n := b) (locksAfter_round .thread2) (by rw [hc₁]; rfl) hl₁
    (by rw [Nat.zero_add]; exact Nat.le_of_lt hb)
  -- `thread1` takes `my_mutex1` and sleeps, `thread2` takes `my_mutex2`
  have htake₁ : (threads bound).sync.locksAfter .thread1 (threadFunction1.take 2) s₂.locks
      = some (Function.update (fun _ => none) .myMutex1 (some .thread1)) := by
    rw [hl₂]
    rfl
  obtain ⟨s₃, hr₃, hc₃, hl₃⟩ := leads_into_round (M := threads bound) (i := a)
    (k := threadFunction1.drop 2) (by rw [hc₂, hc₁, Nat.zero_add]; rfl) ha rfl htake₁
  have htake₂ : (threads bound).sync.locksAfter .thread2 (threadFunction2.take 1) s₃.locks
      = some (Function.update (Function.update (fun _ => none) .myMutex1 (some .thread1))
          .myMutex2 (some .thread2)) := by
    rw [hl₃]
    rfl
  obtain ⟨s₄, hr₄, hc₄, hl₄⟩ := leads_into_round (M := threads bound) (i := b)
    (k := threadFunction2.drop 1) (by rw [hc₃, hc₂, Nat.zero_add]; rfl) hb rfl htake₂
  have h1 : s₄.ctl .thread1 = .body a (threadFunction1.drop 2) := by
    rw [hc₄, hc₃]
    rfl
  have h2 : s₄.ctl .thread2 = .body b (threadFunction2.drop 1) := by
    rw [hc₄]
    rfl
  refine ⟨s₄, ((hr₁.trans hr₂).trans hr₃).trans hr₄, ?_, by rw [h1]; rfl, by rw [h2]; rfl⟩
  constructor
  · intro t
    rw [hl₄]
    cases t <;> rfl
  · intro t
    cases t with
    | thread1 => exact ⟨a, _, h1⟩
    | thread2 => exact ⟨b, _, h2⟩

/-- **deadlock.c deadlocks exactly so**: without interrupted acquisitions, a
state in which some thread has not returned is stuck exactly when the threads
wait for each other's first mutex, and that happens after any numbers of
completed rounds, which `shared_counter` then counts. -/
theorem deadlocks_exactly (bound : Worker → Nat) (reg : Worker → KReg Unit) (gpio : Gpio) :
    (∀ (sched : List Worker) s,
      run (threads bound).next (start reg gpio) (sched.map .step) = some s →
      (∃ t, ¬ (s.ctl t).Done) →
      ((∀ t, (threads bound).next s (.step t) = none) ↔ Deadlocked s)) ∧
    ∀ a b, a < bound .thread1 → b < bound .thread2 →
      ∃ (sched : List Worker) (s : State),
        run (threads bound).next (start reg gpio) (sched.map .step) = some s ∧
        Deadlocked s ∧ (s.ctl .thread1).round = a ∧ (s.ctl .thread2).round = b ∧
        s.shared.sharedCounter = BitVec.ofNat 32 (a + b) ∧
        (a + b < 2 ^ 31 → s.shared.sharedCounter.toInt = a + b) := by
  constructor
  · intro sched s hr hsome
    have hinv : SectionInv (threads bound) s := sectionInv_run bracketed counterGuarded hr
    refine stuck_iff_deadlocked hinv.ok hinv.held (fun t hd l hl => ?_) hsome
    have howes := (hinv.held l t).mp hl
    rw [owes_of_returned (bracketed t l) (returned_of_steps hr hd)] at howes
    cases howes
  · intro a b ha hb
    obtain ⟨s, ⟨sched, hr⟩, hdead, h1, h2⟩ := deadlock_from reg gpio ha hb
    have hcount := sharedCounter_of_deadlocked (sectionInv_run bracketed counterGuarded hr) hdead
    rw [h1, h2] at hcount
    refine ⟨sched, s, hr, hdead, h1, h2, hcount, fun hlt => ?_⟩
    rw [hcount, toInt_ofNat hlt]
    exact Nat.cast_add a b

/-- As the module stands, with both threads in their last round. -/
theorem deadlocks_in_last_round : ∃ (sched : List Worker) (s : State),
    run (threads fun _ => 5).next
      (start (fun _ => ⟨0, ()⟩) ⟨fun _ => 0, fun _ => false⟩) (sched.map .step) = some s ∧
    Deadlocked s ∧ s.shared.sharedCounter.toInt = 8 := by
  obtain ⟨-, hreach⟩ := deadlocks_exactly (fun _ => 5) (fun _ => ⟨0, ()⟩)
    ⟨fun _ => 0, fun _ => false⟩
  obtain ⟨sched, s, hr, hdead, -, -, -, hcount⟩ := hreach 4 4 (by decide) (by decide)
  exact ⟨sched, s, hr, hdead, hcount (by decide)⟩

end Esystem.Deadlock
