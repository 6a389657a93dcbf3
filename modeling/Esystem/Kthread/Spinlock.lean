import Esystem.Core.Smp
import Esystem.Kthread.Programs

/-!
# The spin lock of spinlock.c and the CPUs

The threads of spinlock.c sleep while they hold `my_spinlock`. A thread that
spins on the lock keeps its CPU, and a sleeper needs a CPU to go on, so the
lock's holder can be shut out.

- `lockedUp_of_one_cpu`: with one CPU, it is.
- `live_iff`: with two or more CPUs it never is.
-/

namespace Esystem.Spinlock

open LoopSys Smp

/-- The threads of the module on CPUs `C`. -/
abbrev Cpus (C : Type) : Type :=
  Smp Worker C MySpinlock (KOp Empty) (MySpinlock → Option Worker) (KReg Unit) (KShared Unit)

/-- `msleep` gives up the CPU. -/
def isMsleep : KOp Empty → Bool
  | .msleep _ => true
  | _ => false

/-- The state in which `spinlock_module_init` starts the threads. -/
def start {C : Type} (reg : Worker → KReg Unit) (gpio : Gpio) : Cpus C :=
  Smp.start (init reg (fun _ => none) ⟨0, gpio, ()⟩)

variable {C : Type}

/-- A thread spins on `my_spinlock`, the holder of the lock has no CPU, and all
CPUs have threads that spin. -/
structure LockedUp (bound : Worker → Nat) (s : Cpus C) : Prop where
  spinning : ∃ t, Spins (threads bound) s t
  holderOff : ∃ u, s.sys.locks .mySpinlock = some u ∧ s.cpu u = none
  allSpin : ∀ c, ∃ t, s.cpu t = some c ∧ Spins (threads bound) s t

theorem bracketed (w : Worker) (l : MySpinlock) : LockBracketed (threadFunction w) l := by
  cases w <;> cases l <;> decide

/-- The only lock is acquired with nothing held. -/
theorem acquires_with_nothing (w : Worker) (l m : MySpinlock) : AtEach
    (fun k => k.head? = some (.lock l) → owes m k = false) (threadFunction w) := by
  cases w <;> cases l <;> cases m <;> decide

variable [DecidableEq C] {bound : Worker → Nat} {s : Cpus C}

/-- A thread on its CPU goes into its first round. -/
theorem enter_on_cpu (bound : Worker → Nat) {t : Worker} (hc : s.sys.ctl t = .head 0)
    (hb : 0 < bound t) (hcpu : s.cpu t ≠ none) : Smp.next (threads bound) isMsleep s (.step t)
      = some { s with sys := s.sys.goto t (.body 0 (threadFunction t)) } := by
  have hnext : (threads bound).next s.sys (.step t)
      = some (s.sys.goto t (.body 0 (threadFunction t))) := by
    simp only [LoopSys.next, hc]
    exact if_pos hb
  have hctl : (s.sys.goto t (.body 0 (threadFunction t))).ctl t = .body 0 (threadFunction t) :=
    Function.update_self _ _ _
  have hkeep : ¬ (atSleep isMsleep s.sys t = true ∨
      ((s.sys.goto t (.body 0 (threadFunction t))).ctl t).Done) := by
    rw [hctl, atSleep, hc]
    rintro (h | h)
    · cases h
    · exact h
  simp only [Smp.next, if_pos hcpu, hnext, Option.map_some, if_neg hkeep]

/-- On one CPU, `thread1` runs until it sleeps with the lock, and `thread2` runs
until it spins. -/
theorem lockedUp_of_one_cpu (bound : Worker → Nat) (reg : Worker → KReg Unit) (gpio : Gpio) {c : C}
    (hone : ∀ d, d = c) (h1 : 0 < bound .thread1) (h2 : 0 < bound .thread2) :
    ∃ (es : List (SmpEvent Worker C)) (s : Cpus C),
      run (Smp.next (threads bound) isMsleep) (start reg gpio) es = some s ∧
      LockedUp bound s := by
  -- `thread1` gets the CPU and goes into its first round
  let s₁ : Cpus C :=
    { start (C := C) reg gpio with cpu := Function.update (fun _ => none) .thread1 (some c) }
  have hr₁ : Smp.next (threads bound) isMsleep (start reg gpio) (.dispatch .thread1 c)
      = some s₁ := rfl
  have hr₂ := enter_on_cpu bound (s := s₁) (t := .thread1) rfl h1
    (Option.some_ne_none c)
  let s₂ : Cpus C := { s₁ with sys := s₁.sys.goto .thread1 (.body 0 (threadFunction .thread1)) }
  -- its next six statements end with the first `msleep`, and `thread2` gets the CPU
  obtain ⟨s₃, hr₃, hcpu, hctl, hoff, hlock⟩ : ∃ s₃ : Cpus C,
      run (Smp.next (threads bound) isMsleep) s₂
        (List.replicate 6 (.step .thread1) ++ [.dispatch .thread2 c]) = some s₃ ∧
      s₃.cpu .thread2 = some c ∧ s₃.sys.ctl .thread2 = .head 0 ∧ s₃.cpu .thread1 = none ∧
      s₃.sys.locks .mySpinlock = some .thread1 := ⟨_, rfl, rfl, rfl, rfl, rfl⟩
  -- `thread2` comes to the lock
  have hon : s₃.cpu .thread2 ≠ none := by
    rw [hcpu]
    exact Option.some_ne_none c
  have hr₄ := enter_on_cpu bound hctl h2 hon
  have hspins : Spins (threads bound)
      { s₃ with sys := s₃.sys.goto .thread2 (.body 0 (threadFunction .thread2)) } .thread2 := by
    refine ⟨hon, ?_⟩
    have hblocked : (threads bound).sync.acquire .thread2 .mySpinlock s₃.sys.locks = none :=
      if_neg (by rw [hlock]; exact Option.some_ne_none _)
    exact congrArg Option.isNone hblocked
  refine ⟨.dispatch .thread1 c :: .step .thread1 ::
    ((List.replicate 6 (.step .thread1) ++ [.dispatch .thread2 c]) ++ [.step .thread2]), _,
    (run_cons_some hr₁).mpr ((run_cons_some hr₂).mpr
      (run_append_some hr₃ ((run_cons_some hr₄).mpr rfl))), ?_⟩
  exact
    { spinning := ⟨.thread2, hspins⟩
      holderOff := ⟨.thread1, hlock, hoff⟩
      allSpin := fun d => ⟨.thread2, by rw [hone d]; exact hcpu, hspins⟩ }

/-! ## Every run -/

omit [DecidableEq C] in
/-- Where all threads have returned or some thread can progress, the CPUs are not
locked up. -/
theorem not_lockedUp (hplaced : Placed s)
    (h : (∀ t, (s.sys.ctl t).Done) ∨ CanProgress (threads bound) s) : ¬ LockedUp bound s := by
  intro hlocked
  rcases h with hdone | hp
  · obtain ⟨t, hcpu, -⟩ := hlocked.spinning
    exact hcpu (hplaced.done t (hdone t))
  · exact not_all_spin hplaced hp hlocked.allSpin

/-- What the threads are up to in every run, on whatever CPUs. -/
theorem inv_of_run {reg : Worker → KReg Unit} {gpio : Gpio} {es : List (SmpEvent Worker C)}
    (hr : run (Smp.next (threads bound) isMsleep) (start reg gpio) es = some s) :
    Placed s ∧ (threads bound).AllOk s.sys ∧ (threads bound).HeldAsOwed s.sys ∧
      ∀ t, (s.sys.ctl t).Done → s.sys.ctl t = .returned 0 (bound t) (threadFunction t) := by
  obtain ⟨sched, hsched⟩ := sys_of_run hr
  obtain ⟨hok, hheld⟩ := held_run (X := threads bound) rfl bracketed (allOk_init _ _ _)
    (heldAsOwed_init bracketed _ _) hsched
  exact ⟨placed_run hr, hok, hheld, fun t ht => returned_of_steps hsched ht⟩

/-- A thread with an empty loop never takes the lock, so nobody finds it taken by
another thread. -/
theorem unblocked_of_bound_zero {x : LoopState Worker MySpinlock (KOp Empty)
      (MySpinlock → Option Worker) (KReg Unit) (KShared Unit)}
    (hok : (threads bound).AllOk x) (hheld : (threads bound).HeldAsOwed x)
    (hzero : bound .thread1 = 0 ∨ bound .thread2 = 0) (t : Worker) :
    (threads bound).blocked x t = false := by
  have howner : ∀ {l u}, x.locks l = some u → bound u ≠ 0 := by
    intro l u hl hu
    have howes := (hheld l u).mp hl
    have hu' : (x.ctl u).Ok (threadFunction u) 0 := hu ▸ hok u
    rw [rest, show (threads bound).prog u = threadFunction u from rfl, hu'.rest_of_bound_zero,
      (bracketed u l).owes_body] at howes
    cases howes
  unfold blocked
  split
  · rename_i i l k hc
    have hpos : bound t ≠ 0 := by
      obtain ⟨hi, -⟩ := hok.of_body hc
      exact Nat.ne_of_gt (Nat.lt_of_le_of_lt (Nat.zero_le i) hi)
    have hfree : x.locks l = none := by
      cases hl : x.locks l with
      | none => rfl
      | some u =>
        -- two threads, both with a loop that is not empty
        have hut := owner_ne_of_waiting hheld hc hl
        have hu := howner hl
        cases t <;> cases u <;> simp_all
    have hgo : (threads bound).sync.acquire t l x.locks
        = some (Function.update x.locks l (some t)) := if_pos hfree
    rw [hgo]
    rfl
  · rfl

/-- Without CPUs to care about, the threads always have a step until both have
returned. -/
theorem progress {x : LoopState Worker MySpinlock (KOp Empty)
      (MySpinlock → Option Worker) (KReg Unit) (KShared Unit)}
    (hok : (threads bound).AllOk x) (hheld : (threads bound).HeldAsOwed x)
    (hend : ∀ t, (x.ctl t).Done → x.ctl t = .returned 0 (bound t) (threadFunction t)) :
    (∀ t, (x.ctl t).Done) ∨ ∃ t x', (threads bound).next x (.step t) = some x' := by
  -- the lock is acquired with nothing held, so no order on locks is needed
  have hwf : WellFounded fun _ _ : MySpinlock => False := ⟨fun l => ⟨l, fun m h => h.elim⟩⟩
  refine progress_of_ordered rfl hwf
    (fun t l k hk m hm => ?_) hok hheld fun t ht l => ?_
  · rw [acquires_with_nothing t l m _ hk rfl] at hm
    cases hm
  · exact owes_of_returned (bracketed t l) (hend t ht)

/-- **The CPUs never lock up, in any run, exactly if there are at least two of
them or one of the threads has an empty loop.** -/
theorem live_iff (C : Type) [Fintype C] [DecidableEq C] (hC : 1 ≤ Fintype.card C)
    (bound : Worker → Nat) (reg : Worker → KReg Unit) (gpio : Gpio) :
    (∀ (es : List (SmpEvent Worker C)) (s : Cpus C),
      run (Smp.next (threads bound) isMsleep) (start reg gpio) es = some s →
      ¬ LockedUp bound s ∧
      ((∀ t, (s.sys.ctl t).Done) ∨ CanProgress (threads bound) s)) ↔
    2 ≤ Fintype.card C ∨ bound .thread1 = 0 ∨ bound .thread2 = 0 := by
  constructor
  · intro hlive
    by_contra hno
    simp only [not_or, Nat.not_le] at hno
    obtain ⟨hone, h1, h2⟩ := hno
    obtain ⟨c, hc⟩ := Fintype.card_eq_one_iff.mp (show Fintype.card C = 1 by omega)
    obtain ⟨es, s, hr, hlocked⟩ := lockedUp_of_one_cpu bound reg gpio hc (Nat.pos_of_ne_zero h1)
      (Nat.pos_of_ne_zero h2)
    exact (hlive es s hr).1 hlocked
  · intro hcond es s hr
    obtain ⟨hplaced, hok, hheld, hend⟩ := inv_of_run hr
    have hprogress : (∀ t, (s.sys.ctl t).Done) ∨ CanProgress (threads bound) s := by
      rcases hcond with htwo | hzero
      · rcases progress hok hheld hend with hdone | hstep
        · exact .inl hdone
        · exact .inr (canProgress_of_cpus (le_of_eq_of_le rfl htwo) hstep)
      · by_cases hdone : ∀ t, (s.sys.ctl t).Done
        · exact .inl hdone
        · have : Nonempty C := Fintype.card_pos_iff.mp hC
          exact .inr (canProgress_of_unblocked hplaced (unblocked_of_bound_zero hok hheld hzero)
            (not_forall.mp hdone))
    exact ⟨not_lockedUp hplaced hprogress, hprogress⟩

/-- The four CPUs of the board. -/
inductive BoardCpu where
  | cpu0
  | cpu1
  | cpu2
  | cpu3
  deriving DecidableEq

instance : Fintype BoardCpu where
  elems := {.cpu0, .cpu1, .cpu2, .cpu3}
  complete c := by cases c <;> decide

/-- `thread1` runs until it sleeps with the lock, and `thread2` comes to the lock
on another CPU. -/
def sleepRun : List (SmpEvent Worker BoardCpu) :=
  .dispatch .thread1 .cpu0 :: List.replicate 7 (.step .thread1) ++
    [.dispatch .thread2 .cpu1, .step .thread2]

/-- On the board, `thread1` can go on. -/
theorem live_sleepRun : ∃ s : Cpus BoardCpu,
    run (Smp.next (threads fun _ => 5) isMsleep)
      (start (fun _ => ⟨0, ()⟩) ⟨fun _ => 0, fun _ => false⟩) sleepRun = some s ∧
    s.cpu .thread1 = none ∧ CanProgress (threads fun _ => 5) s := by
  obtain ⟨s, hs, hp⟩ := exists_run_of_any (Smp.next (threads fun _ => 5) isMsleep)
    (start (fun _ => ⟨0, ()⟩) ⟨fun _ => 0, fun _ => false⟩) sleepRun
    (fun s => decide (s.cpu .thread1 = none ∧ ¬ (s.sys.ctl .thread1).Done)) (by decide)
  obtain ⟨hoff, hnot⟩ := of_decide_eq_true hp
  have hlive := (live_iff BoardCpu (by decide) (fun _ => 5) (fun _ => ⟨0, ()⟩)
    ⟨fun _ => 0, fun _ => false⟩).mpr (.inl (by decide)) sleepRun s hs
  exact ⟨s, hs, hoff, hlive.2.resolve_left fun hdone => hnot (hdone .thread1)⟩

/-- With one CPU, the module locks it up, and no thread can progress. -/
theorem locks_up_one_cpu : ∃ (es : List (SmpEvent Worker Unit)) (s : Cpus Unit),
    run (Smp.next (threads fun _ => 5) isMsleep)
      (start (fun _ => ⟨0, ()⟩) ⟨fun _ => 0, fun _ => false⟩) es = some s ∧
    LockedUp (fun _ => 5) s ∧
    ¬ ((∀ t, (s.sys.ctl t).Done) ∨ CanProgress (threads fun _ => 5) s) := by
  obtain ⟨es, s, hr, hlocked⟩ := lockedUp_of_one_cpu (fun _ => 5)
    (fun _ => ⟨0, ()⟩) ⟨fun _ => 0, fun _ => false⟩ (c := ()) (fun _ => rfl) (by decide)
    (by decide)
  exact ⟨es, s, hr, hlocked, fun hlive => not_lockedUp (placed_run hr) hlive hlocked⟩

end Esystem.Spinlock
