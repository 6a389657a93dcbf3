import Mathlib.Data.Fintype.Card
import Esystem.Core.LockDiscipline

/-!
# Looping threads that need a CPU

A family of looping threads on a machine with CPUs `C`. A thread makes steps
only while it has a CPU. It gives the CPU up when it sleeps and when it returns,
and may lose it to the scheduler, but not while it waits at an acquisition: it
spins there, and keeps its CPU until the lock is released.

- `Placed`: no CPU has two threads, and a returned thread has none.
- `sys_of_run`: on their CPUs, the threads do what they could do without.
- `canProgress_of_cpus`, `canProgress_of_unblocked`: a step that is possible
  without CPUs is possible with them, if there are as many CPUs as threads, or
  if nobody spins.
- `not_all_spin`: where some thread can progress, not every CPU spins.
-/

namespace Esystem

variable {ι C L A K R S : Type}

/-- The threads, and the CPU that each of them has. -/
structure Smp (ι C L A K R S : Type) where
  sys : LoopState ι L A K R S
  cpu : ι → Option C

/-- What the scheduler picks: a thread gets a CPU, loses its CPU, or makes its
next step on it. -/
inductive SmpEvent (ι C : Type) where
  | dispatch (t : ι) (c : C)
  | preempt (t : ι)
  | step (t : ι)
  deriving DecidableEq

namespace LoopSys

/-- The thread is at an acquisition that blocks. -/
def blocked (M : LoopSys ι L A K R S) (s : LoopState ι L A K R S) (t : ι) : Bool :=
  match s.ctl t with
  | .body _ (.lock l :: _) => (M.sync.acquire t l s.locks).isNone
  | _ => false

/-- The thread's next statement is one of those that sleep. -/
def atSleep (sleeps : A → Bool) (s : LoopState ι L A K R S) (t : ι) : Bool :=
  match s.ctl t with
  | .body _ (.act a :: _) => sleeps a
  | _ => false

end LoopSys

namespace Smp

open LoopSys

/-- Threads that start, none of them on a CPU. -/
def start (sys : LoopState ι L A K R S) : Smp ι C L A K R S where
  sys := sys
  cpu := fun _ => none

/-- No thread has CPU `c`. -/
def Free (s : Smp ι C L A K R S) (c : C) : Prop :=
  ∀ t, s.cpu t ≠ some c

instance [Fintype ι] [DecidableEq C] (s : Smp ι C L A K R S) : DecidablePred s.Free :=
  fun c => inferInstanceAs (Decidable (∀ t, s.cpu t ≠ some c))

variable [Fintype ι] [DecidableEq ι] [DecidableEq C] (M : LoopSys ι L A K R S)
  (sleeps : A → Bool)

/-- One event. -/
def next (s : Smp ι C L A K R S) : SmpEvent ι C → Option (Smp ι C L A K R S)
  | .dispatch t c =>
    if s.cpu t = none ∧ s.Free c ∧ ¬ (s.sys.ctl t).Done then
      some { s with cpu := Function.update s.cpu t (some c) }
    else none
  | .preempt t =>
    if s.cpu t ≠ none ∧ M.blocked s.sys t = false then
      some { s with cpu := Function.update s.cpu t none }
    else none
  | .step t =>
    if s.cpu t ≠ none then
      (M.next s.sys (.step t)).map fun sys' =>
        { sys := sys'
          cpu :=
            if atSleep sleeps s.sys t = true ∨ (sys'.ctl t).Done then
              Function.update s.cpu t none
            else s.cpu }
    else none

/-- The thread has a CPU, and spins on it. -/
def Spins (s : Smp ι C L A K R S) (t : ι) : Prop :=
  s.cpu t ≠ none ∧ M.blocked s.sys t = true

/-- Some thread can make its next step, on the CPU it has or on a free one. -/
def CanProgress (s : Smp ι C L A K R S) : Prop :=
  ∃ t, (∃ sys', M.next s.sys (.step t) = some sys') ∧ (s.cpu t ≠ none ∨ ∃ c, s.Free c)

variable {M sleeps} {s s' : Smp ι C L A K R S}

/-! ## Who has which CPU -/

/-- No CPU has two threads, and a thread that has returned has no CPU. -/
structure Placed (s : Smp ι C L A K R S) : Prop where
  apart : ∀ t u c, s.cpu t = some c → s.cpu u = some c → t = u
  done : ∀ t, (s.sys.ctl t).Done → s.cpu t = none

omit [Fintype ι] [DecidableEq ι] [DecidableEq C] in
theorem placed_start (sys : LoopState ι L A K R S) : Placed (start (C := C) sys) where
  apart _ _ _ h := by cases h
  done _ _ := rfl

omit [Fintype ι] [DecidableEq C] in
/-- Giving up a CPU leaves the others apart. -/
theorem apart_update_none {cpu : ι → Option C}
    (h : ∀ t u c, cpu t = some c → cpu u = some c → t = u) (v : ι) :
    ∀ t u c, Function.update cpu v none t = some c →
      Function.update cpu v none u = some c → t = u := by
  have hne : ∀ {t c}, Function.update cpu v none t = some c → cpu t = some c := by
    intro t c ht
    by_cases htv : t = v
    · rw [htv, Function.update_self] at ht
      cases ht
    · rwa [Function.update_of_ne htv] at ht
  intro t u c ht hu
  exact h t u c (hne ht) (hne hu)

/-- What one event does, case by case. -/
inductive Step (M : LoopSys ι L A K R S) (s : Smp ι C L A K R S) :
    SmpEvent ι C → Smp ι C L A K R S → Prop where
  | dispatch {t : ι} {c : C} (hoff : s.cpu t = none) (hfree : s.Free c)
      (hd : ¬ (s.sys.ctl t).Done) :
      Step M s (.dispatch t c) { s with cpu := Function.update s.cpu t (some c) }
  | preempt {t : ι} :
      Step M s (.preempt t) { s with cpu := Function.update s.cpu t none }
  | stay {t : ι} {sys' : LoopState ι L A K R S} (h : M.next s.sys (.step t) = some sys')
      (hd : ¬ (sys'.ctl t).Done) :
      Step M s (.step t) { s with sys := sys' }
  | giveUp {t : ι} {sys' : LoopState ι L A K R S} (h : M.next s.sys (.step t) = some sys') :
      Step M s (.step t) { sys := sys', cpu := Function.update s.cpu t none }

/-- Inversion of `next`. -/
theorem step_of_next {e : SmpEvent ι C} (h : next M sleeps s e = some s') : Step M s e s' := by
  cases e with
  | dispatch t c =>
    simp only [next] at h
    split at h
    · rename_i hguard
      cases h
      exact .dispatch hguard.1 hguard.2.1 hguard.2.2
    · cases h
  | preempt t =>
    simp only [next] at h
    split at h
    · cases h
      exact .preempt
    · cases h
  | step t =>
    simp only [next] at h
    split at h
    · obtain ⟨sys', hsys, rfl⟩ := Option.map_eq_some_iff.mp h
      split
      · exact .giveUp hsys
      · rename_i hkeep
        exact .stay hsys fun hd => hkeep (.inr hd)
    · cases h

/-- Every event keeps the threads placed. -/
theorem placed_step {e : SmpEvent ι C} (h : Placed s) (hs : next M sleeps s e = some s') :
    Placed s' := by
  -- a thread that has returned by now either had, or is the one that moved
  have hdone : ∀ {t u : ι} {sys' : LoopState ι L A K R S},
      M.next s.sys (.step t) = some sys' → u ≠ t → (sys'.ctl u).Done → s.cpu u = none := by
    intro t u sys' hsys hu hd
    rw [ctl_of_ne hsys hu] at hd
    exact h.done u hd
  cases step_of_next hs with
  | @dispatch t c hoff hfree hd =>
    constructor
    · intro u v d hu hv
      by_cases hut : u = t
      · by_cases hvt : v = t
        · rw [hut, hvt]
        · subst hut
          dsimp only at hu hv
          rw [Function.update_self] at hu
          rw [Function.update_of_ne hvt] at hv
          cases hu
          exact absurd hv (hfree v)
      · dsimp only at hu hv
        rw [Function.update_of_ne hut] at hu
        by_cases hvt : v = t
        · subst hvt
          rw [Function.update_self] at hv
          cases hv
          exact absurd hu (hfree u)
        · rw [Function.update_of_ne hvt] at hv
          exact h.apart u v d hu hv
    · intro u hu
      have hut : u ≠ t := by
        rintro rfl
        exact hd hu
      exact (Function.update_of_ne hut _ _).trans (h.done u hu)
  | @preempt t =>
    refine ⟨apart_update_none h.apart t, fun u hu => ?_⟩
    by_cases hut : u = t
    · rw [hut]
      exact Function.update_self _ _ _
    · exact (Function.update_of_ne hut _ _).trans (h.done u hu)
  | @stay t sys' hsys hd =>
    refine ⟨h.apart, fun u hu => ?_⟩
    by_cases hut : u = t
    · rw [hut] at hu
      exact absurd hu hd
    · exact hdone hsys hut hu
  | @giveUp t sys' hsys =>
    refine ⟨apart_update_none h.apart t, fun u hu => ?_⟩
    by_cases hut : u = t
    · rw [hut]
      exact Function.update_self _ _ _
    · exact (Function.update_of_ne hut _ _).trans (hdone hsys hut hu)

theorem placed_run {sys : LoopState ι L A K R S} {es : List (SmpEvent ι C)}
    (hr : run (next M sleeps) (start sys) es = some s) : Placed s :=
  run_inv (fun h hs => placed_step h hs) (placed_start sys) hr

/-- **On their CPUs the threads do what they could do without**: a run has a
schedule of the threads alone that leads to the same state of them. -/
theorem sys_of_run {es : List (SmpEvent ι C)} (hr : run (next M sleeps) s es = some s') :
    ∃ sched : List ι, run M.next s.sys (sched.map .step) = some s'.sys := by
  induction es generalizing s with
  | nil =>
    cases hr
    exact ⟨[], rfl⟩
  | cons e es ih =>
    obtain ⟨m, hm, hrest⟩ := run_cons_inv hr
    obtain ⟨sched, hsched⟩ := ih hrest
    have hmoved : ∀ {t : ι}, M.next s.sys (.step t) = some m.sys →
        ∃ sched : List ι, run M.next s.sys (sched.map .step) = some s'.sys :=
      fun {t} h => ⟨t :: sched, (run_cons_some h).mpr hsched⟩
    cases step_of_next hm with
    | dispatch _ _ _ => exact ⟨sched, hsched⟩
    | preempt => exact ⟨sched, hsched⟩
    | stay h _ => exact hmoved h
    | giveUp h => exact hmoved h

/-! ## When CPUs are no obstacle -/

omit [DecidableEq ι] [DecidableEq C] in
/-- With as many CPUs as threads, a thread without a CPU leaves one free. -/
theorem exists_free [Fintype C] (hcard : Fintype.card ι ≤ Fintype.card C) {t : ι}
    (ht : s.cpu t = none) : ∃ c, s.Free c := by
  by_contra hno
  -- otherwise each CPU has a thread, other than `t`, and they are all different
  have hall : ∀ c, ∃ u, s.cpu u = some c := by
    intro c
    by_contra hc
    exact hno ⟨c, fun u hu => hc ⟨u, hu⟩⟩
  choose user huser using hall
  have hinj : Function.Injective user := by
    intro c d hcd
    have hc := huser c
    rw [hcd, huser d] at hc
    exact (Option.some.inj hc).symm
  have hne : ∀ c, user c ≠ t := by
    intro c hc
    have hu := huser c
    rw [hc, ht] at hu
    cases hu
  have hlt := Fintype.card_lt_of_injective_of_notMem user hinj (b := t) (by
    rintro ⟨c, hc⟩
    exact hne c hc)
  omega

omit [DecidableEq C] in
/-- With as many CPUs as threads, a step that is possible without CPUs is
possible with them. -/
theorem canProgress_of_cpus [Fintype C] (hcard : Fintype.card ι ≤ Fintype.card C)
    (hstep : ∃ t sys', M.next s.sys (.step t) = some sys') : CanProgress M s := by
  obtain ⟨t, hsys⟩ := hstep
  refine ⟨t, hsys, ?_⟩
  by_cases ht : s.cpu t = none
  · exact .inr (exists_free hcard ht)
  · exact .inl ht

omit [Fintype ι] [DecidableEq C] in
/-- With a CPU at all and nobody at an acquisition that blocks, some thread can
progress until all have returned. -/
theorem canProgress_of_unblocked [Nonempty C] (h : Placed s)
    (hfree : ∀ t, M.blocked s.sys t = false) (hsome : ∃ t, ¬ (s.sys.ctl t).Done) :
    CanProgress M s := by
  have hstep : ∀ t, ¬ (s.sys.ctl t).Done → ∃ sys', M.next s.sys (.step t) = some sys' := by
    intro t ht
    rcases can_step_or_blocked (M := M) ht with hs | ⟨i, l, k, hc, ha⟩
    · exact hs
    · have hblocked := hfree t
      unfold blocked at hblocked
      rw [hc] at hblocked
      dsimp only at hblocked
      rw [ha] at hblocked
      cases hblocked
  by_cases hon : ∃ u, s.cpu u ≠ none
  · -- whoever has a CPU has not returned
    obtain ⟨u, hu⟩ := hon
    exact ⟨u, hstep u fun hd => hu (h.done u hd), .inl hu⟩
  · obtain ⟨t, ht⟩ := hsome
    obtain ⟨c⟩ := ‹Nonempty C›
    refine ⟨t, hstep t ht, .inr ⟨c, fun u hu => hon ⟨u, ?_⟩⟩⟩
    rw [hu]
    exact Option.some_ne_none c

omit [Fintype ι] [DecidableEq C] in
/-- A thread that can progress does not spin, so not every CPU has a thread that
spins. -/
theorem not_all_spin (h : Placed s) (hp : CanProgress M s) :
    ¬ ∀ c, ∃ t, s.cpu t = some c ∧ Spins M s t := by
  intro hall
  obtain ⟨t, ⟨sys', hsys⟩, hcpu⟩ := hp
  have hnot : M.blocked s.sys t = false := by
    unfold blocked
    split
    · rename_i i l k hc
      simp only [LoopSys.next, hc, Option.map_eq_some_iff] at hsys
      obtain ⟨K', ha, -⟩ := hsys
      rw [ha]
      rfl
    · rfl
  rcases hcpu with hon | ⟨c, hfree⟩
  · obtain ⟨c, hc⟩ := Option.ne_none_iff_exists'.mp hon
    obtain ⟨u, hu, hspins⟩ := hall c
    rw [h.apart u t c hu hc] at hspins
    rw [hspins.2] at hnot
    cases hnot
  · obtain ⟨u, hu, -⟩ := hall c
    exact hfree u hu

end Smp

end Esystem
