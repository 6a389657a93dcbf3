import Esystem.Core.Alone
import Esystem.Core.LockDiscipline

/-!
# Systems whose runs end

A *variant* is a number that every step lowers. It bounds the length of all
runs, so that no assumption on the scheduler is needed for a run to come to an
end: a scheduler that picks any event that can happen, as long as one can, stops
after that many events.

- `Variant.length_le`, `Variant.exists_stuck`: the rule for a step function.
- `Ctl.work`: what a looping thread has still to do, in steps. Each step of a
  thread is one less (`work_step`), and an interrupted acquisition drops all of
  the thread's work.
- `LoopSys.completes`: if always some thread can step until all have returned,
  then all of them do return.
- `LoopSys.leads_alone`: a thread can return alone, if the others own no lock.
-/

namespace Esystem

universe u v

variable {σ : Type u} {α : Type v} {next : σ → α → Option σ}

/-! ## Variants -/

/-- Nothing can happen in `s`. -/
def Stuck (next : σ → α → Option σ) (s : σ) : Prop :=
  ∀ a, next s a = none

/-- `V` is lowered by every step from a state with `I`, which steps keep. -/
structure Variant (next : σ → α → Option σ) (I : σ → Prop) (V : σ → Nat) : Prop where
  keeps : ∀ {s a t}, I s → next s a = some t → I t
  lowers : ∀ {s a t}, I s → next s a = some t → V t < V s

/-- A run is at most as long as the variant allows. -/
theorem Variant.length_le {I : σ → Prop} {V : σ → Nat} (h : Variant next I V) {s t : σ}
    {as : List α} (hI : I s) (hr : run next s as = some t) : as.length + V t ≤ V s := by
  induction as generalizing s with
  | nil =>
    cases hr
    simp
  | cons a as ih =>
    obtain ⟨m, hm, hrest⟩ := run_cons_inv hr
    have hlt := h.lowers hI hm
    have hle := ih (h.keeps hI hm) hrest
    rw [List.length_cons]
    omega

/-- Every state leads to one in which nothing can happen. -/
theorem Variant.exists_stuck {I : σ → Prop} {V : σ → Nat} (h : Variant next I V) {s : σ}
    (hI : I s) : ∃ as t, run next s as = some t ∧ Stuck next t := by
  induction hn : V s using Nat.strong_induction_on generalizing s with
  | _ n ih =>
    by_cases hs : Stuck next s
    · exact ⟨[], s, rfl, hs⟩
    · obtain ⟨a, ha⟩ := not_forall.mp hs
      obtain ⟨m, hm⟩ := Option.ne_none_iff_exists'.mp ha
      obtain ⟨as, t, hr, ht⟩ := ih (V m) (hn ▸ h.lowers hI hm) (h.keeps hI hm) rfl
      exact ⟨a :: as, t, (run_cons_some hm).mpr hr, ht⟩

/-- A run of some of the events is a run of the events they stand for. -/
theorem run_map {β : Type v} (f : β → α) (s : σ) (bs : List β) :
    run next s (bs.map f) = run (fun s b => next s (f b)) s bs := by
  induction bs generalizing s with
  | nil => rfl
  | cons b bs ih =>
    rw [List.map_cons, run, run]
    exact congrArg _ (funext ih)

/-! ## The work of a looping thread -/

variable {ι L A K R S : Type}

namespace Ctl

/-- How many steps a thread with body `b` and bound `n` has still to make until
it returns: a round is its statements, the loop test and the end of the round. -/
def work (b : Block L A) (n : Nat) : Ctl L A → Nat
  | head i => (n - i) * (b.length + 2) + 1
  | body i k => k.length + 1 + (n - (i + 1)) * (b.length + 2) + 1
  | returned _ _ _ => 0

/-- Entering a round is one step of it. -/
theorem work_enter {b : Block L A} {n i : Nat} (hi : i < n) :
    (head i : Ctl L A).work b n = (body i b).work b n + 1 := by
  have hn : n - i = (n - (i + 1)) + 1 := by omega
  simp only [work, hn, Nat.add_mul]
  omega

end Ctl

namespace LoopSys

variable {M : LoopSys ι L A K R S} {s s' : LoopState ι L A K R S} [Fintype ι]

/-- What all threads have still to do. -/
def work (M : LoopSys ι L A K R S) (s : LoopState ι L A K R S) : Nat :=
  ∑ t, (s.ctl t).work (M.prog t) (M.bound t)

/-- At the start that is all rounds of all threads. -/
theorem work_init (reg : ι → R) (locks : K) (shared : S) :
    M.work (init reg locks shared) = ∑ t, (M.bound t * ((M.prog t).length + 2) + 1) := rfl

/-- Where all threads have returned nothing is left to do. -/
theorem work_of_done (h : ∀ t, (s.ctl t).Done) : M.work s = 0 := by
  refine Finset.sum_eq_zero fun t _ => ?_
  have ht := h t
  match s.ctl t, ht with
  | .returned _ _ _, _ => rfl

variable [DecidableEq ι]

/-- Moving one thread changes the sum by what that thread's work changes. -/
theorem work_move {t : ι} {c : Ctl L A} {d : Nat} (hctl : s'.ctl = Function.update s.ctl t c)
    (hd : (s.ctl t).work (M.prog t) (M.bound t) = c.work (M.prog t) (M.bound t) + d) :
    M.work s = M.work s' + d := by
  have hsum := sum_update (fun u c => c.work (M.prog u) (M.bound u)) s.ctl t c
  rw [work, work, hctl]
  omega

/-- **A step of a thread is one step less to do**, and an interrupted
acquisition is at least one. -/
theorem work_step {e : Event ι} (hs : M.Step s e s') :
    M.work s' < M.work s ∧ ∀ t, e = .step t → M.work s = M.work s' + 1 := by
  have hone : ∀ {t : ι} {c : Ctl L A}, s'.ctl = Function.update s.ctl t c →
      (s.ctl t).work (M.prog t) (M.bound t) = c.work (M.prog t) (M.bound t) + 1 →
      M.work s' < M.work s ∧ ∀ u, e = .step u → M.work s = M.work s' + 1 := by
    intro t c hctl hd
    have hmove : M.work s = M.work s' + 1 := work_move hctl hd
    exact ⟨by omega, fun _ _ => hmove⟩
  have hconsume : ∀ (b : Block L A) (n i : Nat) (x : Stmt L A) (k : Block L A),
      (Ctl.body i (x :: k)).work b n = (Ctl.body i k).work b n + 1 := by
    intro b n i x k
    simp only [Ctl.work, List.length_cons]
    omega
  cases hs with
  | @enter t i hc hi => exact hone rfl (by rw [hc]; exact Ctl.work_enter hi)
  | @leave t i hc hi =>
    refine hone rfl ?_
    rw [hc]
    simp only [Ctl.work, Nat.sub_eq_zero_of_le hi, Nat.zero_mul]
  | @again t i hc =>
    refine hone rfl ?_
    rw [hc]
    simp only [Ctl.work, List.length_nil]
    omega
  | lock hc ha => exact hone rfl (by rw [hc]; exact hconsume _ _ _ _ _)
  | unlock hc => exact hone rfl (by rw [hc]; exact hconsume _ _ _ _ _)
  | act hc => exact hone rfl (by rw [hc]; exact hconsume _ _ _ _ _)
  | @interrupted t i l k hc hi =>
    have hmove : M.work s = M.work (s.goto t (.returned (-1) i (.lock l :: k)))
        + (s.ctl t).work (M.prog t) (M.bound t) := work_move rfl (by simp [Ctl.work])
    have hpos : 0 < (s.ctl t).work (M.prog t) (M.bound t) := by
      rw [hc]
      exact Nat.succ_pos _
    exact ⟨by omega, fun u hu => by cases hu⟩

/-- No run is longer than the work of its threads. -/
theorem length_le_work {es : List (Event ι)} (hr : run M.next s es = some s') :
    es.length + M.work s' ≤ M.work s :=
  Variant.length_le (I := fun _ => True)
    ⟨fun _ _ => trivial, fun _ hs => (work_step (step_of_next hs)).1⟩ trivial hr

/-- Without interrupted acquisitions a run is exactly as long as the work it
does. -/
theorem work_of_sched {sched : List ι} (hr : run M.next s (sched.map .step) = some s') :
    M.work s = sched.length + M.work s' := by
  induction sched generalizing s with
  | nil =>
    cases hr
    simp
  | cons t sched ih =>
    obtain ⟨m, hm, hrest⟩ := run_cons_inv hr
    have hstep := (work_step (step_of_next hm)).2 t rfl
    rw [hstep, ih hrest, List.length_cons]
    omega

/-- **Threads that always have a step complete**: if in the states with `I`,
which their steps keep, all threads have returned or some thread can step, then
a state with `I` leads to one in which all have returned, and if no thread can
step there, it is one. -/
theorem completes {I : LoopState ι L A K R S → Prop}
    (hI : ∀ {s t s'}, I s → M.next s (.step t) = some s' → I s')
    (hprogress : ∀ {s}, I s → (∀ t, (s.ctl t).Done) ∨ ∃ t s', M.next s (.step t) = some s')
    (h : I s) :
    (∃ (sched : List ι) (s' : _),
        run M.next s (sched.map .step) = some s' ∧ ∀ t, (s'.ctl t).Done) ∧
      ((∀ t, M.next s (.step t) = none) → ∀ t, (s.ctl t).Done) := by
  have hdone : ∀ {s}, I s → (∀ t, M.next s (.step t) = none) → ∀ t, (s.ctl t).Done := by
    intro s h hstuck
    rcases hprogress h with hall | ⟨t, s', hs'⟩
    · exact hall
    · rw [hstuck t] at hs'
      cases hs'
  refine ⟨?_, hdone h⟩
  have hvariant : Variant (fun s t => M.next s (.step t)) I M.work :=
    ⟨fun h hs => hI h hs, fun _ hs => (work_step (step_of_next hs)).1⟩
  obtain ⟨sched, s', hr, hstuck⟩ := hvariant.exists_stuck h
  refine ⟨sched, s', by rw [run_map]; exact hr, hdone (s := s') ?_ hstuck⟩
  exact run_inv (fun h hs => hI h hs) h hr

/-- **A thread returns alone**, if the others own no lock. -/
theorem leads_alone [DecidableEq L] {X : LoopSys ι L A (L → Option ι) R S}
    {x : LoopState ι L A (L → Option ι) R S} {b : Bool} (hsync : X.sync = exclusive b)
    (hb : ∀ t l, LockBracketed (X.prog t) l) (hok : X.AllOk x) (hheld : X.HeldAsOwed x) {t : ι}
    (hothers : ∀ u, u ≠ t → ∀ l, owes l (X.rest x u) = false) :
    ∃ x', X.Leads x x' ∧ (x'.ctl t).Done ∧ ∀ u, u ≠ t → x'.ctl u = x.ctl u := by
  let I := fun y => (X.AllOk y ∧ X.HeldAsOwed y) ∧ ∀ u, u ≠ t → y.ctl u = x.ctl u
  have hI : ∀ {y : LoopState ι L A (L → Option ι) R S} {a : Unit} {y'}, I y →
      X.next y (.step t) = some y' → I y' := by
    rintro y - y' ⟨⟨hok, hheld⟩, hsame⟩ hs
    have hstep := step_of_next hs
    exact ⟨⟨allOk_step hok hstep, heldAsOwed_step hsync hb hok hheld hstep⟩,
      fun u hu => (ctl_of_ne hs hu).trans (hsame u hu)⟩
  have hvariant : Variant (fun y (_ : Unit) => X.next y (.step t)) I X.work :=
    ⟨fun hy hs => hI (a := ()) hy hs, fun _ hs => (work_step (step_of_next hs)).1⟩
  obtain ⟨as, x', hr, hstuck⟩ := hvariant.exists_stuck ⟨⟨hok, hheld⟩, fun _ _ => rfl⟩
  obtain ⟨⟨hok', hheld'⟩, hsame⟩ : I x' :=
    run_inv (fun hy hs => hI (a := ()) hy hs) ⟨⟨hok, hheld⟩, fun _ _ => rfl⟩ hr
  refine ⟨x', ⟨as.map fun _ => t, ?_⟩, ?_, hsame⟩
  · rw [List.map_map, ← hr]
    exact run_map (fun _ : Unit => Event.step t) x as
  · by_contra hd
    rcases can_step_or_blocked (M := X) hd with ⟨y, hy⟩ | ⟨i, l, k, hc, ha⟩
    · have hnone : X.next x' (.step t) = none := hstuck ()
      rw [hnone] at hy
      cases hy
    · -- the lock it waits for would be owned by one of the others
      obtain ⟨u, hu⟩ := owner_of_blocked hsync ha
      have hut := owner_ne_of_waiting hheld' hc hu
      have howes := (hheld' l u).mp hu
      rw [rest, hsame u hut] at howes
      exact Bool.false_ne_true ((hothers u hut l).symm.trans howes)

end LoopSys

end Esystem
