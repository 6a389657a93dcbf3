import Esystem.Kthread.Completion
import Esystem.Kthread.Leaks
import Esystem.Kthread.Spinlock
import Esystem.Kthread.Unload

/-!
# When exit comes too early

Exit unmaps the registers while the threads run. Whether one of them writes to a
register afterwards depends on where they are.

- mutex.c, semaphore.c, spinlock.c, messageq.c and sharedm.c: nobody can keep the
  threads from running to their end, so a thread that is not `NearEnd` can come to
  its write (`unmapsExactly_of_completes`).
- deadlock_sol.c: a thread that was interrupted at its second acquisition keeps
  `my_mutex1` for ever, and then no other thread comes to a write (`Leaked`).
- deadlock.c: neither does anyone once each thread has its first mutex and is on the
  way to its second (`Deadlock.Doomed`). Otherwise the threads can still be brought to
  their end, one after the other (`Deadlock.leads_to_end`).

`unmaps_safely_iff` puts this together, and `writes_after_unmap` is an exit that comes
too early.
-/

namespace Esystem

open LoopSys KModule

variable {L X B E K : Type}

/-- All threads have returned, or are in their last round with at most `tail`
statements of it left. -/
def AtEnd {ι A R S : Type} (tail : Nat) (M : LoopSys ι L (KOp A) K R S)
    (sys : LoopState ι L (KOp A) K R S) : Prop :=
  ∀ t, NearEnd tail (M.bound t) (sys.ctl t)

instance {ι A R S : Type} [Fintype ι] (tail : Nat) (M : LoopSys ι L (KOp A) K R S)
    (sys : LoopState ι L (KOp A) K R S) : Decidable (AtEnd tail M sys) :=
  inferInstanceAs (Decidable (∀ t, NearEnd tail (M.bound t) (sys.ctl t)))

namespace KModule

/-- All threads are at their end exactly if they are behind their last register write. -/
theorem atEnd_iff {m : KModule L X B E K} {tail : Nat}
    (htail : ∀ t, WritesBefore tail (m.threads.prog t))
    {sys : LoopState Worker L (KOp X) K (KReg B) (KShared E)} (hok : m.threads.AllOk sys) :
    AtEnd tail m.threads sys ↔ m.AllSpent sys :=
  forall_congr' fun t => (htail t).nearEnd_iff (hok t)

/-- Two ways of being quiet. -/
theorem Quiet.or {m : KModule L X B E K}
    {P Q : LoopState Worker L (KOp X) K (KReg B) (KShared E) → Prop} (hP : m.Quiet P)
    (hQ : m.Quiet Q) : m.Quiet fun sys => P sys ∨ Q sys := by
  rintro sys e sys' (h | h) hs
  · exact ⟨(hP h hs).1, .inl (hP h hs).2⟩
  · exact ⟨(hQ h hs).1, .inr (hQ h hs).2⟩

/-! ## Modules whose threads always come to their end -/

/-- **Threads that complete whatever happens**: exit comes in time exactly when all of
them are at their end. -/
theorem unmapsExactly_of_completes {m : KModule L X B E K} {Free : K → Prop} {tail : Nat}
    (hcompletes : ∀ reg shared,
      Completes anyEvent m.threads (LoopSys.init reg m.locks shared) Free)
    (htail : ∀ t, WritesBefore tail (m.threads.prog t)) :
    m.UnmapsExactly (AtEnd tail m.threads) := by
  refine unmapsExactly_of (fun t => (htail t).exists_isWritel) quiet_allSpent
    (fun hreached h => ?_) (fun hreached hnot => ?_)
  · exact (atEnd_iff htail hreached.allOk).mp h
  · rw [atEnd_iff htail hreached.allOk] at hnot
    obtain ⟨reg, shared, es, -, hr⟩ := hreached
    obtain ⟨sched, sys', hsched, hdone⟩ :=
      (hcompletes reg shared).reaches es _ (fun _ _ => trivial) hr
    exact ⟨not_forall.mp hnot, sys', ⟨sched, hsched⟩, hdone⟩

/-! ## Modules that a leaked mutex stops -/

section Exclusive

variable [DecidableEq L] {m : KModule L X B E (L → Option Worker)} {b : Bool}

/-- In a reached state the threads hold what they owe. -/
theorem Reached.held {sys : LoopState Worker L (KOp X) (L → Option Worker) (KReg B) (KShared E)}
    (hsync : m.threads.sync = exclusive b) (hb : ∀ t l, LockBracketed (m.threads.prog t) l)
    (hfree : m.locks = fun _ => none) {allowed : Event Worker → Prop}
    (h : Reached m allowed sys) : m.threads.AllOk sys ∧ m.threads.HeldAsOwed sys := by
  obtain ⟨reg, shared, es, -, hr⟩ := h
  rw [hfree] at hr
  exact held_run hsync hb (allOk_init _ _ _) (heldAsOwed_init hb _ _) hr

/-- The threads hold what they owe, and somebody returned with a mutex locked. -/
def Stopped (m : KModule L X B E (L → Option Worker))
    (sys : LoopState Worker L (KOp X) (L → Option Worker) (KReg B) (KShared E)) : Prop :=
  (m.threads.AllOk sys ∧ m.threads.HeldAsOwed sys) ∧ Leaked sys

/-- With a mutex leaked that all register writes are made under, there are no more. -/
theorem quiet_stopped (hsync : m.threads.sync = exclusive b)
    (hb : ∀ t l, LockBracketed (m.threads.prog t) l)
    (hp : ∀ t l, HoldsAt l isWritel (m.threads.prog t)) : m.Quiet m.Stopped := by
  rintro sys e sys' ⟨⟨hok, hheld⟩, hleaked⟩ hs
  have hstep := step_of_next hs
  obtain ⟨t, l, hd, hl⟩ := hleaked
  refine ⟨?_, ⟨allOk_step hok hstep, heldAsOwed_step hsync hb hok hheld hstep⟩,
    leaked_step hsync hb hok hheld ⟨t, l, hd, hl⟩ hs⟩
  have hno := not_needs_of_leaked hsync (fun t => hp t l) hok hheld hd hl hs
  rw [Bool.eq_false_iff] at hno ⊢
  intro hany
  obtain ⟨x, hx, hwrites⟩ := (Option.any_eq_true _ _).mp hany
  exact hno ((Option.any_eq_true _ _).mpr ⟨x, hx, by rw [needs, hwrites, Bool.or_true]⟩)

/-- **Threads that acquire in order**: exit comes in time exactly when all of them are
at their end, or one has leaked a mutex. -/
theorem unmapsExactly_of_ordered {after : L → L → Prop} {tail : Nat}
    (hsync : m.threads.sync = exclusive b) (hwf : WellFounded after)
    (hbracketed : ∀ t l, LockBracketed (m.threads.prog t) l)
    (hord : ∀ t l k, .lock l :: k <:+ m.threads.prog t →
      ∀ m, owes m (.lock l :: k) = true → after l m)
    (hp : ∀ t l, HoldsAt l isWritel (m.threads.prog t)) (hfree : m.locks = fun _ => none)
    (htail : ∀ t, WritesBefore tail (m.threads.prog t)) :
    m.UnmapsExactly fun sys => AtEnd tail m.threads sys ∨ Leaked sys := by
  refine unmapsExactly_of (fun t => (htail t).exists_isWritel)
    (quiet_allSpent.or (quiet_stopped hsync hbracketed hp)) (fun hreached h => ?_)
    (fun hreached hnot => ?_)
  · exact h.imp (atEnd_iff htail hreached.allOk).mp
      fun hleaked => ⟨hreached.held hsync hbracketed hfree, hleaked⟩
  · obtain ⟨hspent, hkept⟩ := not_or.mp hnot
    rw [atEnd_iff htail hreached.allOk] at hspent
    refine ⟨not_forall.mp hspent, ?_⟩
    let I := fun y => (m.threads.AllOk y ∧ m.threads.HeldAsOwed y) ∧ ¬ Leaked y
    obtain ⟨⟨sched, sys', hr, hdone⟩, -⟩ := completes (M := m.threads) (I := I)
      (fun ⟨⟨hok, hheld⟩, hkept⟩ hs =>
        ⟨⟨allOk_step hok (step_of_next hs),
          heldAsOwed_step hsync hbracketed hok hheld (step_of_next hs)⟩,
          not_leaked_step hsync hbracketed hok hheld hkept hs⟩)
      (fun ⟨⟨hok, hheld⟩, hkept⟩ => progress_of_ordered hsync hwf hord hok hheld
        fun t hd => owes_of_done_of_not_leaked hheld hkept hd)
      ⟨hreached.held hsync hbracketed hfree, hkept⟩
    exact ⟨sys', ⟨sched, hr⟩, hdone⟩

end Exclusive

end KModule

/-! ## deadlock.c -/

namespace Deadlock

/-- Each thread has its first mutex locked, and its second acquisition before it. -/
def Doomed (s : State) : Prop :=
  ∀ t, s.locks (firstMutex t) = some t ∧ .lock (secondMutex t) ∈ (s.ctl t).rest (threadFunction t)

instance : DecidablePred Doomed := fun s =>
  inferInstanceAs (Decidable (∀ t, s.locks (firstMutex t) = some t ∧ _ ∈ _))

/-- Between its two acquisitions a thread only sleeps. -/
theorem before_second (w : Worker) : AtEach
    (fun k => owes (firstMutex w) k = true → .lock (secondMutex w) ∈ k →
      k.head? = some (.act (.msleep 1000)) ∨ k.head? = some (.lock (secondMutex w)))
    (threadFunction w) := by
  cases w <;> decide

/-- A thread that holds a mutex holds its first one. -/
theorem owes_first (w : Worker) (l : MyMutexes) : AtEach
    (fun k => owes l k = true → owes (firstMutex w) k = true) (threadFunction w) := by
  cases w <;> cases l <;> decide

/-- With the first mutex only, and not on the way to the second, a thread is about to
give it back. -/
theorem behind_second (w : Worker) : AtEach
    (fun k => owes (firstMutex w) k = true → owes (secondMutex w) k = false →
      .lock (secondMutex w) ∉ k → k = [.unlock (firstMutex w), .act (.msleep 500)])
    (threadFunction w) := by
  cases w <;> decide

theorem holdsWrites (w : Worker) (l : MyMutexes) :
    HoldsAt l isWritel (threadFunction w) := by
  cases w <;> cases l <;> decide

theorem writesBefore (w : Worker) : WritesBefore 3 (threadFunction w) := by
  cases w <;> decide

/-- The other thread. -/
def other : Worker → Worker
  | .thread1 => .thread2
  | .thread2 => .thread1

theorem eq_other_of_ne {t u : Worker} (h : u ≠ t) : u = other t := by
  cases t <;> cases u <;> simp_all [other]

theorem other_ne (t : Worker) : other t ≠ t := by
  cases t <;> decide

theorem firstMutex_other (t : Worker) : firstMutex (other t) = secondMutex t := by
  cases t <;> rfl

variable {bound : Worker → Nat} {s s' : State}

/-- **From there on the threads only sleep**, wait for each other, or are interrupted
and then keep their first mutex. -/
theorem doomed_step (hok : (threads bound).AllOk s) (hheld : (threads bound).HeldAsOwed s)
    (h : Doomed s) {e : Event Worker} (hs : (threads bound).Step s e s') :
    (executed s e).any isWritel = false ∧ (Doomed s' ∨ Leaked s') := by
  -- where a thread is that has its first mutex and has not come to its second acquisition
  have hhead : ∀ t, ((threads bound).rest s t).head? = some (.act (.msleep 1000)) ∨
      ((threads bound).rest s t).head? = some (.lock (secondMutex t)) := fun t =>
    before_second t _ (hok.rest_suffix t) ((hheld _ t).mp (h t).1) (h t).2
  have hlocks : ∀ t u, u ≠ t → s.locks (secondMutex t) = some u := by
    intro t u hu
    rw [eq_other_of_ne hu, ← firstMutex_other]
    exact (h (other t)).1
  have hnot_head : ∀ {t i}, s.ctl t ≠ .head i := by
    intro t i hc
    have howes := (hheld _ t).mp (h t).1
    rw [rest, hc, Ctl.rest_head] at howes
    exact Bool.false_ne_true ((bracketed t (firstMutex t)).owes_body.symm.trans howes)
  cases hs with
  | enter hc hi => exact absurd hc hnot_head
  | leave hc hi => exact absurd hc hnot_head
  | @again t i hc =>
    have ht := hhead t
    rw [rest, hc, Ctl.rest_body] at ht
    simp at ht
  | @unlock t i l k hc =>
    have ht := hhead t
    rw [rest, hc, Ctl.rest_body] at ht
    simp at ht
  | @lock t i l k K' hc ha =>
    have ht := hhead t
    rw [rest, hc, Ctl.rest_body] at ht
    obtain rfl : l = secondMutex t := by simpa using ht
    have hblocked : (threads bound).sync.acquire t (secondMutex t) s.locks = none :=
      if_neg (by rw [hlocks t _ (other_ne t)]; exact Option.some_ne_none _)
    rw [hblocked] at ha
    cases ha
  | @act t i a k hc =>
    have ht := hhead t
    rw [rest, hc, Ctl.rest_body] at ht
    obtain rfl : a = .msleep 1000 := by simpa using ht
    refine ⟨by simp [executed, hc, isWritel], .inl fun u => ⟨(h u).1, ?_⟩⟩
    by_cases hu : u = t
    · subst hu
      have hmem := (h u).2
      rw [hc, Ctl.rest_body, List.mem_cons] at hmem
      show _ ∈ Ctl.rest _ (Function.update s.ctl u (.body i k) u)
      rw [Function.update_self, Ctl.rest_body]
      exact hmem.resolve_left fun hlock => by cases hlock
    · show _ ∈ Ctl.rest _ (Function.update s.ctl t (.body i k) u)
      rw [Function.update_of_ne hu]
      exact (h u).2
  | @interrupted t i l k hc hi =>
    refine ⟨rfl, .inr ⟨t, firstMutex t, ?_, (h t).1⟩⟩
    show Ctl.Done (Function.update s.ctl t (.returned (-1) i (.lock l :: k)) t)
    rw [Function.update_self]
    trivial

/-- A thread that holds nothing lets the other one return, and then returns too. -/
theorem leads_to_end_of_idle (hok : (threads bound).AllOk s)
    (hheld : (threads bound).HeldAsOwed s) (hkept : ¬ Leaked s) {t : Worker}
    (ht : ∀ l, owes l ((threads bound).rest s t) = false) :
    ∃ s', (threads bound).Leads s s' ∧ ∀ t, (s'.ctl t).Done := by
  have hrule := fun {x : State} (hok : (threads bound).AllOk x)
    (hheld : (threads bound).HeldAsOwed x) {u : Worker}
    (h : ∀ l, owes l ((threads bound).rest x (other u)) = false) =>
    leads_alone (X := threads bound) (t := u) rfl bracketed hok hheld fun v hv =>
      eq_other_of_ne hv ▸ h
  have hother : other (other t) = t := by cases t <;> rfl
  obtain ⟨x, ⟨sched, hx⟩, hdone, hsame⟩ := hrule hok hheld (u := other t) (hother.symm ▸ ht)
  obtain ⟨⟨hokx, hheldx⟩, hkeptx⟩ :
      ((threads bound).AllOk x ∧ (threads bound).HeldAsOwed x) ∧ ¬ Leaked x := by
    rw [run_map] at hx
    refine run_inv (I := fun y => ((threads bound).AllOk y ∧ (threads bound).HeldAsOwed y) ∧
      ¬ Leaked y) ?_ ⟨⟨hok, hheld⟩, hkept⟩ hx
    rintro y u y' ⟨⟨hok, hheld⟩, hkept⟩ hs
    exact ⟨⟨allOk_step hok (step_of_next hs),
      heldAsOwed_step rfl bracketed hok hheld (step_of_next hs)⟩,
      not_leaked_step rfl bracketed hok hheld hkept hs⟩
  obtain ⟨s', hlast, hdone', hsame'⟩ := hrule hokx hheldx (u := t)
    fun l => owes_of_done_of_not_leaked hheldx hkeptx hdone l
  refine ⟨s', Leads.trans ⟨sched, hx⟩ hlast, fun u => ?_⟩
  by_cases hu : u = t
  · exact hu ▸ hdone'
  · rw [hsame' u hu, eq_other_of_ne hu]
    exact hdone

/-- **Nothing else keeps the threads from their end**: if no mutex is leaked and the
threads are not on their way into each other's first mutex, both can return. -/
theorem leads_to_end (hok : (threads bound).AllOk s) (hheld : (threads bound).HeldAsOwed s)
    (hkept : ¬ Leaked s) (hnot : ¬ Doomed s) :
    ∃ s', (threads bound).Leads s s' ∧ ∀ t, (s'.ctl t).Done := by
  by_cases hidle : ∃ t, ∀ l, owes l ((threads bound).rest s t) = false
  · obtain ⟨t, ht⟩ := hidle
    exact leads_to_end_of_idle hok hheld hkept ht
  · -- each has its first mutex, and one of them is behind its second acquisition
    have hfirst : ∀ t, owes (firstMutex t) ((threads bound).rest s t) = true := by
      intro t
      obtain ⟨l, hl⟩ := not_forall.mp (not_exists.mp hidle t)
      exact owes_first t l _ (hok.rest_suffix t) ((Bool.not_eq_false _).mp hl)
    obtain ⟨t, ht⟩ := not_forall.mp hnot
    have hnotin : .lock (secondMutex t) ∉ (threads bound).rest s t := fun hmem =>
      ht ⟨(hheld _ t).mpr (hfirst t), hmem⟩
    have hsecond : owes (secondMutex t) ((threads bound).rest s t) = false := by
      rw [Bool.eq_false_iff]
      intro howes
      have hown := hfirst (other t)
      rw [firstMutex_other] at hown
      exact other_ne t (owes_unique hheld hown howes)
    have hrest := behind_second t _ (hok.rest_suffix t) (hfirst t) hsecond hnotin
    obtain ⟨i, hc⟩ : ∃ i, s.ctl t = .body i [.unlock (firstMutex t), .act (.msleep 500)] := by
      have hd : ¬ (s.ctl t).Done := fun hd => Bool.false_ne_true
        ((owes_of_done_of_not_leaked hheld hkept hd _).symm.trans (hfirst t))
      cases hc : s.ctl t with
      | head i =>
        rw [rest, hc, Ctl.rest_head] at hrest
        cases t <;> cases hrest
      | body i k =>
        rw [rest, hc, Ctl.rest_body] at hrest
        exact ⟨i, hrest ▸ rfl⟩
      | returned v i k => exact absurd (by rw [hc]; trivial) hd
    -- it gives its first mutex back
    have hs : (threads bound).Step s (.step t) _ := .unlock hc
    obtain ⟨s', hleads, hdone⟩ := leads_to_end_of_idle (allOk_step hok hs)
      (heldAsOwed_step rfl bracketed hok hheld hs)
      (not_leaked_step rfl bracketed hok hheld hkept (next_of_step hs)) (t := t) fun l => by
        rw [rest_update (s := s) rfl, if_pos rfl, Ctl.rest_body, owes_act]
        rfl
    exact ⟨s', (Leads.of_next (next_of_step hs)).trans hleads, hdone⟩

/-- **deadlock.c**: exit comes in time exactly when both threads are at their end, or one
has leaked a mutex, or they can only deadlock. -/
theorem unmapsExactly (bound : Worker → Nat) :
    (kmodule bound).UnmapsExactly fun sys =>
      AtEnd 3 (threads bound) sys ∨ Leaked sys ∨ Doomed sys := by
  let m := kmodule bound
  have hheld : ∀ {sys}, Reached m (fun _ => True) sys →
      m.threads.AllOk sys ∧ m.threads.HeldAsOwed sys := fun h => h.held rfl bracketed rfl
  let P := fun sys : State => (m.threads.AllOk sys ∧ m.threads.HeldAsOwed sys) ∧ Doomed sys
  have hquiet : m.Quiet fun sys => m.AllSpent sys ∨ m.Stopped sys ∨ P sys := by
    rintro sys e sys' (h | h | ⟨⟨hok, hheld⟩, h⟩) hs
    · exact ⟨(quiet_allSpent h hs).1, .inl (quiet_allSpent h hs).2⟩
    · have hstopped := quiet_stopped (m := m) rfl bracketed holdsWrites h hs
      exact ⟨hstopped.1, .inr (.inl hstopped.2)⟩
    · have hstep := step_of_next hs
      have hbase := And.intro (allOk_step hok hstep)
        (heldAsOwed_step rfl bracketed hok hheld hstep)
      obtain ⟨hwrites, hdoomed | hleaked⟩ := doomed_step hok hheld h hstep
      · exact ⟨hwrites, .inr (.inr ⟨hbase, hdoomed⟩)⟩
      · exact ⟨hwrites, .inr (.inl ⟨hbase, hleaked⟩)⟩
  refine unmapsExactly_of (fun t => (writesBefore t).exists_isWritel) hquiet
    (fun hreached h => ?_) (fun hreached hnot => ?_)
  · exact h.imp (atEnd_iff (m := m) writesBefore hreached.allOk).mp
      fun h => h.imp (And.intro (hheld hreached)) (And.intro (hheld hreached))
  · obtain ⟨hspent, hnot⟩ := not_or.mp hnot
    obtain ⟨hkept, hfree⟩ := not_or.mp hnot
    have hspent := mt (atEnd_iff (m := m) writesBefore hreached.allOk).mpr hspent
    exact ⟨not_forall.mp hspent, leads_to_end (hheld hreached).1 (hheld hreached).2 hkept hfree⟩

end Deadlock

/-! ## The seven modules -/

theorem Mutex.writesBefore (w : Worker) : WritesBefore 2 (threadFunction w) := by
  cases w <;> decide

theorem Semaphore.writesBefore (w : Worker) : WritesBefore 2 (threadFunction w) := by
  cases w <;> decide

theorem Spinlock.writesBefore (w : Worker) : WritesBefore 2 (threadFunction w) := by
  cases w <;> decide

theorem MessageQueue.writesBefore (w : Worker) : WritesBefore 2 (threadFunction w) := by
  cases w <;> decide

theorem SharedMemory.writesBefore (w : Worker) : WritesBefore 2 (threadFunction w) := by
  cases w <;> decide

theorem DeadlockSol.writesBefore (w : Worker) : WritesBefore 3 (threadFunction w) := by
  cases w <;> decide

theorem DeadlockSol.holdsWrites (w : Worker) (l : MyMutexes) :
    HoldsAt l isWritel (threadFunction w) := by
  cases w <;> cases l <;> decide

/-- The threads of spinlock.c can always be brought to their end, too. -/
theorem Spinlock.completes (bound : Worker → Nat) (reg : Worker → KReg Unit)
    (shared : KShared Unit) :
    Completes anyEvent (threads bound) (LoopSys.init reg (fun _ => none) shared)
      fun locks => ∀ l, locks l = none :=
  completes_of_unheld rfl Spinlock.bracketed
    (fun t l _ hk m => acquires_with_nothing t l m _ hk rfl) reg shared

/-- **When a module can be unloaded**: after a call of exit, a thread can still write to
the unmapped registers exactly if not both have returned, or are in their last round with
no more left than the unlocking and the last sleep; except that in deadlock.c and
deadlock_sol.c nobody writes any more once a thread has returned with a mutex locked, and
in deadlock.c neither once each thread has locked its first mutex and has its second
acquisition before it. -/
theorem unmaps_safely_iff (bound : Worker → Nat) (v : CInt) :
    (Mutex.kmodule bound).UnmapsExactly (AtEnd 2 (Mutex.threads bound)) ∧
    (Semaphore.kmodule bound).UnmapsExactly (AtEnd 2 (Semaphore.threads bound)) ∧
    (Spinlock.kmodule bound).UnmapsExactly (AtEnd 2 (Spinlock.threads bound)) ∧
    (MessageQueue.kmodule bound).UnmapsExactly (AtEnd 2 (MessageQueue.threads bound)) ∧
    (SharedMemory.kmodule v bound).UnmapsExactly (AtEnd 2 (SharedMemory.threads bound)) ∧
    (DeadlockSol.kmodule bound).UnmapsExactly (fun sys =>
      AtEnd 3 (DeadlockSol.threads id bound) sys ∨ Leaked sys) ∧
    (Deadlock.kmodule bound).UnmapsExactly fun sys =>
      AtEnd 3 (Deadlock.threads bound) sys ∨ Leaked sys ∨ Deadlock.Doomed sys := by
  obtain ⟨hmutex, hsemaphore, hmessageq, hsharedm, -⟩ := lock_modules_complete bound
  refine ⟨?_, ?_, ?_, ?_, ?_, ?_, Deadlock.unmapsExactly bound⟩
  · exact unmapsExactly_of_completes hmutex Mutex.writesBefore
  · exact unmapsExactly_of_completes hsemaphore Semaphore.writesBefore
  · exact unmapsExactly_of_completes (Spinlock.completes bound) Spinlock.writesBefore
  · exact unmapsExactly_of_completes hmessageq MessageQueue.writesBefore
  · exact unmapsExactly_of_completes hsharedm SharedMemory.writesBefore
  · exact unmapsExactly_of_ordered rfl DeadlockSol.wellFounded_later
      DeadlockSol.bracketed DeadlockSol.acquires_in_order DeadlockSol.holdsWrites rfl
      DeadlockSol.writesBefore

/-- mutex.c, freshly loaded. -/
def Mutex.loaded : ModState MyMutex Empty Unit Unit (MyMutex → Option Worker) :=
  KModule.load (LoopSys.init (fun _ => ⟨0, ()⟩) (fun _ => none)
    ⟨0, ⟨fun _ => 0, fun _ => false⟩, ()⟩)

/-- Init, then `thread1` to its end and `thread2` up to behind its LED-off write,
then exit, then the rest of `thread2`. -/
def exitBehindLastWrite : List ModEvent :=
  List.replicate 7 .init ++ List.replicate 12 (.sched (.step .thread1)) ++
    List.replicate 8 (.sched (.step .thread2)) ++ [.exit] ++
    List.replicate 4 (.sched (.step .thread2))

/-- deadlock.c, freshly loaded. -/
def Deadlock.loaded : ModState MyMutexes Empty Unit Unit (MyMutexes → Option Worker) :=
  KModule.load (LoopSys.init (fun _ => ⟨0, ()⟩) (fun _ => none)
    ⟨0, ⟨fun _ => 0, fun _ => false⟩, ()⟩)

/-- Init, then each thread up to its first mutex. -/
def deadlockRun : List ModEvent :=
  List.replicate 7 .init ++ List.replicate 2 (.sched (.step .thread1)) ++
    List.replicate 2 (.sched (.step .thread2))

/-- `thread2` of mutex.c returns after exit has unmapped the registers, without a
write to them. Exit does no harm to deadlock.c when each thread has its first mutex, but
one step earlier it can. -/
theorem unmaps_safely_iff_runs :
    (∃ s, run (Mutex.kmodule fun _ => 1).next Mutex.loaded exitBehindLastWrite = some s ∧
      s.mapped = false ∧ (∀ t, (s.sys.ctl t).Done) ∧ s.faulted = false) ∧
    (∃ s s', run (Deadlock.kmodule fun _ => 5).next Deadlock.loaded deadlockRun = some s ∧
      (Deadlock.kmodule fun _ => 5).next s .exit = some s' ∧
      ∀ es s'', run (Deadlock.kmodule fun _ => 5).next s' es = some s'' → s''.faulted = false) ∧
    ∃ s s', run (Deadlock.kmodule fun _ => 5).next Deadlock.loaded deadlockRun.dropLast = some s ∧
      (Deadlock.kmodule fun _ => 5).next s .exit = some s' ∧
      ∃ es s'', run (Deadlock.kmodule fun _ => 5).next s' es = some s'' ∧ s''.faulted = true := by
  obtain ⟨hmutex, -⟩ := unmaps_safely_iff (fun _ => 1) 0
  obtain ⟨-, -, -, -, -, -, hdeadlock⟩ := unmaps_safely_iff (fun _ => 5) 0
  refine ⟨?_, ?_, ?_⟩
  · obtain ⟨s, hs, hp⟩ := exists_run_of_any (Mutex.kmodule fun _ => 1).next Mutex.loaded
      exitBehindLastWrite (fun s => decide (s.mapped = false ∧ ∀ t, (s.sys.ctl t).Done))
      (by decide)
    obtain ⟨hmapped, hdone⟩ := of_decide_eq_true hp
    exact ⟨s, hs, hmapped, hdone, hmutex.safely _ exitBehindLastWrite s (by decide) hs⟩
  · obtain ⟨s, hs, hp⟩ := exists_run_of_any (Deadlock.kmodule fun _ => 5).next Deadlock.loaded
      deadlockRun (fun s => decide (s.todo = [] ∧ s.exited = false ∧ Deadlock.Doomed s.sys))
      (by decide)
    obtain ⟨htodo, hexited, hdoomed⟩ := of_decide_eq_true hp
    have hexit := (Deadlock.kmodule fun _ => 5).next_exit htodo hexited
    exact ⟨s, _, hs, hexit, (hdeadlock.exactly _ _ s _ hs hexit).mpr (.inr (.inr hdoomed))⟩
  · obtain ⟨s, hs, hp⟩ := exists_run_of_any (Deadlock.kmodule fun _ => 5).next Deadlock.loaded
      deadlockRun.dropLast (fun s => decide (s.todo = [] ∧ s.exited = false ∧
        ¬ (AtEnd 3 (Deadlock.threads fun _ => 5) s.sys ∨ Leaked s.sys ∨ Deadlock.Doomed s.sys)))
      (by decide)
    obtain ⟨htodo, hexited, hharm⟩ := of_decide_eq_true hp
    have hexit := (Deadlock.kmodule fun _ => 5).next_exit htodo hexited
    refine ⟨s, _, hs, hexit, ?_⟩
    by_contra hnever
    refine hharm ((hdeadlock.exactly _ _ s _ hs hexit).mp fun es s'' hr => ?_)
    exact Bool.eq_false_iff.mpr fun hfault => hnever ⟨es, s'', hr, hfault⟩

/-- Init, then `thread1` up to its first register write, then exit, then the
write. -/
def unloadRun : List ModEvent :=
  List.replicate 7 .init ++ List.replicate 5 (.sched (.step .thread1)) ++
    [.exit, .sched (.step .thread1)]

/-- `thread1` of mutex.c writes to a register after exit has unmapped it. -/
theorem writes_after_unmap :
    ∃ s, run (Mutex.kmodule fun _ => 5).next Mutex.loaded unloadRun = some s ∧
      s.exited = true ∧ s.mapped = false ∧ s.faulted = true := by
  obtain ⟨s, hs, hp⟩ := exists_run_of_any (Mutex.kmodule fun _ => 5).next Mutex.loaded unloadRun
    (fun s => s.exited && !s.mapped && s.faulted) (by decide)
  simp only [Bool.and_eq_true, Bool.not_eq_true'] at hp
  exact ⟨s, hs, hp.1.1, hp.1.2, hp.2⟩

end Esystem
