import Esystem.Core.LockLeak
import Esystem.Kthread.Deadlock
import Esystem.Kthread.DeadlockSol

/-!
# One interrupted acquisition stops the two-lock modules

In deadlock.c and deadlock_sol.c a thread whose second acquisition is interrupted
returns `-1` with its first mutex locked. All that the threads share,
`shared_counter` and the LEDs, is only touched with both mutexes held, so from
that moment on nothing of it ever changes again, and every other thread gets at
most to the loop test behind its current round.
-/

namespace Esystem

open LoopSys

variable {ι L X B K : Type}

/-- The statement touches what the threads share. -/
def touchesShared (x : Stmt L (KOp X)) : Bool :=
  isStore x || isWritel x

/-- Threads without statements of their own change what they share only by
storing the counter and by writing to registers. -/
theorem shared_of_step [DecidableEq ι] {sync : Sync ι L K} {bound : ι → Nat}
    {prog : ι → Block L (KOp Empty)} {s s' : LoopState ι L (KOp Empty) K (KReg Unit) (KShared Unit)}
    {e : Event ι} (hs : (kthreads sync bound prog noExtra).Step s e s')
    (hquiet : (executed s e).any touchesShared = false) : s'.shared = s.shared := by
  cases hs with
  | enter hc hi => rfl
  | leave hc hi => rfl
  | again hc => rfl
  | interrupted hc hi => rfl
  | lock hc ha => rfl
  | unlock hc => rfl
  | @act t i a k hc =>
    simp only [executed, hc, Option.any_some] at hquiet
    cases a with
    | loadCounter => rfl
    | storeCounter => cases hquiet
    | printkCounter => rfl
    | writel value offset => cases hquiet
    | msleep ms => rfl
    | extra x => exact x.elim

/-- What is left of a module from state `s` on, in which thread `t` has returned
with the mutex `l` locked. -/
structure StoppedBy [DecidableEq ι] (M : LoopSys ι L (KOp Empty) (L → Option ι) (KReg Unit)
    (KShared Unit)) (l : L) (t : ι) (s : LoopState ι L (KOp Empty) (L → Option ι) (KReg Unit)
    (KShared Unit)) : Prop where
  /-- The mutex is never released. -/
  locked : ∀ es s', run M.next s es = some s' → s'.locks l = some t
  /-- The counter and the LEDs stay as they are. -/
  shared : ∀ es s', run M.next s es = some s' → s'.shared = s.shared
  /-- No thread completes more than the round it is in. -/
  rounds : ∀ es s', run M.next s es = some s' → ∀ u, (s'.ctl u).round ≤ (s.ctl u).round + 1
  /-- A thread that still has to take the mutex does not complete even that. -/
  waits : ∀ es s', run M.next s es = some s' → ∀ u,
    .lock l ∈ M.rest s u → (s'.ctl u).round ≤ (s.ctl u).round

variable [DecidableEq ι] [DecidableEq L] {b : Bool} {bound : ι → Nat}
  {prog : ι → Block L (KOp Empty)}
  {s : LoopState ι L (KOp Empty) (L → Option ι) (KReg Unit) (KShared Unit)}

/-- **A leaked mutex stops the module**, if all bodies take it and touch what is
shared only while they hold it. -/
theorem stoppedBy_of_leak {l : L} (hb : ∀ t m, LockBracketed (prog t) m)
    (hp : ∀ t, HoldsAt l touchesShared (prog t)) (htakes : ∀ t, .lock l ∈ prog t)
    (hok : (kthreads (exclusive b) bound prog noExtra).AllOk s)
    (hheld : (kthreads (exclusive b) bound prog noExtra).HeldAsOwed s) {t : ι}
    (hd : (s.ctl t).Done) (hl : s.locks l = some t) :
    StoppedBy (kthreads (exclusive b) bound prog noExtra) l t s := by
  have hneeds : ∀ k : Block L (KOp Empty), .lock l ∈ k → 0 < k.countP (needs l touchesShared) :=
    fun k hk => List.countP_pos_iff.mpr ⟨_, hk, by simp [needs, takes]⟩
  have hrun : ∀ es s', run (kthreads (exclusive b) bound prog noExtra).next s es = some s' →
      s'.locks l = some t ∧ s'.shared = s.shared ∧ ∀ u,
        (s'.ctl u).performed (needs l touchesShared) (prog u)
          = (s.ctl u).performed (needs l touchesShared) (prog u) := by
    intro es s' hr
    refine leaked_run (P := fun y => y.shared = s.shared) rfl hb hp ?_ hok hheld hd hl rfl hr
    intro y e y' hy hquiet hs
    refine (shared_of_step hs ?_).trans hy
    rw [Bool.eq_false_iff] at hquiet ⊢
    intro hany
    obtain ⟨x, hx, htouches⟩ := (Option.any_eq_true _ _).mp hany
    exact hquiet ((Option.any_eq_true _ _).mpr ⟨x, hx, by rw [needs, htouches, Bool.or_true]⟩)
  exact {
    locked := fun es s' hr => (hrun es s' hr).1
    shared := fun es s' hr => (hrun es s' hr).2.1
    rounds := fun es s' hr u =>
      Ctl.round_le_of_performed (hneeds _ (htakes u)) ((hrun es s' hr).2.2 u).le
    waits := fun es s' hr u hu =>
      Ctl.round_le_of_pending (hneeds _ hu) (countP_suffix_le (hok.rest_suffix u))
        ((hrun es s' hr).2.2 u).le }

/-- The body of thread `t` takes `second t` holding `first t`, and any other lock
with nothing held. -/
structure TakesTwo (first second : ι → L) (prog : ι → Block L (KOp Empty)) : Prop where
  nested : ∀ t, AtEach
    (fun k => k.head? = some (.lock (second t)) → owes (first t) k = true) (prog t)
  unheld : ∀ t l, l ≠ second t → AtEach
    (fun k => k.head? = some (.lock l) → ∀ m, owes m k = false) (prog t)

/-- Thread `t` has returned from an interrupted acquisition of `m`. -/
def ReturnedAt (m : L) (s : LoopState ι L (KOp Empty) (L → Option ι) (KReg Unit) (KShared Unit))
    (t : ι) : Prop :=
  ∃ v i k, s.ctl t = .returned v i (.lock m :: k)

/-- **A thread that returns gives everything back, or it stops the module**: it
does the latter exactly when its second acquisition was interrupted. -/
theorem returned_or_stops {first second : ι → L} (h2 : TakesTwo first second prog)
    (hb : ∀ t m, LockBracketed (prog t) m)
    (hp : ∀ t u, HoldsAt (first t) touchesShared (prog u))
    (htakes : ∀ t u, .lock (first t) ∈ prog u) {reg : ι → KReg Unit} {shared : KShared Unit}
    {es : List (Event ι)}
    (hr : run (kthreads (exclusive b) bound prog noExtra).next
      (init reg (fun _ => none) shared) es = some s) {t : ι} (hd : (s.ctl t).Done) :
    (ReturnedAt (second t) s t →
      StoppedBy (kthreads (exclusive b) bound prog noExtra) (first t) t s) ∧
    (¬ ReturnedAt (second t) s t → ∀ l, s.locks l ≠ some t) := by
  obtain ⟨hok, hheld⟩ := held_run (X := kthreads (exclusive b) bound prog noExtra) rfl hb
    (allOk_init _ _ _) (heldAsOwed_init hb _ _) hr
  have hsuf : (kthreads (exclusive b) bound prog noExtra).rest s t <:+ prog t :=
    hok.rest_suffix t
  constructor
  · rintro ⟨v, i, k, hc⟩
    have hrest : (kthreads (exclusive b) bound prog noExtra).rest s t
        = .lock (second t) :: k := by rw [rest, hc]; rfl
    have howes := h2.nested t _ hsuf (by rw [hrest]; rfl)
    exact stoppedBy_of_leak hb (hp t) (htakes t) hok hheld hd ((hheld _ t).mpr howes)
  · intro hnot l hl
    have howes := (hheld l t).mp hl
    rcases (hok t).rest_of_done hd with hrest | ⟨m, k, hrest⟩
    · have hout : owes l (prog t) = false := (hb t l).owes_body
      rw [rest, hrest] at howes
      exact Bool.false_ne_true (hout.symm.trans howes)
    · have hm : m ≠ second t := by
        rintro rfl
        obtain ⟨v, i, k', hc⟩ := Ctl.exists_returned hd
        rw [hc, Ctl.rest_returned] at hrest
        exact hnot ⟨v, i, k, by rw [hc, hrest]⟩
      rw [h2.unheld t m hm _ hsuf (by rw [rest, hrest]; rfl) l] at howes
      cases howes

/-! ## The two modules -/

omit [DecidableEq ι] in
theorem DeadlockSol.takesTwo (fn : ι → Worker) :
    TakesTwo (fun _ => .myMutex1) (fun _ => .myMutex2) fun t => threadFunction (fn t) where
  nested t := by cases fn t <;> decide
  unheld t l hl := by
    cases l with
    | myMutex1 => exact acquires_myMutex1 (fn t)
    | myMutex2 => exact absurd rfl hl

theorem DeadlockSol.holdsAt (w : Worker) :
    HoldsAt .myMutex1 touchesShared (threadFunction w) := by
  cases w <;> decide

theorem Deadlock.takesTwo : TakesTwo firstMutex secondMutex threadFunction where
  nested t := by cases t <;> decide
  unheld t l hl := by
    cases t <;> cases l
    · decide
    · exact absurd rfl hl
    · exact absurd rfl hl
    · decide

theorem Deadlock.holdsAt (t w : Worker) :
    HoldsAt (firstMutex t) touchesShared (threadFunction w) := by
  cases t <;> cases w <;> decide

/-- **One interrupted second acquisition stops a two-lock module**: in every run
of deadlock.c, and of any number of threads of deadlock_sol.c, a thread that has
returned holds no mutex, unless it was interrupted at its second one. Then its
first mutex is locked for ever, `shared_counter` and the LEDs never change
again, and no thread completes more than the round it is in. -/
theorem second_interruption_stops :
    (∀ (bound : Worker → Nat) (reg : Worker → KReg Unit) (gpio : Gpio)
      (es : List (Event Worker)) (s : Deadlock.State),
      run (Deadlock.threads bound).next (Deadlock.start reg gpio) es = some s →
      ∀ t, (s.ctl t).Done →
        (ReturnedAt (Deadlock.secondMutex t) s t →
          StoppedBy (Deadlock.threads bound) (Deadlock.firstMutex t) t s) ∧
        (¬ ReturnedAt (Deadlock.secondMutex t) s t → ∀ l, s.locks l ≠ some t)) ∧
    ∀ (κ : Type) [DecidableEq κ] (fn : κ → Worker) (bound : κ → Nat) (reg : κ → KReg Unit)
      (gpio : Gpio) (es : List (Event κ)) (s : DeadlockSol.State κ),
      run (DeadlockSol.threads fn bound).next (DeadlockSol.start reg gpio) es = some s →
      ∀ t, (s.ctl t).Done →
        (ReturnedAt .myMutex2 s t →
          StoppedBy (DeadlockSol.threads fn bound) .myMutex1 t s) ∧
        (¬ ReturnedAt .myMutex2 s t → ∀ l, s.locks l ≠ some t) := by
  constructor
  · intro bound reg gpio es s hr t hd
    exact returned_or_stops Deadlock.takesTwo Deadlock.bracketed Deadlock.holdsAt
      (fun t u => by cases t <;> cases u <;> decide) hr hd
  · intro κ _ fn bound reg gpio es s hr t hd
    exact returned_or_stops (DeadlockSol.takesTwo fn) (fun t => DeadlockSol.bracketed (fn t))
      (fun _ u => DeadlockSol.holdsAt (fn u)) (fun _ u => by cases fn u <;> decide) hr hd

/-- `thread2` of deadlock.c is interrupted at `my_mutex1`; `thread1`, which has
taken its first mutex, can then do no more than wait. -/
theorem second_interruption_stops_thread2 :
    ∃ s, run (Deadlock.threads fun _ => 5).next
        (Deadlock.start (fun _ => ⟨0, ()⟩) ⟨fun _ => 0, fun _ => false⟩)
        [.step .thread1, .step .thread1, .step .thread2, .step .thread2, .interrupt .thread2]
        = some s ∧
      StoppedBy (Deadlock.threads fun _ => 5) .myMutex2 .thread2 s := by
  obtain ⟨s, hs, hp⟩ := exists_run_of_any (Deadlock.threads fun _ => 5).next
    (Deadlock.start (fun _ => ⟨0, ()⟩) ⟨fun _ => 0, fun _ => false⟩)
    [.step .thread1, .step .thread1, .step .thread2, .step .thread2, .interrupt .thread2]
    (fun s => decide (s.ctl .thread2 = .returned (-1) 0 (Deadlock.threadFunction2.drop 1)))
    (by decide)
  have hctl := of_decide_eq_true hp
  refine ⟨s, hs, (second_interruption_stops.1 _ _ _ _ s hs .thread2 ?_).1 ⟨-1, 0, _, hctl⟩⟩
  rw [hctl]
  trivial

end Esystem
