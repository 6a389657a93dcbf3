import Esystem.Core.LoopThread
import Esystem.Core.Bracket
import Esystem.Core.Family

/-!
# Lock discipline of looping threads

For threads whose bodies acquire and release in turn, who holds what is a
function of the positions alone, in every run and through every interrupted
acquisition:

- `heldAsOwed_step`: thread `t` owns lock `l` exactly when `l` is owed at `t`'s
  position. In particular a thread that returns from a failed acquisition
  keeps, forever, what is owed there.
- `owes_unique`: two threads never owe the same lock (mutual exclusion).
- `progress_of_ordered`: if every body acquires its locks in increasing order
  of some order on the locks, then no reachable state is stuck.
- `total_step`: how many statements of a kind the threads have executed.
-/

namespace Esystem

variable {ι L A K R S : Type}

/-! ## What is owed at a position -/

section Owes

variable [DecidableEq L]

/-- The statement acquires `l`. -/
def takes (l : L) : Stmt L A → Bool
  | .lock m => decide (m = l)
  | _ => false

/-- The statement releases `l`. -/
def gives (l : L) : Stmt L A → Bool
  | .unlock m => decide (m = l)
  | _ => false

/-- The lock `l` is to be released by the code that remains. -/
def owes (l : L) (k : Block L A) : Bool :=
  owed (takes l) (gives l) k

@[simp] theorem owes_act (l : L) (a : A) (k : Block L A) :
    owes l (.act a :: k) = owes l k :=
  owed_of_neither rfl rfl k

@[simp] theorem owes_lock (l m : L) (k : Block L A) :
    owes l (.lock m :: k) = if m = l then false else owes l k := by
  split
  · exact owed_of_opens (by simpa [takes]) rfl k
  · exact owed_of_neither (by simpa [takes]) rfl k

@[simp] theorem owes_unlock (l m : L) (k : Block L A) :
    owes l (.unlock m :: k) = if m = l then true else owes l k := by
  split
  · exact owed_of_closes (by simpa [gives]) k
  · exact owed_of_neither rfl (by simpa [gives]) k

/-- The body acquires and releases `l` in turn. -/
def LockBracketed (b : Block L A) (l : L) : Prop :=
  Bracketed (takes l) (gives l) b

instance (b : Block L A) (l : L) : Decidable (LockBracketed b l) :=
  inferInstanceAs (Decidable (Bracketed _ _ _))

theorem LockBracketed.owes_body {b : Block L A} {l : L} (h : LockBracketed b l) :
    owes l b = false := h.outside

theorem LockBracketed.owes_after_lock {b k : Block L A} {l : L} (h : LockBracketed b l)
    (hk : .lock l :: k <:+ b) : owes l k = true :=
  (h.opens _ _ hk (by simp [takes])).2

theorem LockBracketed.owes_after_unlock {b k : Block L A} {l : L} (h : LockBracketed b l)
    (hk : .unlock l :: k <:+ b) : owes l k = false :=
  h.closes _ _ hk (by simp [gives])

end Owes

/-! ## Positions along a run -/

namespace LoopSys

variable [DecidableEq ι] {M : LoopSys ι L A K R S} {s s' : LoopState ι L A K R S}

/-- What remains for each thread after thread `t` moved to `c`. -/
theorem rest_update {t : ι} {c : Ctl L A} (h : s'.ctl = Function.update s.ctl t c) (u : ι) :
    M.rest s' u = if u = t then c.rest (M.prog t) else M.rest s u := by
  unfold rest
  rw [h]
  by_cases hu : u = t
  · subst hu
    rw [Function.update_self, if_pos rfl]
  · rw [Function.update_of_ne hu, if_neg hu]

/-- All threads are at positions of their own code. -/
def AllOk (M : LoopSys ι L A K R S) (s : LoopState ι L A K R S) : Prop :=
  ∀ t, (s.ctl t).Ok (M.prog t) (M.bound t)

omit [DecidableEq ι] in
theorem allOk_init (reg : ι → R) (locks : K) (shared : S) :
    M.AllOk (init reg locks shared) := fun _ => Nat.zero_le _

omit [DecidableEq ι] in
/-- A thread in a body is in one of its rounds, and what is left belongs to its code. -/
theorem AllOk.of_body (h : M.AllOk s) {t : ι} {i : Nat} {k : Block L A}
    (hc : s.ctl t = .body i k) : i < M.bound t ∧ k <:+ M.prog t := by
  have hb := h t
  rw [hc] at hb
  exact hb

/-- Every step leaves the threads at positions of their own code. -/
theorem allOk_step {e : Event ι} (h : M.AllOk s) (hs : M.Step s e s') : M.AllOk s' := by
  cases hs with
  | enter hc hi => exact forall_update h ⟨hi, List.suffix_rfl⟩
  | @leave t i hc hi =>
    have hle : i ≤ M.bound t := by
      have := h t
      rwa [hc] at this
    exact forall_update h (.inl ⟨rfl, Nat.le_antisymm hle hi, rfl⟩)
  | again hc => exact forall_update h (h.of_body hc).1
  | lock hc ha =>
    obtain ⟨hi, hk⟩ := h.of_body hc
    exact forall_update h ⟨hi, (List.suffix_cons _ _).trans hk⟩
  | unlock hc =>
    obtain ⟨hi, hk⟩ := h.of_body hc
    exact forall_update h ⟨hi, (List.suffix_cons _ _).trans hk⟩
  | act hc =>
    obtain ⟨hi, hk⟩ := h.of_body hc
    exact forall_update h ⟨hi, (List.suffix_cons _ _).trans hk⟩
  | @interrupted t i l k hc hi =>
    obtain ⟨hi, hk⟩ := h.of_body hc
    exact forall_update h (.inr ⟨rfl, hi, hk, l, k, rfl⟩)

omit [DecidableEq ι] in
theorem AllOk.rest_suffix (h : M.AllOk s) (t : ι) : M.rest s t <:+ M.prog t :=
  (h t).rest_suffix

/-- A thread that has returned stays where it is. -/
theorem ctl_of_done {e : Event ι} {t : ι} (hd : (s.ctl t).Done) (hs : M.Step s e s') :
    s'.ctl t = s.ctl t := by
  have hne : ∀ {u : ι} {c : Ctl L A}, s.ctl u = c → ¬ c.Done → t ≠ u := by
    rintro u c hc hnd rfl
    exact hnd (hc ▸ hd)
  cases hs with
  | enter hc _ => exact Function.update_of_ne (hne hc id) _ _
  | leave hc _ => exact Function.update_of_ne (hne hc id) _ _
  | again hc => exact Function.update_of_ne (hne hc id) _ _
  | lock hc _ => exact Function.update_of_ne (hne hc id) _ _
  | unlock hc => exact Function.update_of_ne (hne hc id) _ _
  | act hc => exact Function.update_of_ne (hne hc id) _ _
  | interrupted hc _ => exact Function.update_of_ne (hne hc id) _ _

/-- How a thread comes to have returned: it already had, it leaves its loop, or
its acquisition is interrupted. -/
theorem done_of_step {e : Event ι} {t : ι} (hs : M.Step s e s') (hd : (s'.ctl t).Done) :
    ((s.ctl t).Done ∧ s'.ctl t = s.ctl t) ∨ M.rest s' t = M.prog t ∨
      ∃ i l k, e = .interrupt t ∧ s.ctl t = .body i (.lock l :: k) ∧
        M.rest s' t = .lock l :: k := by
  have hmove : ∀ {u : ι} {c : Ctl L A}, s'.ctl = Function.update s.ctl u c →
      (t = u → c.Done → M.rest s' t = M.prog t ∨
        ∃ i l k, e = .interrupt t ∧ s.ctl t = .body i (.lock l :: k) ∧
          M.rest s' t = .lock l :: k) →
      ((s.ctl t).Done ∧ s'.ctl t = s.ctl t) ∨ M.rest s' t = M.prog t ∨
        ∃ i l k, e = .interrupt t ∧ s.ctl t = .body i (.lock l :: k) ∧
          M.rest s' t = .lock l :: k := by
    intro u c hctl hnew
    by_cases hu : t = u
    · refine .inr (hnew hu ?_)
      rwa [hctl, hu, Function.update_self] at hd
    · rw [hctl, Function.update_of_ne hu] at hd ⊢
      exact .inl ⟨hd, rfl⟩
  cases hs with
  | enter hc hi => exact hmove rfl fun _ h => h.elim
  | leave hc hi =>
    refine hmove rfl fun hu _ => .inl ?_
    rw [rest_update (s := s) rfl, if_pos hu, hu]
    rfl
  | again hc => exact hmove rfl fun _ h => h.elim
  | lock hc ha => exact hmove rfl fun _ h => h.elim
  | unlock hc => exact hmove rfl fun _ h => h.elim
  | act hc => exact hmove rfl fun _ h => h.elim
  | @interrupted u i l k hc hi =>
    refine hmove rfl fun hu _ => .inr ⟨i, l, k, by rw [hu], by rw [hu, hc], ?_⟩
    rw [rest_update (s := s) rfl, if_pos hu]
    rfl

/-- Without interrupted acquisitions, threads return only by finishing their
loops. -/
theorem returned_of_steps {reg : ι → R} {locks : K} {shared : S} {sched : List ι}
    (hr : run M.next (init reg locks shared) (sched.map .step) = some s) {t : ι}
    (hd : (s.ctl t).Done) : s.ctl t = .returned 0 (M.bound t) (M.prog t) := by
  let Finished := fun c : Ctl L A => ∀ v i k, c = .returned v i k → v = 0
  let I := fun s : LoopState ι L A K R S => M.AllOk s ∧ ∀ t, Finished (s.ctl t)
  have hstep : ∀ {s : LoopState ι L A K R S} {e : Event ι} {s' : LoopState ι L A K R S},
      I s → (∃ t, e = .step t) → M.next s e = some s' → I s' := by
    rintro s _ s' ⟨hok, hfin⟩ ⟨t, rfl⟩ hs
    have hs := step_of_next hs
    refine ⟨allOk_step hok hs, ?_⟩
    have hmove : ∀ {c : Ctl L A}, Finished c →
        ∀ u, Finished (Function.update s.ctl t c u) := fun hc =>
      forall_update (P := fun _ c => Finished c) hfin hc
    cases hs with
    | enter _ _ => exact hmove fun _ _ _ h => by cases h
    | leave _ _ => exact hmove fun _ _ _ h => by cases h; rfl
    | again _ => exact hmove fun _ _ _ h => by cases h
    | lock _ _ => exact hmove fun _ _ _ h => by cases h
    | unlock _ => exact hmove fun _ _ _ h => by cases h
    | act _ => exact hmove fun _ _ _ h => by cases h
  have hI : I s := run_inv_where (C := fun _ e => ∃ t, e = .step t) hstep
    ⟨allOk_init _ _ _, fun _ _ _ _ h => by cases h⟩
    (stepsMeet_of_mem (fun e he _ => by
      obtain ⟨t, -, rfl⟩ := List.mem_map.mp he
      exact ⟨t, rfl⟩) _) hr
  have hok := hI.1 t
  cases hc : s.ctl t with
  | head i => exact absurd hd (by rw [hc]; exact id)
  | body i k => exact absurd hd (by rw [hc]; exact id)
  | returned v i k =>
    rw [hc] at hok
    rcases hok with ⟨rfl, rfl, rfl⟩ | ⟨hv, -⟩
    · rfl
    · have hv0 : v = 0 := hI.2 t v i k hc
      omega

/-! ## Who owns what -/

section Exclusive

variable [DecidableEq L] {X : LoopSys ι L A (L → Option ι) R S}
  {x x' : LoopState ι L A (L → Option ι) R S}

/-- Thread `t` owns lock `l` exactly when `l` is owed at `t`'s position. -/
def HeldAsOwed (X : LoopSys ι L A (L → Option ι) R S)
    (x : LoopState ι L A (L → Option ι) R S) : Prop :=
  ∀ l t, x.locks l = some t ↔ owes l (X.rest x t) = true

omit [DecidableEq ι] in
/-- At the start nothing is owned and nothing is owed. -/
theorem heldAsOwed_init (hb : ∀ t l, LockBracketed (X.prog t) l) (reg : ι → R) (shared : S) :
    X.HeldAsOwed (init reg (fun _ => none) shared) := by
  intro l t
  have hrest : X.rest (init reg (fun _ => none) shared) t = X.prog t := rfl
  rw [hrest, (hb t l).owes_body]
  simp [init]

/-- A step that moves one thread, and changes neither the locks nor what that
thread owes. -/
theorem heldAsOwed_move (h : X.HeldAsOwed x) {t : ι} {c : Ctl L A}
    (hctl : x'.ctl = Function.update x.ctl t c) (hl : x'.locks = x.locks)
    (ho : ∀ l, owes l (c.rest (X.prog t)) = owes l (X.rest x t)) : X.HeldAsOwed x' := by
  intro l u
  rw [hl, rest_update hctl]
  split
  · rename_i hu
    rw [hu, ho]
    exact h l t
  · exact h l u

omit [DecidableEq ι] in
/-- Two threads never owe the same lock. -/
theorem owes_unique (h : X.HeldAsOwed x) {l : L} {t u : ι}
    (ht : owes l (X.rest x t) = true) (hu : owes l (X.rest x u) = true) : t = u := by
  have hot := (h l t).mpr ht
  have hou := (h l u).mpr hu
  rw [hot] at hou
  exact Option.some.inj hou

/-- **Ownership is position**: every step, interrupted acquisitions included,
keeps each lock owned exactly by the thread that owes it. -/
theorem heldAsOwed_step {b : Bool} (hsync : X.sync = exclusive b)
    (hb : ∀ t l, LockBracketed (X.prog t) l) (hok : X.AllOk x) (h : X.HeldAsOwed x)
    {e : Event ι} (hs : X.Step x e x') : X.HeldAsOwed x' := by
  cases hs with
  | enter hc hi => exact heldAsOwed_move h rfl rfl fun l => by rw [rest, hc]; rfl
  | leave hc hi => exact heldAsOwed_move h rfl rfl fun l => by rw [rest, hc]; rfl
  | again hc =>
    refine heldAsOwed_move h rfl rfl fun l => ?_
    rw [rest, hc]
    exact (hb _ l).owes_body
  | act hc =>
    refine heldAsOwed_move h rfl rfl fun l => ?_
    rw [rest, hc]
    exact (owes_act l _ _).symm
  | interrupted hc hi => exact heldAsOwed_move h rfl rfl fun l => by rw [rest, hc]; rfl
  | @lock t i l k K' hc ha =>
    rw [hsync] at ha
    simp only [exclusive] at ha
    split at ha
    · rename_i hfree
      cases ha
      have hrest : X.rest x t = .lock l :: k := by rw [rest, hc]; rfl
      have hsuf : .lock l :: k <:+ X.prog t := hrest ▸ hok.rest_suffix t
      intro m u
      rw [rest_update (s := x) rfl u]
      show Function.update x.locks l (some t) m = some u ↔ _
      have hmu := h m u
      by_cases hm : m = l
      · subst hm
        rw [Function.update_self]
        split
        · rename_i hu
          rw [hu]
          simpa using (hb t m).owes_after_lock hsuf
        · rename_i hu
          rw [hfree] at hmu
          have hno : owes m (X.rest x u) ≠ true := fun ho => by simpa using hmu.mpr ho
          simpa [Ne.symm hu] using hno
      · rw [Function.update_of_ne hm]
        split
        · rename_i hu
          rw [hu, hrest, owes_lock, if_neg (Ne.symm hm)] at hmu
          rw [hu]
          exact hmu
        · exact hmu
    · cases ha
  | @unlock t i l k hc =>
    have hrest : X.rest x t = .unlock l :: k := by rw [rest, hc]; rfl
    have hsuf : .unlock l :: k <:+ X.prog t := hrest ▸ hok.rest_suffix t
    have howed : owes l (X.rest x t) = true := by rw [hrest]; simp
    intro m u
    rw [rest_update (s := x) rfl u, hsync]
    show Function.update x.locks l none m = some u ↔ _
    have hmu := h m u
    by_cases hm : m = l
    · subst hm
      rw [Function.update_self]
      split
      · simpa using (hb t m).owes_after_unlock hsuf
      · rename_i hu
        have hno : owes m (X.rest x u) ≠ true := fun ho => hu (owes_unique h ho howed)
        simpa using hno
    · rw [Function.update_of_ne hm]
      split
      · rename_i hu
        rw [hu, hrest, owes_unlock, if_neg (Ne.symm hm)] at hmu
        rw [hu]
        exact hmu
      · exact hmu

/-- Whole runs keep the threads on their code, and each lock with the thread
that owes it. -/
theorem held_run {b : Bool} (hsync : X.sync = exclusive b)
    (hb : ∀ t l, LockBracketed (X.prog t) l) (hok : X.AllOk x) (h : X.HeldAsOwed x)
    {es : List (Event ι)} (hr : run X.next x es = some x') : X.AllOk x' ∧ X.HeldAsOwed x' := by
  let I := fun y => X.AllOk y ∧ X.HeldAsOwed y
  have hstep : ∀ {y : LoopState ι L A (L → Option ι) R S} {e : Event ι}
      {y' : LoopState ι L A (L → Option ι) R S}, I y → X.next y e = some y' → I y' := by
    intro y e y' hy hs
    have hs := step_of_next hs
    exact ⟨allOk_step hy.1 hs, heldAsOwed_step hsync hb hy.1 hy.2 hs⟩
  exact run_inv (I := I) hstep ⟨hok, h⟩ hr

omit [DecidableEq ι] in
/-- A thread that finished its loop owes nothing. -/
theorem owes_of_returned {l : L} {t : ι} {v : Int} {i : Nat}
    (hb : LockBracketed (X.prog t) l) (hc : x.ctl t = .returned v i (X.prog t)) :
    owes l (X.rest x t) = false := by
  rw [rest, hc, Ctl.rest_returned, hb.owes_body]

/-- A lock that a returned thread owns is never released. -/
theorem owned_of_done {b : Bool} (hsync : X.sync = exclusive b)
    (hb : ∀ t l, LockBracketed (X.prog t) l) (hok : X.AllOk x) (h : X.HeldAsOwed x)
    {l : L} {t : ι} (hd : (x.ctl t).Done) (hl : x.locks l = some t) {es : List (Event ι)}
    (hr : run X.next x es = some x') : x'.locks l = some t := by
  have hctl : x'.ctl t = x.ctl t := run_inv (I := fun y => y.ctl t = x.ctl t)
    (fun hy hs => (ctl_of_done (hy ▸ hd) (step_of_next hs)).trans hy) rfl hr
  have hrest : X.rest x' t = X.rest x t := by rw [rest, rest, hctl]
  rw [(held_run hsync hb hok h hr).2 l t, hrest]
  exact (h l t).mp hl

/-! ## Progress from an order on the locks -/

/-- An acquisition that blocks is of a lock that some thread owns. -/
theorem owner_of_blocked {b : Bool} (hsync : X.sync = exclusive b) {t : ι} {l : L}
    {K : L → Option ι} (ha : X.sync.acquire t l K = none) : ∃ u, K l = some u := by
  rw [hsync] at ha
  simp only [exclusive] at ha
  split at ha
  · cases ha
  · rename_i hne
    exact Option.ne_none_iff_exists'.mp hne

omit [DecidableEq ι] in
/-- A thread at an acquisition of a lock does not own it. -/
theorem owner_ne_of_waiting (h : X.HeldAsOwed x) {t u : ι} {i : Nat} {l : L} {k : Block L A}
    (hc : x.ctl t = .body i (.lock l :: k)) (hl : x.locks l = some u) : u ≠ t := by
  rintro rfl
  have howes := (h l u).mp hl
  rw [rest, hc, Ctl.rest_body, owes_lock, if_pos rfl] at howes
  cases howes

/-- The core of the progress argument: where every acquisition happens while
only `after`-larger locks are held, nobody waits for ever at a lock. By
well-founded induction on the lock: its owner can step, or waits for a lock
that comes `after` it. -/
theorem can_step_of_blocked {b : Bool} (hsync : X.sync = exclusive b)
    {after : L → L → Prop} (hwf : WellFounded after)
    (hord : ∀ t l k, .lock l :: k <:+ X.prog t →
      ∀ m, owes m (.lock l :: k) = true → after l m)
    (hok : X.AllOk x) (h : X.HeldAsOwed x)
    (hret : ∀ t, (x.ctl t).Done → ∀ l, owes l (X.rest x t) = false) :
    ∀ l t i k, x.ctl t = .body i (.lock l :: k) → X.sync.acquire t l x.locks = none →
      ∃ u x', X.next x (.step u) = some x' := by
  intro l
  refine hwf.induction (C := fun l => ∀ t i k, x.ctl t = .body i (.lock l :: k) →
    X.sync.acquire t l x.locks = none → ∃ u x', X.next x (.step u) = some x') l ?_
  intro l ih t i k hc ha
  -- the lock has an owner `u`, who still has to release it
  obtain ⟨u, hu⟩ := owner_of_blocked hsync ha
  have howes : owes l (X.rest x u) = true := (h l u).mp hu
  have hnd : ¬ (x.ctl u).Done := by
    intro hd
    rw [hret u hd l] at howes
    cases howes
  rcases can_step_or_blocked (M := X) hnd with ⟨x', hx'⟩ | ⟨j, m, k', hcu, hau⟩
  · exact ⟨u, x', hx'⟩
  · have hrest : X.rest x u = .lock m :: k' := by rw [rest, hcu]; rfl
    have hsuf : .lock m :: k' <:+ X.prog u := hrest ▸ hok.rest_suffix u
    exact ih m (hord u m k' hsuf l (hrest ▸ howes)) u j k' hcu hau

/-- **Progress from lock order**: if every body acquires its locks in an order
that admits no infinite descent, then in every state in which the returned
threads owe nothing, all threads have returned or some thread can step. -/
theorem progress_of_ordered {b : Bool} (hsync : X.sync = exclusive b)
    {after : L → L → Prop} (hwf : WellFounded after)
    (hord : ∀ t l k, .lock l :: k <:+ X.prog t →
      ∀ m, owes m (.lock l :: k) = true → after l m)
    (hok : X.AllOk x) (h : X.HeldAsOwed x)
    (hret : ∀ t, (x.ctl t).Done → ∀ l, owes l (X.rest x t) = false) :
    (∀ t, (x.ctl t).Done) ∨ ∃ t x', X.next x (.step t) = some x' := by
  by_cases hall : ∀ t, (x.ctl t).Done
  · exact .inl hall
  · right
    obtain ⟨t, ht⟩ := not_forall.mp hall
    rcases can_step_or_blocked (M := X) ht with ⟨x', hx'⟩ | ⟨i, l, k, hc, ha⟩
    · exact ⟨t, x', hx'⟩
    · exact can_step_of_blocked hsync hwf hord hok h hret l t i k hc ha

end Exclusive

end LoopSys

/-! ## How often a statement has been executed -/

namespace Ctl

/-- How many statements of kind `p` a thread with body `b` has executed: those
of its completed rounds and those of its current round. -/
def performed (p : Stmt L A → Bool) (b : Block L A) (c : Ctl L A) : Nat :=
  c.round * b.countP p + (b.countP p - (c.rest b).countP p)

variable {p : Stmt L A → Bool} {b : Block L A}

theorem performed_head (i : Nat) : (head i).performed p b = i * b.countP p := by
  simp [performed, round]

/-- Entering a round executes nothing. -/
theorem performed_enter (i : Nat) : (body i b).performed p b = (head i).performed p b := rfl

/-- Closing a round counts all of its statements. -/
theorem performed_again (i : Nat) :
    (head (i + 1)).performed p b = (body i []).performed p b := by
  simp [performed, round, Nat.succ_mul]

/-- Executing the statement `x` counts it once if it is of the kind `p`. -/
theorem performed_consume {i : Nat} {x : Stmt L A} {k : Block L A} (hk : x :: k <:+ b) :
    (body i k).performed p b
      = (body i (x :: k)).performed p b + if p x = true then 1 else 0 := by
  have hle : (x :: k).countP p ≤ b.countP p := countP_suffix_le hk
  rw [List.countP_cons] at hle
  simp only [performed, round, rest_body, List.countP_cons]
  omega

/-- A thread executes at most what its bound allows. -/
theorem performed_le {n : Nat} {c : Ctl L A} (h : c.Ok b n) :
    c.performed p b ≤ n * b.countP p := by
  have hround : ∀ i, i < n → i * b.countP p + b.countP p ≤ n * b.countP p := by
    intro i hi
    rw [← Nat.succ_mul]
    exact Nat.mul_le_mul_right _ hi
  cases c with
  | head i =>
    rw [performed_head]
    exact Nat.mul_le_mul_right _ h
  | body i k =>
    have := hround i h.1
    simp only [performed, round]
    omega
  | returned v i k =>
    rcases h with ⟨-, rfl, rfl⟩ | ⟨-, hi, -⟩
    · simp [performed, round]
    · have := hround i hi
      simp only [performed, round]
      omega

end Ctl

namespace LoopSys

variable [Fintype ι] [DecidableEq ι] {M : LoopSys ι L A K R S} {s s' : LoopState ι L A K R S}

/-- How many statements of kind `p` all threads have executed. -/
def total (M : LoopSys ι L A K R S) (p : Stmt L A → Bool) (s : LoopState ι L A K R S) : Nat :=
  ∑ t, (s.ctl t).performed p (M.prog t)

omit [DecidableEq ι] in
theorem total_init (p : Stmt L A → Bool) (reg : ι → R) (locks : K) (shared : S) :
    M.total p (init reg locks shared) = 0 := by
  refine Finset.sum_eq_zero fun t _ => ?_
  show (Ctl.head 0).performed p (M.prog t) = 0
  rw [Ctl.performed_head, Nat.zero_mul]

/-- Moving one thread changes the total by that thread's difference. -/
theorem total_update {p : Stmt L A → Bool} {t : ι} {c : Ctl L A} {d : Nat}
    (hctl : s'.ctl = Function.update s.ctl t c)
    (hd : c.performed p (M.prog t) = (s.ctl t).performed p (M.prog t) + d) :
    M.total p s' = M.total p s + d := by
  have hsum := sum_update (fun u c => c.performed p (M.prog u)) s.ctl t c
  rw [total, hctl, total]
  omega

/-- The statement that an event executes, if it executes one. -/
def executed (s : LoopState ι L A K R S) : Event ι → Option (Stmt L A)
  | .step t =>
    match s.ctl t with
    | .body _ (x :: _) => some x
    | _ => none
  | .interrupt _ => none

/-- A step counts the statement it executes, and nothing else. -/
theorem total_step {p : Stmt L A → Bool} {e : Event ι} (hok : M.AllOk s)
    (hs : M.Step s e s') :
    M.total p s' = M.total p s + if (executed s e).any p = true then 1 else 0 := by
  have hsuf : ∀ {t i x k}, s.ctl t = .body i (x :: k) → x :: k <:+ M.prog t :=
    fun hc => (hok.of_body hc).2
  cases hs with
  | @enter t i hc hi =>
    refine total_update rfl ?_
    simp only [hc, executed, Option.any_none, Bool.false_eq_true, if_false]
    exact Ctl.performed_enter i
  | @leave t i hc hi =>
    refine total_update rfl ?_
    simp only [hc, executed, Option.any_none, Bool.false_eq_true, if_false]
    rfl
  | @again t i hc =>
    refine total_update rfl ?_
    simp only [hc, executed, Option.any_none, Bool.false_eq_true, if_false]
    exact Ctl.performed_again i
  | @lock t i l k K' hc ha =>
    refine total_update rfl ?_
    simp only [hc, executed, Option.any_some]
    exact Ctl.performed_consume (hsuf hc)
  | @unlock t i l k hc =>
    refine total_update rfl ?_
    simp only [hc, executed, Option.any_some]
    exact Ctl.performed_consume (hsuf hc)
  | @act t i a k hc =>
    refine total_update rfl ?_
    simp only [hc, executed, Option.any_some]
    exact Ctl.performed_consume (hsuf hc)
  | @interrupted t i l k hc hi =>
    refine total_update rfl ?_
    simp only [hc, executed, Option.any_none, Bool.false_eq_true, if_false]
    rfl

/-- How many statements of kind `p` the events `es` execute. -/
def executions (M : LoopSys ι L A K R S) (p : Stmt L A → Bool) :
    LoopState ι L A K R S → List (Event ι) → Nat
  | _, [] => 0
  | s, e :: es =>
    (if (executed s e).any p = true then 1 else 0) +
      match M.next s e with
      | some s' => executions M p s' es
      | none => 0

/-- The positions of the threads count what the run has executed. -/
theorem total_run {p : Stmt L A → Bool} {es : List (Event ι)} (hok : M.AllOk s)
    (hr : run M.next s es = some s') :
    M.total p s' = M.total p s + M.executions p s es := by
  induction es generalizing s with
  | nil =>
    cases hr
    rfl
  | cons e es ih =>
    obtain ⟨m, hm, hrest⟩ := run_cons_inv hr
    have hstep := step_of_next hm
    rw [ih (allOk_step hok hstep) hrest, total_step hok hstep, executions, hm]
    simp only [Nat.add_assoc]

end LoopSys

end Esystem
