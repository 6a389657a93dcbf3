import Esystem.Core.LockDiscipline

/-!
# Locks that are never given back

A thread that has returned with a lock owned keeps it for ever
(`owned_of_done`). For the other threads this means:

- `leaked_run`: no statement is executed any more that bodies make only while
  they hold the lock, and none that acquires it. So what such statements do
  stands still, from that moment on and in every continuation.
- `round_le_of_performed`: a thread that acquires the lock once a round gets at
  most to the loop test behind its current round.
- `not_leaked_step`: only an interrupted acquisition leads into such a state.
-/

namespace Esystem

variable {ι L A K R S : Type}

namespace LoopSys

section Performed

variable [DecidableEq ι] {M : LoopSys ι L A K R S} {s s' : LoopState ι L A K R S}

omit [DecidableEq ι] in
/-- The thread whose statement an event executes is at that statement. -/
theorem ctl_of_executed {e : Event ι} {x : Stmt L A} (h : executed s e = some x) :
    ∃ t i k, e = .step t ∧ s.ctl t = .body i (x :: k) := by
  cases e with
  | interrupt t => cases h
  | step t =>
    rw [executed] at h
    split at h
    · rename_i i y k hc
      cases h
      exact ⟨t, i, k, rfl, hc⟩
    · cases h

/-- What thread `u` has executed of the kind `p` changes only where a statement
of that kind is executed. -/
theorem performed_step {p : Stmt L A → Bool} {e : Event ι} (hok : M.AllOk s)
    (hs : M.Step s e s') (hp : (executed s e).any p = false) (u : ι) :
    (s'.ctl u).performed p (M.prog u) = (s.ctl u).performed p (M.prog u) := by
  have hmove : ∀ {t : ι} {c : Ctl L A}, s'.ctl = Function.update s.ctl t c →
      c.performed p (M.prog t) = (s.ctl t).performed p (M.prog t) →
      (s'.ctl u).performed p (M.prog u) = (s.ctl u).performed p (M.prog u) := by
    intro t c hctl hc
    rw [hctl]
    by_cases hu : u = t
    · rw [hu, Function.update_self, hc]
    · rw [Function.update_of_ne hu]
  -- a statement that is not of the kind `p` is not counted
  have hconsume : ∀ {t : ι} {i : Nat} {x : Stmt L A} {k : Block L A},
      s.ctl t = .body i (x :: k) → p x = false →
      (Ctl.body i k).performed p (M.prog t) = (s.ctl t).performed p (M.prog t) := by
    intro t i x k hc hx
    rw [hc, Ctl.performed_consume (hok.of_body hc).2, hx]
    rfl
  cases hs with
  | @enter t i hc hi => exact hmove rfl (by rw [hc]; exact Ctl.performed_enter i)
  | @leave t i hc hi => exact hmove rfl (by rw [hc]; rfl)
  | @again t i hc => exact hmove rfl (by rw [hc]; exact Ctl.performed_again i)
  | @interrupted t i l k hc hi => exact hmove rfl (by rw [hc]; rfl)
  | @lock t i l k K' hc ha =>
    simp only [executed, hc, Option.any_some] at hp
    exact hmove rfl (hconsume hc hp)
  | @unlock t i l k hc =>
    simp only [executed, hc, Option.any_some] at hp
    exact hmove rfl (hconsume hc hp)
  | @act t i a k hc =>
    simp only [executed, hc, Option.any_some] at hp
    exact hmove rfl (hconsume hc hp)

end Performed

section Exclusive

variable [DecidableEq ι] [DecidableEq L] {X : LoopSys ι L A (L → Option ι) R S}
  {x x' : LoopState ι L A (L → Option ι) R S}

/-- A statement of the kind `p` is made only while `l` is held. -/
def HoldsAt (l : L) (p : Stmt L A → Bool) (b : Block L A) : Prop :=
  AtEach (fun k => (k.head?).any p = true → owes l k = true) b

instance (l : L) (p : Stmt L A → Bool) (b : Block L A) : Decidable (HoldsAt l p b) :=
  inferInstanceAs (Decidable (AtEach _ b))

/-- The statement acquires `l`, or is one of the kind `p`. -/
def needs (l : L) (p : Stmt L A → Bool) (x : Stmt L A) : Bool :=
  takes l x || p x

/-- Where `l` is owned by a thread that has returned, an event executes no
statement that needs `l`. -/
theorem not_needs_of_leaked {b : Bool} (hsync : X.sync = exclusive b) {l : L}
    {p : Stmt L A → Bool} (hp : ∀ t, HoldsAt l p (X.prog t)) (hok : X.AllOk x)
    (hheld : X.HeldAsOwed x) {t : ι} (hd : (x.ctl t).Done) (hl : x.locks l = some t)
    {e : Event ι} (hs : X.next x e = some x') : (executed x e).any (needs l p) = false := by
  rw [Bool.eq_false_iff]
  intro hany
  obtain ⟨y, hy, hneeds⟩ := (Option.any_eq_true _ _).mp hany
  obtain ⟨u, i, k, rfl, hc⟩ := ctl_of_executed hy
  have hut : u ≠ t := by
    rintro rfl
    rw [hc] at hd
    exact hd
  rcases Bool.or_eq_true_iff.mp hneeds with htakes | hkind
  · -- an acquisition of `l` blocks
    match y, htakes, hc with
    | .lock m, htakes, hc =>
      obtain rfl : m = l := of_decide_eq_true htakes
      simp only [LoopSys.next, hc, hsync, exclusive, hl] at hs
      cases hs
  · -- a statement of the kind `p` would be made by the owner
    have hrest : X.rest x u = y :: k := by rw [rest, hc]; rfl
    have hsuf := hok.rest_suffix u
    have howes := hp u _ hsuf (by rw [hrest]; exact hkind)
    have hown := (hheld l u).mpr howes
    rw [hl] at hown
    exact hut (Option.some.inj hown).symm

/-- **A leaked lock stands still**: in every run from a state in which a thread
has returned owning `l`, the lock stays owned, and no thread executes a statement
that needs it. So `P`, which the other statements keep, is kept, and no thread
gets on with the statements that need `l`. -/
theorem leaked_run {b : Bool} (hsync : X.sync = exclusive b)
    (hb : ∀ t l, LockBracketed (X.prog t) l) {l : L} {p : Stmt L A → Bool}
    (hp : ∀ t, HoldsAt l p (X.prog t))
    {P : LoopState ι L A (L → Option ι) R S → Prop}
    (hP : ∀ {y e y'}, P y → (executed y e).any (needs l p) = false → X.Step y e y' → P y')
    (hok : X.AllOk x) (hheld : X.HeldAsOwed x) {t : ι} (hd : (x.ctl t).Done)
    (hl : x.locks l = some t) (hPx : P x) {es : List (Event ι)}
    (hr : run X.next x es = some x') :
    x'.locks l = some t ∧ P x' ∧ ∀ u,
      (x'.ctl u).performed (needs l p) (X.prog u) = (x.ctl u).performed (needs l p) (X.prog u) := by
  refine ⟨owned_of_done hsync hb hok hheld hd hl hr, ?_⟩
  let I := fun y => ((X.AllOk y ∧ X.HeldAsOwed y) ∧ (y.ctl t).Done ∧ y.locks l = some t) ∧ P y ∧
    ∀ u, (y.ctl u).performed (needs l p) (X.prog u) = (x.ctl u).performed (needs l p) (X.prog u)
  have hI : I x' := by
    refine run_inv (I := I) ?_ ⟨⟨⟨hok, hheld⟩, hd, hl⟩, hPx, fun _ => rfl⟩ hr
    rintro y e y' ⟨⟨⟨hok, hheld⟩, hd, hl⟩, hPy, hperf⟩ hs
    have hstep := step_of_next hs
    have hquiet := not_needs_of_leaked hsync hp hok hheld hd hl hs
    have hctl : y'.ctl t = y.ctl t := ctl_of_done hd hstep
    have hone : run X.next y [e] = some y' := (run_cons_some hs).mpr rfl
    have hlocked : y'.locks l = some t := owned_of_done hsync hb hok hheld hd hl hone
    exact ⟨⟨⟨allOk_step hok hstep, heldAsOwed_step hsync hb hok hheld hstep⟩, hctl ▸ hd, hlocked⟩,
      hP hPy hquiet hstep, fun u => (performed_step hok hstep hquiet u).trans (hperf u)⟩
  exact hI.2

/-- Some thread has returned with a lock owned. -/
def Leaked (x : LoopState ι L A (L → Option ι) R S) : Prop :=
  ∃ t l, (x.ctl t).Done ∧ x.locks l = some t

instance [Fintype ι] [Fintype L] (x : LoopState ι L A (L → Option ι) R S) :
    Decidable (Leaked x) :=
  inferInstanceAs (Decidable (∃ t l, (x.ctl t).Done ∧ x.locks l = some t))

/-- A leaked lock stays leaked. -/
theorem leaked_step {b : Bool} (hsync : X.sync = exclusive b)
    (hb : ∀ t l, LockBracketed (X.prog t) l) (hok : X.AllOk x) (hheld : X.HeldAsOwed x)
    (h : Leaked x) {e : Event ι} (hs : X.next x e = some x') : Leaked x' := by
  obtain ⟨t, l, hd, hl⟩ := h
  have hctl : x'.ctl t = x.ctl t := ctl_of_done hd (step_of_next hs)
  have hone : run X.next x [e] = some x' := (run_cons_some hs).mpr rfl
  exact ⟨t, l, hctl ▸ hd, owned_of_done hsync hb hok hheld hd hl hone⟩

/-- Only an interrupted acquisition leaks a lock. -/
theorem not_leaked_step {b : Bool} (hsync : X.sync = exclusive b)
    (hb : ∀ t l, LockBracketed (X.prog t) l) (hok : X.AllOk x) (hheld : X.HeldAsOwed x)
    (h : ¬ Leaked x) {t : ι} (hs : X.next x (.step t) = some x') : ¬ Leaked x' := by
  rintro ⟨u, l, hd, hl⟩
  have hstep := step_of_next hs
  have howes := (heldAsOwed_step hsync hb hok hheld hstep l u).mp hl
  rcases done_of_step hstep hd with ⟨hd', hctl⟩ | hrest | ⟨i, m, k, he, -, -⟩
  · rw [rest, hctl] at howes
    exact h ⟨u, l, hd', (hheld l u).mpr howes⟩
  · rw [hrest, (hb u l).owes_body] at howes
    cases howes
  · cases he

omit [DecidableEq ι] in
/-- Where no lock is leaked, a thread that has returned owes nothing. -/
theorem owes_of_done_of_not_leaked (hheld : X.HeldAsOwed x) (h : ¬ Leaked x) {t : ι}
    (hd : (x.ctl t).Done) (l : L) : owes l (X.rest x t) = false := by
  rw [Bool.eq_false_iff]
  exact fun howes => h ⟨t, l, hd, (hheld l t).mpr howes⟩

end Exclusive

end LoopSys

/-- A thread that has returned did so at some point of its code. -/
theorem Ctl.exists_returned {c : Ctl L A} (hd : c.Done) : ∃ v i k, c = .returned v i k := by
  cases c with
  | head i => exact hd.elim
  | body i k => exact hd.elim
  | returned v i k => exact ⟨v, i, k, rfl⟩

/-- A thread that does not get on with statements of its body gets at most to
the loop test behind its current round. -/
theorem Ctl.round_le_of_performed {p : Stmt L A → Bool} {b : Block L A} (hp : 0 < b.countP p)
    {c c' : Ctl L A} (hle : c'.performed p b ≤ c.performed p b) : c'.round ≤ c.round + 1 := by
  unfold performed at hle
  by_contra hlt
  have hmul : (c.round + 2) * b.countP p ≤ c'.round * b.countP p :=
    Nat.mul_le_mul_right _ (by omega)
  rw [Nat.add_mul] at hmul
  omega

/-- If one of them is still to come in that round, not even there. -/
theorem Ctl.round_le_of_pending {p : Stmt L A → Bool} {b : Block L A} {c c' : Ctl L A}
    (hp : 0 < (c.rest b).countP p) (hrest : (c.rest b).countP p ≤ b.countP p)
    (hle : c'.performed p b ≤ c.performed p b) : c'.round ≤ c.round := by
  unfold performed at hle
  by_contra hlt
  have hmul : (c.round + 1) * b.countP p ≤ c'.round * b.countP p :=
    Nat.mul_le_mul_right _ (by omega)
  rw [Nat.add_mul] at hmul
  omega

end Esystem
