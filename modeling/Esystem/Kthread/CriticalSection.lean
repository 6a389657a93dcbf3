import Esystem.Kthread.Worker

/-!
# What the critical sections of the thread functions protect

Invariants of any family of kernel threads over exclusive locks, from facts
about the bodies that are checked by evaluation:

- `counterOk_step`: `shared_counter` is the number of increments, and a thread
  between its load and its store has loaded the current value. The bodies need
  every store to be a `CounterGuarded` one: inside the lock, right after a load.
- `ledsOk_step`: the LED of a thread is high exactly at the positions between
  switching it on and off. The bodies need each thread to bracket its own pin
  and to leave the pins of the others alone.
-/

namespace Esystem

variable {ι L X B E K : Type} [DecidableEq L]

/-! ## The shared counter -/

/-- A store of the counter happens inside the lock `m`. -/
def storeGuardedAt (m : L) : Block L (KOp X) → Bool
  | [] => true
  | x :: k => !isStore x || owes m (x :: k)

/-- A store of the counter comes right after a load. -/
def storeLoadedAt : Block L (KOp X) → Bool
  | x :: y :: _ => !isStore y || isLoad x
  | _ => true

/-- Every increment of the counter is a load and a store inside the lock `m`. -/
structure CounterGuarded (m : L) (b : Block L (KOp X)) : Prop where
  bracketed : LockBracketed b m
  guarded : AtEach (fun k => storeGuardedAt m k = true) b
  loaded : AtEach (fun k => storeLoadedAt k = true) b

instance (m : L) (b : Block L (KOp X)) : Decidable (CounterGuarded m b) :=
  decidable_of_iff (LockBracketed b m ∧ AtEach (fun k => storeGuardedAt m k = true) b ∧
      AtEach (fun k => storeLoadedAt k = true) b)
    ⟨fun h => ⟨h.1, h.2.1, h.2.2⟩, fun h => ⟨h.bracketed, h.guarded, h.loaded⟩⟩

theorem CounterGuarded.owes_store {m : L} {b k : Block L (KOp X)} (h : CounterGuarded m b)
    (hk : .act .storeCounter :: k <:+ b) : owes m (.act .storeCounter :: k) = true := by
  have := h.guarded _ hk
  simpa [storeGuardedAt, isStore] using this

/-- A body does not start with a store. -/
theorem CounterGuarded.body_ne_store {m : L} {b k : Block L (KOp X)} (h : CounterGuarded m b) :
    b ≠ .act .storeCounter :: k := by
  rintro rfl
  have howes := h.owes_store List.suffix_rfl
  rw [h.bracketed.owes_body] at howes
  cases howes

/-- Only a load leads to a store. -/
theorem CounterGuarded.eq_load {m : L} {b k : Block L (KOp X)} {x : Stmt L (KOp X)}
    (h : CounterGuarded m b) (hk : x :: .act .storeCounter :: k <:+ b) :
    x = .act .loadCounter := by
  have hload : isLoad x = true := by
    simpa [storeLoadedAt, isStore] using h.loaded _ hk
  match x, hload with
  | .act .loadCounter, _ => rfl

namespace Kthread

open LoopSys

variable [Fintype ι] [DecidableEq ι] {b : Bool} {bound : ι → Nat}
  {prog : ι → Block L (KOp X)} {extra : Nat → X → B → E → B × E}
  {s s' : LoopState ι L (KOp X) (L → Option ι) (KReg B) (KShared E)}

/-- `shared_counter` is the number of increments all threads have done, and a
thread about to store holds the current value. -/
structure CounterOk (M : LoopSys ι L (KOp X) (L → Option ι) (KReg B) (KShared E))
    (s : LoopState ι L (KOp X) (L → Option ι) (KReg B) (KShared E)) : Prop where
  count : s.shared.sharedCounter = BitVec.ofNat 32 (M.total isStore s)
  loaded : ∀ t k, M.rest s t = .act .storeCounter :: k →
    (s.reg t).counter = s.shared.sharedCounter

omit [DecidableEq L] [DecidableEq ι] in
/-- A step that does not touch the counter and brings no thread to a store. -/
theorem counterOk_quiet {M : LoopSys ι L (KOp X) (L → Option ι) (KReg B) (KShared E)}
    (h : CounterOk M s) (hsh : s'.shared.sharedCounter = s.shared.sharedCounter)
    (htot : M.total isStore s' = M.total isStore s)
    (hreg : ∀ t, (s'.reg t).counter = (s.reg t).counter)
    (hrest : ∀ t k, M.rest s' t = .act .storeCounter :: k →
      M.rest s t = .act .storeCounter :: k) : CounterOk M s' where
  count := by rw [hsh, htot, h.count]
  loaded t k hk := by rw [hreg, hsh, h.loaded t k (hrest t k hk)]

omit [DecidableEq L] in
/-- A load: its thread holds the current value when it gets to a store. -/
theorem counterOk_load {M : LoopSys ι L (KOp X) (L → Option ι) (KReg B) (KShared E)}
    (h : CounterOk M s) {t : ι} {c : Ctl L (KOp X)} (hctl : s'.ctl = Function.update s.ctl t c)
    (hreg : s'.reg = Function.update s.reg t
      { s.reg t with counter := s.shared.sharedCounter })
    (hsh : s'.shared.sharedCounter = s.shared.sharedCounter)
    (htot : M.total isStore s' = M.total isStore s) : CounterOk M s' where
  count := by rw [hsh, htot, h.count]
  loaded u k hk := by
    rw [hreg, hsh]
    by_cases hu : u = t
    · rw [hu, Function.update_self]
    · rw [rest_update hctl, if_neg hu] at hk
      rw [Function.update_of_ne hu]
      exact h.loaded u k hk

/-- A store in front of `k` is an increment; no other thread is at one, as both
would own the lock. -/
theorem counterOk_store {m : L}
    {M : LoopSys ι L (KOp X) (L → Option ι) (KReg B) (KShared E)} (hheld : M.HeldAsOwed s)
    (hstore : ∀ u k, M.rest s u = .act .storeCounter :: k → owes m (M.rest s u) = true)
    (h : CounterOk M s) {t : ι} {c : Ctl L (KOp X)} {k : Block L (KOp X)}
    (ht : M.rest s t = .act .storeCounter :: k)
    (hctl : s'.ctl = Function.update s.ctl t c)
    (hc : ∀ k, c.rest (M.prog t) ≠ .act .storeCounter :: k)
    (hsh : s'.shared.sharedCounter = (s.reg t).counter + 1)
    (htot : M.total isStore s' = M.total isStore s + 1) : CounterOk M s' where
  count := by
    rw [hsh, htot, h.loaded t k ht, h.count]
    exact (BitVec.ofNat_add _ 1).symm
  loaded u k' hk' := by
    exfalso
    rw [rest_update hctl] at hk'
    split at hk'
    · exact hc k' hk'
    · rename_i hu
      exact hu (owes_unique hheld (hstore u k' hk') (hstore t k ht))

/-- Every step keeps `shared_counter` equal to the number of increments. -/
theorem counterOk_step {m : L} (hg : ∀ t, CounterGuarded m (prog t))
    (hok : (kthreads (exclusive b) bound prog extra).AllOk s)
    (hheld : (kthreads (exclusive b) bound prog extra).HeldAsOwed s)
    (h : CounterOk (kthreads (exclusive b) bound prog extra) s) {e : Event ι}
    (hs : (kthreads (exclusive b) bound prog extra).Step s e s') :
    CounterOk (kthreads (exclusive b) bound prog extra) s' := by
  have htot := total_step (p := isStore) hok hs
  -- a thread that moved without a load is not at a store
  have harrive : ∀ {t : ι} {c : Ctl L (KOp X)}, s'.ctl = Function.update s.ctl t c →
      (∀ k, c.rest (prog t) ≠ .act .storeCounter :: k) → ∀ u k,
      (kthreads (exclusive b) bound prog extra).rest s' u = .act .storeCounter :: k →
        (kthreads (exclusive b) bound prog extra).rest s u = .act .storeCounter :: k := by
    intro t c hctl hne u k hk
    rw [rest_update hctl] at hk
    split at hk
    · exact absurd hk (hne k)
    · exact hk
  have hsuf : ∀ {t : ι} {i : Nat} {k : Block L (KOp X)}, s.ctl t = .body i k → k <:+ prog t :=
    fun hc => (hok.of_body hc).2
  cases hs with
  | @enter t i hc hi =>
    simp only [executed, hc, Option.any_none] at htot
    exact counterOk_quiet h rfl htot (fun _ => rfl)
      (harrive rfl fun k => (hg t).body_ne_store)
  | @leave t i hc hi =>
    simp only [executed, hc, Option.any_none] at htot
    exact counterOk_quiet h rfl htot (fun _ => rfl)
      (harrive rfl fun k => (hg t).body_ne_store)
  | @again t i hc =>
    simp only [executed, hc, Option.any_none] at htot
    exact counterOk_quiet h rfl htot (fun _ => rfl)
      (harrive rfl fun k => (hg t).body_ne_store)
  | @interrupted t i l k hc hi =>
    exact counterOk_quiet h rfl htot (fun _ => rfl)
      (harrive rfl fun k' hk' => by cases hk')
  | @lock t i l k K' hc ha =>
    simp only [executed, hc, Option.any_some, isStore] at htot
    refine counterOk_quiet h rfl htot (fun _ => rfl) (harrive rfl fun k' hk' => ?_)
    cases hk'
    cases (hg t).eq_load (hsuf hc)
  | @unlock t i l k hc =>
    simp only [executed, hc, Option.any_some, isStore] at htot
    refine counterOk_quiet h rfl htot (fun _ => rfl) (harrive rfl fun k' hk' => ?_)
    cases hk'
    cases (hg t).eq_load (hsuf hc)
  | @act t i a k hc =>
    simp only [executed, hc, Option.any_some] at htot
    have hupd : ∀ r : KReg B, r.counter = (s.reg t).counter →
        ∀ u, (Function.update s.reg t r u).counter = (s.reg u).counter := by
      intro r hr u
      by_cases hu : u = t
      · subst hu
        rw [Function.update_self, hr]
      · rw [Function.update_of_ne hu]
    have hnext : a ≠ .loadCounter → ∀ k', k ≠ .act .storeCounter :: k' := by
      rintro ha k' rfl
      have := (hg t).eq_load (hsuf hc)
      exact ha (by cases this; rfl)
    have hrest : (kthreads (exclusive b) bound prog extra).rest s t = .act a :: k := by
      rw [rest, hc]
      rfl
    cases a with
    | loadCounter => exact counterOk_load h rfl rfl rfl htot
    | storeCounter =>
      refine counterOk_store (m := m) hheld (fun u k' hk' => ?_) h hrest rfl (hnext (by simp))
        rfl htot
      rw [hk']
      exact (hg u).owes_store (hk' ▸ hok.rest_suffix u)
    | printkCounter =>
      exact counterOk_quiet h rfl htot (hupd _ rfl) (harrive rfl (hnext (by simp)))
    | writel value offset =>
      exact counterOk_quiet h rfl htot (hupd _ rfl) (harrive rfl (hnext (by simp)))
    | msleep ms =>
      exact counterOk_quiet h rfl htot (hupd _ rfl) (harrive rfl (hnext (by simp)))
    | extra x =>
      exact counterOk_quiet h rfl htot (hupd _ rfl) (harrive rfl (hnext (by simp)))

/-- What every reachable state of threads over exclusive locks satisfies: the
threads are on their code, own what they owe, and count correctly. -/
structure SectionInv (M : LoopSys ι L (KOp X) (L → Option ι) (KReg B) (KShared E))
    (s : LoopState ι L (KOp X) (L → Option ι) (KReg B) (KShared E)) : Prop where
  ok : M.AllOk s
  held : M.HeldAsOwed s
  counter : CounterOk M s

theorem sectionInv_init {m : L} (hb : ∀ t l, LockBracketed (prog t) l)
    (hg : ∀ t, CounterGuarded m (prog t)) (reg : ι → KReg B) (gpio : Gpio) (e : E) :
    SectionInv (kthreads (exclusive b) bound prog extra)
      (init reg (fun _ => none) ⟨0, gpio, e⟩) where
  ok := allOk_init _ _ _
  held := heldAsOwed_init hb _ _
  counter :=
    { count := by
        rw [total_init]
        rfl
      loaded := fun t _ hk => absurd hk (hg t).body_ne_store }

theorem sectionInv_step {m : L} (hb : ∀ t l, LockBracketed (prog t) l)
    (hg : ∀ t, CounterGuarded m (prog t))
    (h : SectionInv (kthreads (exclusive b) bound prog extra) s) {e : Event ι}
    (hs : (kthreads (exclusive b) bound prog extra).next s e = some s') :
    SectionInv (kthreads (exclusive b) bound prog extra) s' where
  ok := allOk_step h.ok (step_of_next hs)
  held := heldAsOwed_step rfl hb h.ok h.held (step_of_next hs)
  counter := counterOk_step hg h.ok h.held h.counter (step_of_next hs)

/-- **The section invariant holds in every run**, interrupted acquisitions
included. -/
theorem sectionInv_run {m : L} (hb : ∀ t l, LockBracketed (prog t) l)
    (hg : ∀ t, CounterGuarded m (prog t)) {reg : ι → KReg B} {gpio : Gpio} {e : E}
    {es : List (Event ι)}
    (hr : run (kthreads (exclusive b) bound prog extra).next
      (init reg (fun _ => none) ⟨0, gpio, e⟩) es = some s) :
    SectionInv (kthreads (exclusive b) bound prog extra) s :=
  run_inv (fun h hs => sectionInv_step hb hg h hs) (sectionInv_init hb hg reg gpio e) hr

/-- `shared_counter` counts the increments that the run has executed. -/
theorem sharedCounter_run {m : L} (hb : ∀ t l, LockBracketed (prog t) l)
    (hg : ∀ t, CounterGuarded m (prog t)) {reg : ι → KReg B} {gpio : Gpio} {e : E}
    {es : List (Event ι)}
    (hr : run (kthreads (exclusive b) bound prog extra).next
      (init reg (fun _ => none) ⟨0, gpio, e⟩) es = some s) :
    s.shared.sharedCounter = BitVec.ofNat 32
      ((kthreads (exclusive b) bound prog extra).executions isStore
        (init reg (fun _ => none) ⟨0, gpio, e⟩) es) := by
  rw [(sectionInv_run hb hg hr).counter.count, total_run (allOk_init _ _ _) hr, total_init,
    Nat.zero_add]

end Kthread

/-! ## The LEDs -/

omit [DecidableEq L] in
/-- What a register write does to the level of pin `p`. -/
theorem level_writel (value : BitVec 32) (offset : Nat) (g : Gpio) (p : Nat) :
    (g.writel value offset).level p =
      if lights p (.act (.writel value offset) : Stmt L (KOp X)) = true then true
      else if darkens p (.act (.writel value offset) : Stmt L (KOp X)) = true then false
      else g.level p := by
  simp only [lights, darkens, Bool.and_eq_true, decide_eq_true_eq]
  by_cases hs : offset = gpset0
  · subst hs
    show (g.level p || value.getLsbD p) = _
    cases value.getLsbD p
    · simp [gpset0, gpclr0]
    · simp
  · by_cases hc : offset = gpclr0
    · subst hc
      show (g.level p && !value.getLsbD p) = _
      cases value.getLsbD p
      · simp
      · simp [gpset0, gpclr0]
    · rw [Gpio.level_writel_other hs hc]
      simp [hs, hc]

/-- Each thread switches its own pin on and off in turn, and no other thread
touches it. -/
structure LedGuarded (pin : ι → Nat) (prog : ι → Block L (KOp X)) : Prop where
  own : ∀ t, Bracketed (lights (pin t)) (darkens (pin t)) (prog t)
  alone : ∀ t u, u ≠ t → ∀ x ∈ prog u,
    lights (pin t) x = false ∧ darkens (pin t) x = false

namespace Kthread

open LoopSys

variable [DecidableEq ι] {b : Bool} {bound : ι → Nat}
  {prog : ι → Block L (KOp X)} {extra : Nat → X → B → E → B × E} {sync : Sync ι L K}
  {s s' : LoopState ι L (KOp X) K (KReg B) (KShared E)}

/-- The LED of each thread is high exactly where the thread still has to switch
it off. -/
def LedsOk (M : LoopSys ι L (KOp X) K (KReg B) (KShared E)) (pin : ι → Nat)
    (s : LoopState ι L (KOp X) K (KReg B) (KShared E)) : Prop :=
  ∀ t, s.shared.gpio.level (pin t) = lit (pin t) (M.rest s t)

omit [DecidableEq L] in
/-- A step that moves thread `t`, changes no level, and keeps what is owed to
`t`'s LED. -/
theorem ledsOk_move {pin : ι → Nat}
    (h : LedsOk (kthreads sync bound prog extra) pin s) {t : ι} {c : Ctl L (KOp X)}
    (hctl : s'.ctl = Function.update s.ctl t c)
    (hlevel : s'.shared.gpio.level = s.shared.gpio.level)
    (hlit : lit (pin t) (c.rest (prog t))
      = lit (pin t) ((kthreads sync bound prog extra).rest s t)) :
    LedsOk (kthreads sync bound prog extra) pin s' := by
  intro u
  rw [hlevel, rest_update hctl]
  split
  · rename_i hu
    subst hu
    exact (h u).trans hlit.symm
  · exact h u

omit [DecidableEq L] in
/-- Every step keeps the LEDs in line with the positions of their threads. -/
theorem ledsOk_step {pin : ι → Nat} (hg : LedGuarded pin prog)
    (hok : (kthreads sync bound prog extra).AllOk s)
    (h : LedsOk (kthreads sync bound prog extra) pin s) {e : Event ι}
    (hs : (kthreads sync bound prog extra).Step s e s') :
    LedsOk (kthreads sync bound prog extra) pin s' := by
  -- statements that are not register writes owe nothing to an LED
  have hskip : ∀ {t : ι} {i : Nat} {x : Stmt L (KOp X)} {k : Block L (KOp X)},
      s.ctl t = .body i (x :: k) → lights (pin t) x = false → darkens (pin t) x = false →
      lit (pin t) k = lit (pin t) ((kthreads sync bound prog extra).rest s t) := by
    intro t i x k hc hl hd
    rw [rest, hc]
    exact (owed_of_neither hl hd k).symm
  cases hs with
  | enter hc hi => exact ledsOk_move h rfl rfl (by rw [rest, hc]; rfl)
  | leave hc hi => exact ledsOk_move h rfl rfl (by rw [rest, hc]; rfl)
  | again hc =>
    refine ledsOk_move h rfl rfl ?_
    rw [rest, hc]
    exact (hg.own _).outside
  | interrupted hc hi => exact ledsOk_move h rfl rfl (by rw [rest, hc]; rfl)
  | lock hc ha => exact ledsOk_move h rfl rfl (hskip hc rfl rfl)
  | unlock hc => exact ledsOk_move h rfl rfl (hskip hc rfl rfl)
  | @act t i a k hc =>
    cases a with
    | loadCounter => exact ledsOk_move h rfl rfl (hskip hc rfl rfl)
    | storeCounter => exact ledsOk_move h rfl rfl (hskip hc rfl rfl)
    | printkCounter => exact ledsOk_move h rfl rfl (hskip hc rfl rfl)
    | msleep ms => exact ledsOk_move h rfl rfl (hskip hc rfl rfl)
    | extra x => exact ledsOk_move h rfl rfl (hskip hc rfl rfl)
    | writel value offset =>
      have hsuf : .act (.writel value offset) :: k <:+ prog t := (hok.of_body hc).2
      have hmem : .act (.writel value offset) ∈ prog t := hsuf.subset List.mem_cons_self
      intro u
      rw [rest_update (s := s) rfl u]
      show (s.shared.gpio.writel value offset).level (pin u) = _
      rw [level_writel (L := L) (X := X)]
      by_cases hu : u = t
      · subst hu
        rw [if_pos rfl]
        by_cases hl : lights (pin u) (.act (.writel value offset) : Stmt L (KOp X)) = true
        · rw [if_pos hl]
          exact ((hg.own u).opens _ _ hsuf hl).2.symm
        · rw [if_neg hl]
          by_cases hd : darkens (pin u) (.act (.writel value offset) : Stmt L (KOp X)) = true
          · rw [if_pos hd]
            exact ((hg.own u).closes _ _ hsuf hd).symm
          · rw [if_neg hd]
            exact (h u).trans (hskip hc (by simpa using hl) (by simpa using hd)).symm
      · obtain ⟨hl, hd⟩ := hg.alone u t (Ne.symm hu) _ hmem
        rw [hl, hd, if_neg hu]
        exact h u

omit [DecidableEq L] in
/-- The LEDs are in line with the positions of their threads in every run that
starts with all of them low. -/
theorem ledsOk_run {pin : ι → Nat} (hg : LedGuarded pin prog) {reg : ι → KReg B} {locks : K}
    {m : KShared E} (hlow : ∀ t, m.gpio.level (pin t) = false) {es : List (Event ι)}
    (hr : run (kthreads sync bound prog extra).next (init reg locks m) es = some s) :
    LedsOk (kthreads sync bound prog extra) pin s := by
  have hinit : LedsOk (kthreads sync bound prog extra) pin (init reg locks m) :=
    fun t => (hlow t).trans (hg.own t).outside.symm
  let I := fun s => (kthreads sync bound prog extra).AllOk s ∧
    LedsOk (kthreads sync bound prog extra) pin s
  have hboth : I s := run_inv (I := I) (fun h hs => ⟨allOk_step h.1 (step_of_next hs),
    ledsOk_step hg h.1 h.2 (step_of_next hs)⟩) ⟨allOk_init _ _ _, hinit⟩ hr
  exact hboth.2

end Kthread

end Esystem
