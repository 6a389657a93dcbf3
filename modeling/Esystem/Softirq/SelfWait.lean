import Esystem.Softirq.Tasklet

/-!
# Handlers that wait for what they have suspended

`isr_tasklet` calls `tasklet_disable`, which waits until a running instance of
the tasklet has finished. An interrupt that arrives on the CPU on which
`isr_func` runs suspends it, and then waits for it.

- `never_waits`: if no interrupt arrives on the CPU that runs `isr_func`, no
  handler waits for what it suspends, and while anything is active something can
  go on.
- `irq_on_body_hangs`: every interrupt that does leads to a wait that never
  ends.
- `handler_waits_for_itself`: such an interrupt can arrive, and then everything
  stands still.
-/

namespace Esystem.Softirq

variable {ι : Type}

/-- The handler on CPU `c` waits inside `tasklet_disable` for an execution of
`isr_func` that is suspended underneath it. -/
def SelfWaits (s : State ι) (c : ι) : Prop :=
  s.isr c = .disableWait ∧ ∃ pc, s.running = some (c, pc)

/-- Something has begun and not ended. -/
def Active (s : State ι) : Prop :=
  s.initTodo = true ∨ s.queued ≠ none ∨ s.running ≠ none ∨ ∃ c, s.isr c ≠ .idle

/-- The event is not an interrupt on the CPU that runs `isr_func`. -/
def SparesBody (s : State ι) : Event ι → Prop
  | .irq c => ∀ r ∈ s.running, r.1 ≠ c
  | _ => True

variable [DecidableEq ι]

instance (s : State ι) : DecidablePred (SparesBody s)
  | .irq c => inferInstanceAs (Decidable (∀ r ∈ s.running, r.1 ≠ c))
  | .isr _ => inferInstanceAs (Decidable True)
  | .softirq _ => inferInstanceAs (Decidable True)
  | .body => inferInstanceAs (Decidable True)
  | .init _ => inferInstanceAs (Decidable True)

/-- No handler waits for itself, and while anything is active, an event other
than a new interrupt can happen. -/
structure Live (s : State ι) : Prop where
  noSelfWait : ∀ c, ¬ SelfWaits s c
  progress : Active s → ∃ e s', (∀ c, e ≠ .irq c) ∧ next s e = some s'

/-! ## When no interrupt arrives on the CPU of the body -/

/-- A handler between raising the disable count and lowering it. -/
def IsrPc.disabling : IsrPc → Nat
  | .disableWait => 1
  | .schedule => 1
  | .enable => 1
  | _ => 0

/-- The disable count is the number of handlers that hold it up, and no handler
is active above the body. -/
structure Unsuspended [Fintype ι] (s : State ι) : Prop where
  counted : s.count = ∑ c, (s.isr c).disabling
  above : ∀ c pc, s.running = some (c, pc) → s.isr c = .idle

variable {s s' : State ι}

omit [DecidableEq ι] in
theorem unsuspended_start [Fintype ι] (g : Gpio) : Unsuspended (start g : State ι) where
  counted := (Finset.sum_eq_zero fun _ _ => rfl).symm
  above _ _ h := by cases h

omit [DecidableEq ι] in
/-- `isr_func` touches neither the handlers nor the count, and stays on its CPU. -/
theorem isrFunc_frame (s : State ι) (c : ι) (pc : BodyPc) :
    (isrFunc s c pc).isr = s.isr ∧ (isrFunc s c pc).count = s.count ∧
      ∀ d pc', (isrFunc s c pc).running = some (d, pc') → d = c := by
  cases pc
  case ret => exact ⟨rfl, rfl, fun _ _ h => by cases h⟩
  all_goals exact ⟨rfl, rfl, fun _ _ h => by cases h; rfl⟩

/-- A handler other than the one above the body may move. -/
theorem above_goto (h : ∀ c pc, s.running = some (c, pc) → s.isr c = .idle) {c : ι} {p : IsrPc}
    (hc : ∀ pc, s.running ≠ some (c, pc)) :
    ∀ d pc, s.running = some (d, pc) → (s.goto c p).isr d = .idle := by
  intro d pc hd
  have hdc : d ≠ c := by
    rintro rfl
    exact hc pc hd
  exact (Function.update_of_ne hdc _ _).trans (h d pc hd)

variable [Fintype ι]

/-- Events that are not interrupts on the body's CPU leave the body free. -/
theorem unsuspended_step (h : Unsuspended s) {e : Event ι} (he : SparesBody s e)
    (hs : next s e = some s') : Unsuspended s' := by
  have hcount := h.counted
  -- a CPU with an active handler does not run the body
  have hactive : ∀ {c : ι} {p : IsrPc}, s.isr c = p → p ≠ .idle →
      ∀ pc, s.running ≠ some (c, pc) := by
    rintro c p hc hp pc hr
    exact hp (hc.symm.trans (h.above c pc hr))
  cases step_of_next hs with
  | @irq c hc =>
    have hsum := sum_goto IsrPc.disabling hc .disableCount
    exact ⟨hcount.trans hsum.symm, above_goto h.above fun pc hr => he (c, pc) hr rfl⟩
  | @disableCount c hc =>
    have hsum := sum_goto IsrPc.disabling hc .disableWait
    exact ⟨(congrArg (· + 1) hcount).trans hsum.symm,
      above_goto h.above (hactive hc (by decide))⟩
  | @disableWait c hc hr =>
    have hsum := sum_goto IsrPc.disabling hc .schedule
    exact ⟨hcount.trans (Nat.add_right_cancel hsum).symm,
      above_goto h.above (hactive hc (by decide))⟩
  | @schedule c hc =>
    have hsum := sum_goto IsrPc.disabling hc .enable
    obtain ⟨hisr, hcnt, hrun⟩ := taskletSchedule_frame (s.goto c .enable) c
    refine ⟨?_, ?_⟩
    · rw [hcnt, hisr]
      exact hcount.trans (Nat.add_right_cancel hsum).symm
    · rw [hrun, hisr]
      exact above_goto h.above (hactive hc (by decide))
  | @enable c hc =>
    have hsum := sum_goto IsrPc.disabling hc .ret
    have hsum : ∑ d, ((s.goto c .ret).isr d).disabling + 1 = ∑ d, (s.isr d).disabling := hsum
    refine ⟨?_, above_goto h.above (hactive hc (by decide))⟩
    show s.count - 1 = ∑ d, ((s.goto c .ret).isr d).disabling
    omega
  | @ret c hc =>
    have hsum := sum_goto IsrPc.disabling hc .idle
    exact ⟨hcount.trans hsum.symm, above_goto h.above (hactive hc (by decide))⟩
  | @softirq c hq hc hr h0 =>
    refine ⟨hcount, fun d pc hd => ?_⟩
    cases hd
    exact hc
  | @body c pc hr hc =>
    obtain ⟨hisr, hcnt, hrun⟩ := isrFunc_frame s c pc
    refine ⟨by rw [hcnt, hisr, hcount], fun d pc' hd => ?_⟩
    rw [hrun d pc' hd, hisr]
    exact hc
  | @init c hi hc =>
    obtain ⟨hisr, hcnt, hrun⟩ := taskletSchedule_frame s c
    refine ⟨?_, ?_⟩
    · show (s.taskletSchedule c).count = ∑ d, ((s.taskletSchedule c).isr d).disabling
      rw [hcnt, hisr, hcount]
    · show ∀ d pc, (s.taskletSchedule c).running = some (d, pc) →
        (s.taskletSchedule c).isr d = .idle
      rw [hrun, hisr]
      exact h.above

/-- Where the body is free, something can go on: the body, else a handler, else
the queued tasklet, else `switch_init`. -/
theorem Unsuspended.live [Nonempty ι] (h : Unsuspended s) : Live s where
  noSelfWait := by
    rintro c ⟨hc, pc, hr⟩
    rw [h.above c pc hr] at hc
    cases hc
  progress := by
    intro hactive
    cases hr : s.running with
    | some r =>
      obtain ⟨c, pc⟩ := r
      refine ⟨.body, isrFunc s c pc, fun d => by simp, ?_⟩
      simp only [next, hr, if_pos (h.above c pc hr)]
    | none =>
      by_cases hidle : ∀ c, s.isr c = .idle
      · have hcount : s.count = 0 :=
          h.counted.trans (Finset.sum_eq_zero fun c _ => by rw [hidle c]; rfl)
        cases hq : s.queued with
        | some c =>
          exact ⟨.softirq c, _, fun d => by simp, if_pos ⟨hq, hidle c, hr, hcount⟩⟩
        | none =>
          have hinit : s.initTodo = true := by
            rcases hactive with hi | hq' | hr' | ⟨c, hc⟩
            · exact hi
            · exact absurd hq hq'
            · exact absurd hr hr'
            · exact absurd (hidle c) hc
          obtain ⟨c⟩ := ‹Nonempty ι›
          have hfree : s.Free c := ⟨hidle c, by rw [hr]; simp⟩
          exact ⟨.init c, _, fun d => by simp, if_pos ⟨hinit, hfree⟩⟩
      · obtain ⟨c, hc⟩ := not_forall.mp hidle
        have hstep : ∃ s', isrTasklet s c = some s' := by
          cases hp : s.isr c with
          | idle => exact absurd hp hc
          | disableWait => exact ⟨_, by rw [isrTasklet, hp]; exact if_pos hr⟩
          | disableCount => exact ⟨_, by rw [isrTasklet, hp]⟩
          | schedule => exact ⟨_, by rw [isrTasklet, hp]⟩
          | enable => exact ⟨_, by rw [isrTasklet, hp]⟩
          | ret => exact ⟨_, by rw [isrTasklet, hp]⟩
        obtain ⟨s', hs'⟩ := hstep
        exact ⟨.isr c, s', fun d => by simp, hs'⟩

/-- **No handler waits for itself when interrupts spare the CPU of the body**,
and while anything is active, something can go on. -/
theorem never_waits [Nonempty ι] (g : Gpio) (es : List (Event ι)) (s : State ι)
    (hC : StepsMeet next SparesBody (start g) es) (hr : run next (start g) es = some s) :
    Live s :=
  (run_inv_where (I := Unsuspended) (fun h he hs => unsuspended_step h he hs)
    (unsuspended_start g) hC hr).live

/-- An interrupt on one CPU while the other runs the body. -/
def otherCpu : List (Event Cpu) :=
  [.init .cpu0, .softirq .cpu0, .irq .cpu1, .isr .cpu1, .body, .body, .body, .body, .isr .cpu1]

/-- The handler can go on once the body has finished. -/
theorem never_waits_otherCpu :
    ∃ s, run next (start ⟨fun _ => 0, fun _ => false⟩) otherCpu = some s ∧ Live s := by
  obtain ⟨s, hs, -⟩ := exists_run_of_any next (start ⟨fun _ => 0, fun _ => false⟩) otherCpu
    (fun _ => true) (by decide)
  exact ⟨s, hs, never_waits ⟨fun _ => 0, fun _ => false⟩ otherCpu s (by decide) hs⟩

/-! ## When one does -/

omit [Fintype ι]

/-- A handler that waits for itself does so for ever. -/
theorem selfWaits_forever {c : ι} (h : SelfWaits s c) {es : List (Event ι)}
    (hr : run next s es = some s') : SelfWaits s' c := by
  refine run_inv (I := fun s => SelfWaits s c) (fun {s e s'} h hs => ?_) h hr
  obtain ⟨hw, pc, hrun⟩ := h
  -- neither the handler nor the body can move, and nothing else touches them
  have hne : ∀ {d : ι} {p : IsrPc}, s.isr d = p → p ≠ .disableWait → c ≠ d := by
    rintro d p hd hp rfl
    exact hp (hd.symm.trans hw)
  have hkeep : ∀ {d : ι} {p : IsrPc}, c ≠ d → SelfWaits (s.goto d p) c := fun hcd =>
    ⟨(Function.update_of_ne hcd _ _).trans hw, pc, hrun⟩
  cases step_of_next hs with
  | irq hc => exact hkeep (hne hc (by decide))
  | disableCount hc => exact hkeep (hne hc (by decide))
  | disableWait hc hr =>
    rw [hrun] at hr
    cases hr
  | @schedule d hc =>
    obtain ⟨hisr, -, hrun'⟩ := taskletSchedule_frame (s.goto d .enable) d
    have hmoved : SelfWaits (s.goto d .enable) c := hkeep (hne hc (by decide))
    exact ⟨by rw [hisr]; exact hmoved.1, pc, by rw [hrun']; exact hrun⟩
  | enable hc => exact hkeep (hne hc (by decide))
  | ret hc => exact hkeep (hne hc (by decide))
  | softirq hq hc hr h0 =>
    rw [hrun] at hr
    cases hr
  | body hr hc =>
    rw [hrun] at hr
    cases hr
    rw [hw] at hc
    cases hc
  | @init d hi hc =>
    obtain ⟨hisr, -, hrun'⟩ := taskletSchedule_frame s d
    refine ⟨?_, pc, ?_⟩
    · show (s.taskletSchedule d).isr c = _
      rw [hisr, hw]
    · show (s.taskletSchedule d).running = _
      rw [hrun', hrun]

/-- An interrupt on the CPU that runs the body hangs that CPU: its handler's next
step waits, for ever. -/
theorem irq_on_body_hangs {c : ι} {pc : BodyPc} (hr : s.running = some (c, pc))
    (hc : s.isr c = .idle) :
    ∃ s', run next s [.irq c, .isr c] = some s' ∧
      ∀ es s'', run next s' es = some s'' → SelfWaits s'' c := by
  let s₁ := s.goto c .disableCount
  let s₂ : State ι := { s₁.goto c .disableWait with count := s₁.count + 1 }
  have hpc₁ : s₁.isr c = .disableCount := Function.update_self _ _ _
  have hpc₂ : s₂.isr c = .disableWait := Function.update_self _ _ _
  have h1 : next s (.irq c) = some s₁ := if_pos hc
  have h2 : next s₁ (.isr c) = some s₂ := by
    rw [next, isrTasklet, hpc₁]
  refine ⟨s₂, (run_cons_some h1).mpr ((run_cons_some h2).mpr rfl), fun es s'' hrun => ?_⟩
  exact selfWaits_forever ⟨hpc₂, pc, hr⟩ hrun

/-- A press that interrupts the body. -/
def sameCpu : List (Event Cpu) := [.init .cpu0, .softirq .cpu0, .irq .cpu0, .isr .cpu0]

/-- The handler waits for the body it has suspended, and nothing can go on. -/
theorem handler_waits_for_itself :
    ∃ s, run next (start ⟨fun _ => 0, fun _ => false⟩) sameCpu = some s ∧ SelfWaits s .cpu0 ∧
      Active s ∧ ∀ e, (∀ c, e ≠ .irq c) → next s e = none := by
  obtain ⟨s, hs, hp⟩ := exists_run_of_any next (start ⟨fun _ => 0, fun _ => false⟩) sameCpu
    (fun s => decide (s.isr .cpu0 = .disableWait ∧ s.isr .cpu1 = .idle ∧
      s.running = some (.cpu0, .getValue) ∧ s.queued = none ∧ s.initTodo = false)) (by decide)
  obtain ⟨hw, h1, hr, hq, hi⟩ := of_decide_eq_true hp
  refine ⟨s, hs, ⟨hw, .getValue, hr⟩, .inr (.inr (.inl (by simp [hr]))), fun e he => ?_⟩
  cases e with
  | irq c => exact absurd rfl (he c)
  | isr c =>
    cases c with
    | cpu0 => simp [next, isrTasklet, hw, hr]
    | cpu1 => simp [next, isrTasklet, h1]
  | softirq c => simp [next, hq]
  | body => simp [next, hr, hw]
  | init c => simp [next, hi]

end Esystem.Softirq
