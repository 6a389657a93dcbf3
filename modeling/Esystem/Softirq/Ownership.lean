import Esystem.Core.Bracket
import Esystem.Core.CInt
import Esystem.Softirq.Toggle

/-!
# Whose LEDs the tasklet drives

`switch_init` of switch_softirq.c requests the pins of the LEDs and schedules the
tasklet before it looks at the result of `request_irq`; `switch_exit` frees the
pins before it waits for the tasklet. Here the whole life of the module runs
interleaved, statement by statement, with the interrupts and the tasklet.

- `touches_owned`: `isr_func` accesses the LEDs only while the module owns them,
  in the runs in which both requests succeed and the tasklet is `Quiet` whenever
  an LED is freed and whenever `switch_init` fails.
- `touches_freed`: a tasklet that is still scheduled accesses pins that
  `switch_exit` has freed, or runs after the module has been removed.
-/

namespace Esystem.Softirq

/-- `#define MAJOR_NUMBER 104`. -/
def majorNumber : CInt := 104

/-- `#define GPIO_SW 25`. -/
def gpioSw : Nat := 25

/-- The statements of `switch_init`. The number that `gpio_to_irq` finds is left
out: there is one line, and the driver's handler is on it or not. `ret` is
`if (err < 0) return -1; return 0;`. -/
inductive InitStmt where
  | registerChrdev
  | gpioRequest (pin : Nat)
  | gpioDirectionOutput (pin : Nat) (v : Bool)
  | gpioSetValue (pin : Nat) (v : Bool)
  | requestIrq
  | taskletSchedule
  | ret
  deriving DecidableEq

/-- The statements of `switch_exit`. -/
inductive ExitStmt where
  | unregisterChrdev
  | freeIrq
  | gpioFree (pin : Nat)
  | taskletKill
  | ret
  deriving DecidableEq

/-- One of the five rounds in which `switch_init` blinks both LEDs. -/
def blinkRound : List InitStmt :=
  [.gpioSetValue gpioLed1 true, .gpioSetValue gpioLed2 true,
    .gpioSetValue gpioLed1 false, .gpioSetValue gpioLed2 false]

def switchInit : List InitStmt :=
  [.registerChrdev,
    .gpioRequest gpioLed1, .gpioDirectionOutput gpioLed1 false,
    .gpioRequest gpioLed2, .gpioDirectionOutput gpioLed2 false] ++
  (List.replicate 5 blinkRound).flatten ++
  [.gpioRequest gpioSw, .requestIrq, .taskletSchedule, .ret]

def switchExit : List ExitStmt :=
  [.unregisterChrdev, .freeIrq, .gpioFree gpioSw, .gpioFree gpioLed1, .gpioFree gpioLed2,
    .taskletKill, .ret]

/-- Where the life of the module is: in `switch_init` or `switch_exit` with some
statements left, between them, or over. -/
inductive Pos where
  | init (k : List InitStmt)
  | loaded
  | exit (k : List ExitStmt)
  | removed
  deriving DecidableEq

/-- What is left of `switch_init`. -/
def Pos.todoInit : Pos → List InitStmt
  | .init k => k
  | _ => []

/-- What is left of `switch_exit`. -/
def Pos.todoExit : Pos → List ExitStmt
  | .exit k => k
  | _ => []

variable {ι : Type}

/-- The module in the kernel: `err` says that `err < 0`, `irqRequested` that its
handler is on the line of the switch, `requested` which pins it has requested
and not freed, and `trespassed` that `isr_func` has accessed an LED when not both
of them were the module's, or the module was gone. -/
structure Life (ι : Type) where
  pos : Pos
  err : Bool
  irqRequested : Bool
  requested : Nat → Bool
  sys : State ι
  trespassed : Bool

/-- `switch_init` goes on, with what its call returns (`ok`: no error); the
interrupts and the tasklet go on; `switch_exit` is called or goes on. -/
inductive LifeEvent (ι : Type) where
  | init (c : ι) (ok : Bool)
  | sched (e : Event ι)
  | exit (c : ι)

/-- `isr_func` accesses an LED. -/
def touches (s : State ι) : Event ι → Bool
  | .body => s.running.any fun r => decide (r.2 ≠ .ret)
  | _ => false

/-- The tasklet is neither scheduled nor before an access to an LED. -/
def Quiet (s : State ι) : Prop :=
  s.queued = none ∧ ∀ r ∈ s.running, r.2 = .ret

instance [DecidableEq ι] (s : State ι) : Decidable (Quiet s) :=
  inferInstanceAs (Decidable (_ ∧ _))

/-- The kernel removes a module whose init function returns a negative value. -/
def afterInit (ret : CInt) : Pos := if ret.toInt < 0 then .removed else .loaded

namespace Life

/-- The module owns both LEDs and has not been removed. -/
def OwnsLeds (l : Life ι) : Prop :=
  l.requested gpioLed1 = true ∧ l.requested gpioLed2 = true ∧ l.pos ≠ .removed

instance (l : Life ι) : Decidable l.OwnsLeds := inferInstanceAs (Decidable (_ ∧ _ ∧ _))

/-- The module is loaded; its `switch_init` comes next. -/
def start (g : Gpio) : Life ι where
  pos := .init switchInit
  err := false
  irqRequested := false
  requested := fun _ => false
  sys := { Softirq.start g with gpio := g }
  trespassed := false

variable [DecidableEq ι]

/-- One statement of `switch_init`, before `k`, on CPU `c`. -/
def initStep (l : Life ι) (c : ι) (ok : Bool) (k : List InitStmt) : InitStmt → Option (Life ι)
  | .registerChrdev => some { l with pos := if ok then .init k else afterInit majorNumber }
  | .gpioRequest pin =>
    some { l with
      pos := .init k
      requested := if ok then Function.update l.requested pin true else l.requested }
  | .gpioDirectionOutput pin v =>
    some { l with
      pos := .init k, sys := { l.sys with gpio := l.sys.gpio.directionOutput pin v } }
  | .gpioSetValue pin v =>
    some { l with pos := .init k, sys := { l.sys with gpio := l.sys.gpio.setValue pin v } }
  | .requestIrq => some { l with pos := .init k, irqRequested := ok, err := !ok }
  | .taskletSchedule =>
    (Softirq.next l.sys (.init c)).map fun sys => { l with pos := .init k, sys := sys }
  | .ret => some { l with pos := afterInit (if l.err then -1 else 0) }

/-- One statement of `switch_exit`, before `k`. `free_irq` waits for the handlers,
`tasklet_kill` for the tasklet. -/
def exitStep [Fintype ι] (l : Life ι) (k : List ExitStmt) : ExitStmt → Option (Life ι)
  | .unregisterChrdev => some { l with pos := .exit k }
  | .freeIrq =>
    if ∀ c, l.sys.isr c = .idle then some { l with pos := .exit k, irqRequested := false }
    else none
  | .gpioFree pin =>
    some { l with pos := .exit k, requested := Function.update l.requested pin false }
  | .taskletKill =>
    if l.sys.queued = none ∧ l.sys.running = none then some { l with pos := .exit k } else none
  | .ret => some { l with pos := .removed }

/-- One event. An interrupt needs the handler on the line; `switch_init` and
`switch_exit` go on where nothing suspends them. -/
def next [Fintype ι] (l : Life ι) : LifeEvent ι → Option (Life ι)
  | .init c ok =>
    match l.pos with
    | .init (x :: k) => if l.sys.Free c then l.initStep c ok k x else none
    | _ => none
  | .sched (.init _) => none
  | .sched (.irq c) =>
    if l.irqRequested = true then
      (Softirq.next l.sys (.irq c)).map fun sys => { l with sys := sys }
    else none
  | .sched e =>
    (Softirq.next l.sys e).map fun sys =>
      { l with sys := sys, trespassed := l.trespassed || (touches l.sys e && !decide l.OwnsLeds) }
  | .exit c =>
    match l.pos with
    | .loaded => some { l with pos := .exit switchExit }
    | .exit (x :: k) => if l.sys.Free c then l.exitStep k x else none
    | _ => none

/-- A request of an LED succeeds, and the tasklet is quiet when `switch_init`
fails. -/
def InitInOrder (l : Life ι) (ok : Bool) : List InitStmt → Prop
  | .gpioRequest pin :: _ => pin = gpioLed1 ∨ pin = gpioLed2 → ok = true
  | .ret :: _ => l.err = true → Quiet l.sys
  | _ => True

/-- The tasklet is quiet when `switch_exit` frees an LED. -/
def ExitInOrder (l : Life ι) : List ExitStmt → Prop
  | .gpioFree pin :: _ => pin = gpioLed1 ∨ pin = gpioLed2 → Quiet l.sys
  | _ => True

/-- The statement of `switch_init` or `switch_exit` that comes next is in order. -/
def InOrder (l : Life ι) : LifeEvent ι → Prop
  | .init _ ok => l.InitInOrder ok l.pos.todoInit
  | .exit _ => l.ExitInOrder l.pos.todoExit
  | .sched _ => True

instance (l : Life ι) (ok : Bool) : DecidablePred (l.InitInOrder ok)
  | .gpioRequest pin :: _ =>
    inferInstanceAs (Decidable (pin = gpioLed1 ∨ pin = gpioLed2 → ok = true))
  | .ret :: _ => inferInstanceAs (Decidable (l.err = true → Quiet l.sys))
  | [] => .isTrue trivial
  | .registerChrdev :: _ => .isTrue trivial
  | .gpioDirectionOutput _ _ :: _ => .isTrue trivial
  | .gpioSetValue _ _ :: _ => .isTrue trivial
  | .requestIrq :: _ => .isTrue trivial
  | .taskletSchedule :: _ => .isTrue trivial

instance (l : Life ι) : DecidablePred l.ExitInOrder
  | .gpioFree pin :: _ =>
    inferInstanceAs (Decidable (pin = gpioLed1 ∨ pin = gpioLed2 → Quiet l.sys))
  | [] => .isTrue trivial
  | .unregisterChrdev :: _ => .isTrue trivial
  | .freeIrq :: _ => .isTrue trivial
  | .taskletKill :: _ => .isTrue trivial
  | .ret :: _ => .isTrue trivial

instance (l : Life ι) : DecidablePred l.InOrder
  | .init _ ok => inferInstanceAs (Decidable (l.InitInOrder ok l.pos.todoInit))
  | .exit _ => inferInstanceAs (Decidable (l.ExitInOrder l.pos.todoExit))
  | .sched _ => .isTrue trivial

/-! ## What the order preserves -/

/-- No handler is on the line, and the tasklet is quiet. -/
def Calm (l : Life ι) : Prop := l.irqRequested = false ∧ Quiet l.sys

/-- `switch_init` has requested the LEDs and the interrupt when `k` is left. -/
def Settled (k : List InitStmt) : Prop :=
  .requestIrq ∉ k ∧ .gpioRequest gpioLed1 ∉ k ∧ .gpioRequest gpioLed2 ∉ k

instance : DecidablePred Settled := fun _ => inferInstanceAs (Decidable (_ ∧ _ ∧ _))

/-- `switch_init` requests the LEDs before the interrupt, and the interrupt before
it schedules the tasklet. -/
def initOrdered : List InitStmt → Bool
  | .requestIrq :: k => decide (Settled k)
  | .taskletSchedule :: k => decide (Settled k)
  | _ => true

/-- `switch_exit` frees the interrupt before the LEDs, and LED 18 first. -/
def exitOrdered : List ExitStmt → Bool
  | .gpioFree pin :: k =>
    if pin = gpioLed1 then decide (.freeIrq ∉ k)
    else if pin = gpioLed2 then decide (.gpioFree gpioLed1 ∉ k) else true
  | .ret :: k => decide (.gpioFree gpioLed1 ∉ k)
  | _ => true

theorem switchInit_ordered : AtEach (fun k => initOrdered k = true) switchInit := by decide

theorem switchExit_ordered : AtEach (fun k => exitOrdered k = true) switchExit := by decide

end Life

/-- Without interrupts, handlers that are at rest stay at rest, and a quiet tasklet
that is not scheduled does not touch the LEDs and stays quiet. -/
theorem rest_step [DecidableEq ι] {s s' : State ι} {e : Event ι} (hidle : ∀ c, s.isr c = .idle)
    (he : ∀ c, e ≠ .irq c) (hs : next s e = some s') :
    (∀ c, s'.isr c = .idle) ∧
    (Quiet s → (∀ c, e ≠ .init c) → Quiet s' ∧ touches s e = false) := by
  cases step_of_next hs with
  | @irq c hc => exact absurd rfl (he c)
  | @disableCount c hc => cases (hidle c).symm.trans hc
  | @disableWait c hc hr => cases (hidle c).symm.trans hc
  | @schedule c hc => cases (hidle c).symm.trans hc
  | @enable c hc => cases (hidle c).symm.trans hc
  | @ret c hc => cases (hidle c).symm.trans hc
  | softirq hq hc hr h0 =>
    refine ⟨hidle, ?_⟩
    rintro ⟨hnone, -⟩
    cases hnone.symm.trans hq
  | @body c pc hr hc =>
    constructor
    · cases pc <;> exact hidle
    · rintro ⟨hnone, hret⟩ -
      have hpc : pc = .ret := hret (c, pc) hr
      subst hpc
      refine ⟨⟨hnone, fun r hr' => by cases hr'⟩, ?_⟩
      rw [touches, hr]
      rfl
  | @init c hi hc =>
    refine ⟨fun d => ?_, fun _ hinit => absurd rfl (hinit c)⟩
    exact (congrFun (taskletSchedule_frame s c).1 d).trans (hidle d)

namespace Life

variable [DecidableEq ι]

/-- What holds as long as everything is in order: nothing has been touched that
was not the module's, and while it does not own both LEDs it is calm. -/
structure Inv (l : Life ι) : Prop where
  fine : l.trespassed = false
  guarded : l.Calm ∨ l.OwnsLeds
  idle : l.irqRequested = false → ∀ c, l.sys.isr c = .idle
  failed : l.err = true → l.irqRequested = false
  init : ∀ k, l.pos = .init k → k <:+ switchInit ∧
    (.gpioRequest gpioLed1 ∉ k → l.requested gpioLed1 = true) ∧
    (.gpioRequest gpioLed2 ∉ k → l.requested gpioLed2 = true) ∧
    (.requestIrq ∈ k → l.Calm)
  exit : ∀ k, l.pos = .exit k → k <:+ switchExit ∧ (.freeIrq ∉ k → l.irqRequested = false) ∧
    (.gpioFree gpioLed1 ∉ k → l.Calm)

omit [DecidableEq ι] in
theorem inv_start (g : Gpio) : Inv (start g : Life ι) where
  fine := rfl
  guarded := .inl ⟨rfl, rfl, fun r hr => by cases hr⟩
  idle _ _ := rfl
  failed h := by cases h
  init k hk := by
    cases hk
    exact ⟨List.suffix_rfl, fun h => absurd (by decide) h, fun h => absurd (by decide) h,
      fun _ => ⟨rfl, rfl, fun r hr => by cases hr⟩⟩
  exit k hk := by cases hk

variable {l l' : Life ι}

omit [DecidableEq ι] in
/-- The interrupts and the tasklet go on, and what was calm stays calm. -/
theorem Inv.sched (h : Inv l) {sys : State ι} {t : Bool} (ht : t = false)
    (hquiet : l.Calm → Quiet sys) (hidle : l.irqRequested = false → ∀ c, sys.isr c = .idle) :
    Inv { l with sys := sys, trespassed := t } where
  fine := ht
  guarded := h.guarded.imp (fun hc => ⟨hc.1, hquiet hc⟩) id
  idle := hidle
  failed := h.failed
  init k hk := by
    obtain ⟨hsuf, h1, h2, hcalm⟩ := h.init k hk
    exact ⟨hsuf, h1, h2, fun hm => ⟨(hcalm hm).1, hquiet (hcalm hm)⟩⟩
  exit k hk := by
    obtain ⟨hsuf, hfree, hcalm⟩ := h.exit k hk
    exact ⟨hsuf, hfree, fun hm => ⟨(hcalm hm).1, hquiet (hcalm hm)⟩⟩

omit [DecidableEq ι] in
/-- The module comes to a rest, loaded or removed. -/
theorem Inv.rest (h : Inv l) {p : Pos} (hp : p = .loaded ∨ p = .removed)
    (hg : p = .removed → l.Calm) : Inv { l with pos := p } where
  fine := h.fine
  guarded := by
    rcases hp with rfl | rfl
    · exact h.guarded.imp id fun ho => ⟨ho.1, ho.2.1, by simp⟩
    · exact .inl (hg rfl)
  idle := h.idle
  failed := h.failed
  init k hk := by rcases hp with rfl | rfl <;> cases hk
  exit k hk := by rcases hp with rfl | rfl <;> cases hk

omit [DecidableEq ι] in
/-- `switch_init` goes on to `k`. -/
theorem Inv.goInit (h : Inv l) {x : InitStmt} {k : List InitStmt} (hp : l.pos = .init (x :: k))
    (hx1 : x ≠ .gpioRequest gpioLed1) (hx2 : x ≠ .gpioRequest gpioLed2) :
    Inv { l with pos := .init k } where
  fine := h.fine
  guarded := h.guarded.imp id fun ho => ⟨ho.1, ho.2.1, by simp⟩
  idle := h.idle
  failed := h.failed
  init k' hk := by
    cases hk
    obtain ⟨hsuf, h1, h2, hcalm⟩ := h.init _ hp
    refine ⟨(List.suffix_cons x k).trans hsuf, fun hn => h1 ?_, fun hn => h2 ?_, fun hm =>
      hcalm (List.mem_cons_of_mem x hm)⟩
    · simp [hn, hx1.symm]
    · simp [hn, hx2.symm]
  exit k' hk := by cases hk

omit [DecidableEq ι] in
/-- `switch_exit` goes on to `k`. -/
theorem Inv.goExit (h : Inv l) {x : ExitStmt} {k : List ExitStmt} (hp : l.pos = .exit (x :: k))
    (hx : x ≠ .freeIrq) (hx1 : x ≠ .gpioFree gpioLed1) : Inv { l with pos := .exit k } where
  fine := h.fine
  guarded := h.guarded.imp id fun ho => ⟨ho.1, ho.2.1, by simp⟩
  idle := h.idle
  failed := h.failed
  init k' hk := by cases hk
  exit k' hk := by
    cases hk
    obtain ⟨hsuf, hfree, hcalm⟩ := h.exit _ hp
    refine ⟨(List.suffix_cons x k).trans hsuf, fun hn => hfree ?_, fun hn => hcalm ?_⟩
    · simp [hn, hx.symm]
    · simp [hn, hx1.symm]

omit [DecidableEq ι] in
/-- Where the requests are settled, the module owns the LEDs. -/
theorem Inv.ownsLeds (h : Inv l) {x : InitStmt} {k : List InitStmt} (hp : l.pos = .init (x :: k))
    (hx1 : x ≠ .gpioRequest gpioLed1) (hx2 : x ≠ .gpioRequest gpioLed2) (hk : Settled k) :
    l.requested gpioLed1 = true ∧ l.requested gpioLed2 = true := by
  obtain ⟨-, h1, h2, -⟩ := h.init _ hp
  refine ⟨h1 ?_, h2 ?_⟩
  · simp [hk.2.1, hx1.symm]
  · simp [hk.2.2, hx2.symm]

/-- Every statement of `switch_init` that is in order keeps the invariant. -/
theorem inv_initStep (h : Inv l) {c : ι} {ok : Bool} {x : InitStmt} {k : List InitStmt}
    (hp : l.pos = .init (x :: k)) (hin : l.InitInOrder ok (x :: k))
    (hs : l.initStep c ok k x = some l') : Inv l' := by
  obtain ⟨hsuf, h1, h2, hcalm⟩ := h.init _ hp
  have hk : k <:+ switchInit := (List.suffix_cons x k).trans hsuf
  have hord := switchInit_ordered _ hsuf
  cases x with
  | registerChrdev =>
    cases hs
    cases ok with
    | true => exact h.goInit hp (by simp) (by simp)
    | false => exact h.rest (.inl rfl) (fun hp' => by cases hp')
  | gpioRequest pin =>
    cases hs
    -- a request adds to what the module owns
    have hmono : ∀ p, l.requested p = true →
        (if ok then Function.update l.requested pin true else l.requested) p = true := by
      intro p hreq
      cases ok with
      | false => exact hreq
      | true =>
        by_cases hpin : p = pin
        · rw [hpin]
          exact Function.update_self _ _ _
        · exact (Function.update_of_ne hpin _ _).trans hreq
    have hled : ∀ p, (p = gpioLed1 ∨ p = gpioLed2) →
        (.gpioRequest p ∉ InitStmt.gpioRequest pin :: k → l.requested p = true) →
        .gpioRequest p ∉ k →
        (if ok then Function.update l.requested pin true else l.requested) p = true := by
      intro p hp' hreq hn
      by_cases hpin : p = pin
      · have hok : ok = true := hin (hpin ▸ hp')
        subst hok hpin
        exact Function.update_self _ _ _
      · exact hmono p (hreq (by simp [hn, hpin]))
    exact
      { fine := h.fine
        guarded := h.guarded.imp id fun ho => ⟨hmono _ ho.1, hmono _ ho.2.1, by simp⟩
        idle := h.idle
        failed := h.failed
        init := fun k' hk' => by
          cases hk'
          exact ⟨hk, hled _ (.inl rfl) h1, hled _ (.inr rfl) h2, fun hm =>
            hcalm (List.mem_cons_of_mem _ hm)⟩
        exit := fun k' hk' => by cases hk' }
  | gpioDirectionOutput pin v =>
    cases hs
    exact (h.goInit hp (by simp) (by simp)).sched h.fine (fun hc => hc.2) h.idle
  | gpioSetValue pin v =>
    cases hs
    exact (h.goInit hp (by simp) (by simp)).sched h.fine (fun hc => hc.2) h.idle
  | requestIrq =>
    cases hs
    have hset : Settled k := of_decide_eq_true hord
    obtain ⟨ho1, ho2⟩ := h.ownsLeds hp (by simp) (by simp) hset
    exact
      { fine := h.fine
        guarded := .inr ⟨ho1, ho2, by simp⟩
        idle := fun _ => h.idle (hcalm List.mem_cons_self).1
        failed := fun he => by simpa using he
        init := fun k' hk' => by
          cases hk'
          exact ⟨hk, fun _ => ho1, fun _ => ho2, fun hm => absurd hm hset.1⟩
        exit := fun k' hk' => by cases hk' }
  | taskletSchedule =>
    obtain ⟨sys, hsys, rfl⟩ := Option.map_eq_some_iff.mp hs
    have hset : Settled k := of_decide_eq_true hord
    obtain ⟨ho1, ho2⟩ := h.ownsLeds hp (by simp) (by simp) hset
    exact
      { fine := h.fine
        guarded := .inr ⟨ho1, ho2, by simp⟩
        idle := fun hirq => (rest_step (h.idle hirq) (by simp) hsys).1
        failed := h.failed
        init := fun k' hk' => by
          cases hk'
          exact ⟨hk, fun _ => ho1, fun _ => ho2, fun hm => absurd hm hset.1⟩
        exit := fun k' hk' => by cases hk' }
  | ret =>
    cases hs
    refine h.rest (p := afterInit (if l.err then -1 else 0)) ?_ fun hgone => ?_
    · cases l.err
      · exact .inl rfl
      · exact .inr rfl
    · cases herr : l.err with
      | true => exact ⟨h.failed herr, hin herr⟩
      | false =>
        rw [herr] at hgone
        cases hgone

variable [Fintype ι]

omit [DecidableEq ι] in
/-- Every statement of `switch_exit` that is in order keeps the invariant. -/
theorem inv_exitStep (h : Inv l) {x : ExitStmt} {k : List ExitStmt}
    (hp : l.pos = .exit (x :: k)) (hin : l.ExitInOrder (x :: k))
    (hs : l.exitStep k x = some l') : Inv l' := by
  obtain ⟨hsuf, hfree, hcalm⟩ := h.exit _ hp
  have hk : k <:+ switchExit := (List.suffix_cons x k).trans hsuf
  have hord := switchExit_ordered _ hsuf
  cases x with
  | unregisterChrdev =>
    cases hs
    exact h.goExit hp (by simp) (by simp)
  | freeIrq =>
    simp only [exitStep] at hs
    split at hs
    · rename_i hidle
      cases hs
      exact
        { fine := h.fine
          guarded := h.guarded.imp (fun hc => ⟨rfl, hc.2⟩) fun ho => ⟨ho.1, ho.2.1, by simp⟩
          idle := fun _ => hidle
          failed := fun _ => rfl
          init := fun k' hk' => by cases hk'
          exit := fun k' hk' => by
            cases hk'
            exact ⟨hk, fun _ => rfl, fun hn => ⟨rfl, (hcalm (by simp [hn])).2⟩⟩ }
    · cases hs
  | gpioFree pin =>
    cases hs
    have hled : pin = gpioLed1 ∨ pin = gpioLed2 → l.Calm := by
      rintro (rfl | rfl)
      · have hirq : .freeIrq ∉ k := of_decide_eq_true hord
        exact ⟨hfree (by simp [hirq]), hin (.inl rfl)⟩
      · have hfreed : .gpioFree gpioLed1 ∉ k := of_decide_eq_true hord
        exact hcalm (by simp [hfreed, led1_ne_led2])
    exact
      { fine := h.fine
        guarded := by
          by_cases hpin : pin = gpioLed1 ∨ pin = gpioLed2
          · exact .inl (hled hpin)
          · rw [not_or] at hpin
            exact h.guarded.imp id fun ho =>
              ⟨(Function.update_of_ne (Ne.symm hpin.1) _ _).trans ho.1,
                (Function.update_of_ne (Ne.symm hpin.2) _ _).trans ho.2.1, by simp⟩
        idle := h.idle
        failed := h.failed
        init := fun k' hk' => by cases hk'
        exit := fun k' hk' => by
          cases hk'
          refine ⟨hk, fun hn => hfree (by simp [hn]), fun hn => ?_⟩
          by_cases hpin : pin = gpioLed1
          · exact hled (.inl hpin)
          · exact hcalm (by simp [hn, Ne.symm hpin]) }
  | taskletKill =>
    simp only [exitStep] at hs
    split at hs
    · cases hs
      exact h.goExit hp (by simp) (by simp)
    · cases hs
  | ret =>
    cases hs
    exact h.rest (.inr rfl) fun _ => hcalm (by simpa using of_decide_eq_true hord)

/-- The interrupts and the tasklet keep the invariant. -/
theorem inv_sched (h : Inv l) {e : Event ι} (hs : l.next (.sched e) = some l') : Inv l' := by
  have hno : ∀ {e : Event ι}, (∀ c, e ≠ .irq c ∧ e ≠ .init c) →
      (Softirq.next l.sys e).map (fun sys => { l with
        sys := sys, trespassed := l.trespassed || (touches l.sys e && !decide l.OwnsLeds) })
        = some l' → Inv l' := by
    intro e he hs
    obtain ⟨sys, hsys, rfl⟩ := Option.map_eq_some_iff.mp hs
    have hrest := fun hirq => rest_step (h.idle hirq) (fun c => (he c).1) hsys
    have hquiet : l.Calm → Quiet sys ∧ touches l.sys e = false := fun hc =>
      (hrest hc.1).2 hc.2 fun c => (he c).2
    refine h.sched ?_ (fun hc => (hquiet hc).1) fun hirq => (hrest hirq).1
    rcases h.guarded with hc | ho
    · rw [h.fine, (hquiet hc).2]
      rfl
    · rw [h.fine, decide_eq_true ho, Bool.not_true, Bool.and_false]
      rfl
  cases e with
  | init c => cases hs
  | irq c =>
    simp only [next] at hs
    split at hs
    · rename_i hirq
      obtain ⟨sys, hsys, rfl⟩ := Option.map_eq_some_iff.mp hs
      have hline : l.irqRequested ≠ false := by simp [hirq]
      exact h.sched h.fine (fun hc => absurd hc.1 hline) fun hoff => absurd hoff hline
    · cases hs
  | isr c => exact hno (by simp) hs
  | softirq c => exact hno (by simp) hs
  | body => exact hno (by simp) hs

/-- Every event that is in order keeps the invariant. -/
theorem inv_step (h : Inv l) {e : LifeEvent ι} (he : l.InOrder e) (hs : l.next e = some l') :
    Inv l' := by
  cases e with
  | init c ok =>
    simp only [next] at hs
    split at hs
    · rename_i x k hp
      split at hs
      · have hin : l.InitInOrder ok l.pos.todoInit := he
        rw [hp] at hin
        exact inv_initStep h hp hin hs
      · cases hs
    · cases hs
  | sched e => exact inv_sched h hs
  | exit c =>
    simp only [next] at hs
    split at hs
    · rename_i hp
      cases hs
      exact
        { fine := h.fine
          guarded := h.guarded.imp id fun ho => ⟨ho.1, ho.2.1, by simp⟩
          idle := h.idle
          failed := h.failed
          init := fun k hk => by cases hk
          exit := fun k hk => by
            cases hk
            exact ⟨List.suffix_rfl, fun hn => absurd (by decide) hn,
              fun hn => absurd (by decide) hn⟩ }
    · rename_i x k hp
      split at hs
      · have hin : l.ExitInOrder l.pos.todoExit := he
        rw [hp] at hin
        exact inv_exitStep h hp hin hs
      · cases hs
    · cases hs

end Life

/-- **The tasklet drives the module's own LEDs**: in every run in which both LEDs
are granted, and in which the tasklet is quiet when `switch_init` fails and when
`switch_exit` frees an LED, `isr_func` accesses them only while both are the
module's and it has not been removed. -/
theorem touches_owned [DecidableEq ι] [Fintype ι] (g : Gpio) (es : List (LifeEvent ι))
    (l : Life ι) (hC : StepsMeet Life.next Life.InOrder (Life.start g) es)
    (hr : run Life.next (Life.start g) es = some l) : l.trespassed = false :=
  (run_inv_where (I := Life.Inv) (fun h he hs => Life.inv_step h he hs) (Life.inv_start g) hC
    hr).fine

/-- `switch_init` with calls that all succeed. -/
def initRun : List (LifeEvent Cpu) := List.replicate 29 (.init .cpu0 true)

/-- `switch_exit`, called and run to its end. -/
def exitRun : List (LifeEvent Cpu) := List.replicate 8 (.exit .cpu1)

/-- An interrupt, and the tasklet before and after it. -/
def pressRun : List (LifeEvent Cpu) :=
  (tasklet Cpu.cpu0 ++ press Cpu.cpu1 ++ tasklet Cpu.cpu1).map .sched

/-- Where nothing is pending when `switch_exit` is called, all is in order. -/
theorem touches_owned_pressRun :
    ∃ l, run Life.next (Life.start ⟨fun _ => 0, fun _ => false⟩) (initRun ++ pressRun ++ exitRun)
      = some l ∧ l.pos = .removed ∧ l.sys.finished = 2 ∧ l.trespassed = false := by
  obtain ⟨l, hl, hp⟩ := exists_run_of_any Life.next (Life.start ⟨fun _ => 0, fun _ => false⟩)
    (initRun ++ pressRun ++ exitRun)
    (fun l => decide (l.pos = .removed ∧ l.sys.finished = 2)) (by decide)
  obtain ⟨hpos, hfinished⟩ := of_decide_eq_true hp
  exact ⟨l, hl, hpos, hfinished, touches_owned _ _ l (by decide) hl⟩

/-- `switch_exit` up to `tasklet_kill` while the tasklet that `switch_init` has
scheduled waits; then the tasklet runs. -/
def freedRun : List (LifeEvent Cpu) :=
  initRun ++ List.replicate 6 (.exit .cpu0) ++ [.sched (.softirq .cpu0), .sched .body]

/-- `request_irq` fails, and the tasklet runs after `switch_init` has. -/
def failedRun : List (LifeEvent Cpu) :=
  List.replicate 26 (.init .cpu0 true) ++ [.init .cpu0 false] ++
    List.replicate 2 (.init .cpu0 true) ++ [.sched (.softirq .cpu0), .sched .body]

/-- The tasklet accesses LEDs that have been freed, and LEDs of a module that has
been removed. -/
theorem touches_freed :
    (∃ l, run Life.next (Life.start ⟨fun _ => 0, fun _ => false⟩) freedRun = some l ∧
      l.pos = .exit [.taskletKill, .ret] ∧ l.requested gpioLed1 = false ∧
      l.trespassed = true) ∧
    ∃ l, run Life.next (Life.start ⟨fun _ => 0, fun _ => false⟩) failedRun = some l ∧
      l.pos = .removed ∧ l.trespassed = true := by
  constructor
  · obtain ⟨l, hl, hp⟩ := exists_run_of_any Life.next
      (Life.start ⟨fun _ => 0, fun _ => false⟩) freedRun (fun l => decide
        (l.pos = .exit [.taskletKill, .ret] ∧ l.requested gpioLed1 = false ∧
          l.trespassed = true)) (by decide)
    exact ⟨l, hl, of_decide_eq_true hp⟩
  · obtain ⟨l, hl, hp⟩ := exists_run_of_any Life.next
      (Life.start ⟨fun _ => 0, fun _ => false⟩) failedRun
      (fun l => decide (l.pos = .removed ∧ l.trespassed = true)) (by decide)
    exact ⟨l, hl, of_decide_eq_true hp⟩

end Esystem.Softirq
