import Esystem.CharDrv.Fifo

/-!
# Clients during the initialisation of the character driver

`drv_init` registers the device first, then allocates the buffer, ignoring a
`NULL` from `kmalloc`, and then resets the offsets. Clients can call as soon as
the device is registered.

- `intact_iff`: no copy runs on an absent buffer and no accepted byte is lost
  exactly in the runs in which no write comes before the buffer is there and
  nothing is unread when the offsets are reset.
-/

namespace Esystem.CharDrv

/-- The statement of `drv_init` that is next. -/
inductive InitPos where
  | registerChrdev
  | kmalloc
  | resetOffsets
  | returned
  deriving DecidableEq

/-- The driver while it is initialised: whether the device is registered,
whether `drv_data` points to the buffer, the bytes of all writes that returned
their count, the bytes delivered, and whether a call has copied to or from an
absent buffer. -/
structure InitState where
  pos : InitPos
  registered : Bool
  allocated : Bool
  drv : Driver
  accepted : List UInt8
  delivered : List UInt8
  absent : Bool

/-- A statement of `drv_init`, with the outcome of its call, or a client. -/
inductive InitEvent where
  | registerChrdev (ok : Bool)
  | kmalloc (buffer : Option (Memory UInt8))
  | resetOffsets
  | call (c : Call)

namespace InitState

/-- The module is loaded; its variables are zero. -/
def start (mem : Memory UInt8) : InitState where
  pos := .registerChrdev
  registered := false
  allocated := false
  drv := ⟨mem, 0, 0⟩
  accepted := []
  delivered := []
  absent := false

/-- What a client's call does to the driver and to the bytes. -/
def perform (s : InitState) : Call → InitState
  | .read count =>
    let o := drvRead (BitVec.ofNat 64 count) 0 s.drv
    { s with drv := o.drv, delivered := s.delivered ++ o.data }
  | .write buf =>
    let o := drvWrite buf 0 s.drv
    { s with
      drv := o.drv
      accepted := if o.ret = 0 then s.accepted else s.accepted ++ buf }

/-- One event. `drv_init` ignores what its calls return. A call that copies to or
from an absent buffer faults and does not return. -/
def next (s : InitState) : InitEvent → Option InitState
  | .registerChrdev ok =>
    if s.pos = .registerChrdev then some { s with pos := .kmalloc, registered := ok } else none
  | .kmalloc buffer =>
    if s.pos = .kmalloc then
      match buffer with
      | some m =>
        some { s with
          pos := .resetOffsets, allocated := true, drv := { s.drv with drvData := m } }
      | none => some { s with pos := .resetOffsets }
    else none
  | .resetOffsets =>
    if s.pos = .resetOffsets then
      some { s with
        pos := .returned, drv := { s.drv with drvReadOffset := 0, drvWriteOffset := 0 } }
    else none
  | .call c =>
    if s.registered ∧ c.count ≤ maxRwCount then
      if 0 < c.requested s.drv ∧ s.allocated = false then some { s with absent := true }
      else some (s.perform c)
    else none

/-- No call has run on an absent buffer, and every byte of an accepted write has
been delivered or can still be read, in order. -/
structure Intact (s : InitState) : Prop where
  present : s.absent = false
  kept : s.delivered ++ s.drv.stored = s.accepted

/-- A write of 1 to 4095 bytes comes only when the buffer is there, and nothing
is unread when the offsets are reset. -/
def InGoodTime (s : InitState) : InitEvent → Prop
  | .call (.write buf) => buf.length = 0 ∨ 4096 ≤ buf.length ∨ s.allocated = true
  | .resetOffsets => s.drv.nothingUnread
  | _ => True

instance (s : InitState) : DecidablePred s.InGoodTime
  | .call (.write buf) =>
    inferInstanceAs (Decidable (buf.length = 0 ∨ 4096 ≤ buf.length ∨ s.allocated = true))
  | .call (.read _) => .isTrue trivial
  | .resetOffsets => inferInstanceAs (Decidable s.drv.nothingUnread)
  | .registerChrdev _ => .isTrue trivial
  | .kmalloc _ => .isTrue trivial

/-! ## What good time preserves -/

/-- The driver implements a queue `q` that starts where the offsets were last
reset; `old` is what went through before. -/
structure Holds (s : InitState) (old : List UInt8) (q : Queue UInt8) : Prop where
  implements : Implements s.drv q
  accepted : s.accepted = old ++ q.pushed
  delivered : s.delivered = old ++ q.popped
  unallocated : s.allocated = false → q.pushed = []

/-- The states of the runs in which everything comes in good time. -/
structure Inv (s : InitState) : Prop where
  present : s.absent = false
  later : s.pos = .registerChrdev ∨ s.pos = .kmalloc → s.allocated = false
  holds : ∃ old q, s.Holds old q

theorem inv_start (mem : Memory UInt8) : Inv (start mem) where
  present := rfl
  later _ := rfl
  holds := ⟨[], Queue.empty, implements_drvInit mem, rfl, rfl, fun _ => rfl⟩

variable {s s' : InitState}

theorem Inv.intact (h : s.Inv) : s.Intact where
  present := h.present
  kept := by
    obtain ⟨old, q, hq⟩ := h.holds
    rw [hq.delivered, hq.implements.stored_eq, List.append_assoc, ← q.conserved, hq.accepted]

/-- A queue in which nothing is unread has delivered all it was given. -/
theorem popped_of_nothingUnread {d : Driver} {q : Queue UInt8} (h : Implements d q)
    (hnone : d.nothingUnread) : q.popped = q.pushed := by
  rw [h.offsets.nothingUnread_iff, length_pushed q] at hnone
  have hempty : q.queued = [] := List.length_eq_zero_iff.mp (by omega)
  rw [q.conserved, hempty, List.append_nil]

/-- Reset offsets implement the empty queue. -/
theorem implements_reset (d : Driver) :
    Implements { d with drvReadOffset := 0, drvWriteOffset := 0 } Queue.empty :=
  implements_drvInit d.drvData

/-- A call that does not fault keeps what the driver holds. -/
theorem holds_perform {old : List UInt8} {q : Queue UInt8} (h : s.Holds old q) {c : Call}
    (hcount : c.count ≤ maxRwCount) (hcopy : 0 < c.requested s.drv → s.allocated = true) :
    ∃ q', (s.perform c).Holds old q' := by
  cases c with
  | read n =>
    have hn : n ≤ maxRwCount := hcount
    obtain ⟨-, hdata, -, himp⟩ := drvRead_pop h.implements hn
    refine ⟨q.pop n, himp, h.accepted, ?_, h.unallocated⟩
    show s.delivered ++ _ = _
    rw [hdata, h.delivered, Queue.pop_popped, List.append_assoc]
  | write buf =>
    have hbuf : buf.length ≤ maxRwCount := hcount
    rw [requested_write h.implements hbuf] at hcopy
    by_cases hfull : 4096 ≤ buf.length + q.pushed.length
    · have hrefused := drvWrite_refused h.implements hbuf hfull
      refine ⟨q, ?_, ?_, h.delivered, h.unallocated⟩
      · show Implements (drvWrite buf 0 s.drv).drv q
        rw [hrefused]
        exact h.implements
      · show (if (drvWrite buf 0 s.drv).ret = 0 then _ else _) = _
        rw [hrefused, if_pos rfl]
        exact h.accepted
    · rw [if_neg hfull] at hcopy
      obtain ⟨hret, -, -, himp⟩ := drvWrite_accepted h.implements (Nat.lt_of_not_le hfull)
      refine ⟨q.push buf, himp, ?_, h.delivered, fun hno => ?_⟩
      · show (if (drvWrite buf 0 s.drv).ret = 0 then _ else _) = _
        rw [hret, append_of_accepted (by omega), h.accepted, Queue.push_pushed,
          List.append_assoc]
      · -- without a buffer only an empty write gets through
        have hno : s.allocated = false := hno
        have hzero : buf.length = 0 := by
          by_contra hne
          rw [hcopy (Nat.pos_of_ne_zero hne)] at hno
          cases hno
        rw [Queue.push_pushed, h.unallocated hno, List.length_eq_zero_iff.mp hzero]
        rfl

/-- In good time, a call that copies at least a byte finds the buffer. -/
theorem allocated_of_copies {old : List UInt8} {q : Queue UInt8} (h : s.Holds old q) {c : Call}
    (hcount : c.count ≤ maxRwCount) (he : s.InGoodTime (.call c))
    (hcopy : 0 < c.requested s.drv) : s.allocated = true := by
  by_contra hno
  have hpushed := h.unallocated (by simpa using hno)
  cases c with
  | read n =>
    have hn : n ≤ maxRwCount := hcount
    have hlen := length_pushed q
    rw [hpushed, List.length_nil] at hlen
    rw [requested_read h.implements hn] at hcopy
    omega
  | write buf =>
    have hbuf : buf.length ≤ maxRwCount := hcount
    rw [requested_write h.implements hbuf, hpushed, List.length_nil, Nat.add_zero] at hcopy
    rcases he with hzero | hfull | hyes
    · split at hcopy
      · exact absurd hcopy (Nat.lt_irrefl 0)
      · omega
    · rw [if_pos hfull] at hcopy
      exact absurd hcopy (Nat.lt_irrefl 0)
    · exact hno hyes

/-- Events in good time keep the invariant. -/
theorem inv_step {e : InitEvent} (h : s.Inv) (he : s.InGoodTime e) (hs : s.next e = some s') :
    s'.Inv := by
  obtain ⟨old, q, hq⟩ := h.holds
  cases e with
  | registerChrdev ok =>
    simp only [next] at hs
    split at hs
    · rename_i hpos
      cases hs
      exact ⟨h.present, fun _ => h.later (.inl hpos), old, q, hq.implements, hq.accepted,
        hq.delivered, hq.unallocated⟩
    · cases hs
  | kmalloc buffer =>
    simp only [next] at hs
    split at hs
    · rename_i hpos
      have hno := h.later (.inr hpos)
      cases buffer with
      | none =>
        cases hs
        exact ⟨h.present, fun _ => hno, old, q, hq.implements, hq.accepted, hq.delivered,
          hq.unallocated⟩
      | some m =>
        cases hs
        refine ⟨h.present, fun hlater => ?_, old, q, ?_, hq.accepted, hq.delivered,
          fun hno' => by cases hno'⟩
        · rcases hlater with hlater | hlater
          · cases hlater
          · cases hlater
        · refine ⟨⟨hq.implements.offsets.read, hq.implements.offsets.write,
            hq.implements.offsets.le, hq.implements.offsets.lt⟩, ?_⟩
          rw [hq.unallocated hno]
          rfl
    · cases hs
  | resetOffsets =>
    simp only [next] at hs
    split at hs
    · cases hs
      refine ⟨h.present, fun hlater => ?_, old ++ q.pushed, Queue.empty,
        implements_reset s.drv, ?_, ?_, fun _ => rfl⟩
      · rcases hlater with hlater | hlater
        · cases hlater
        · cases hlater
      · exact hq.accepted.trans (List.append_nil _).symm
      · have hdelivered := hq.delivered
        rw [popped_of_nothingUnread hq.implements he] at hdelivered
        exact hdelivered.trans (List.append_nil _).symm
    · cases hs
  | call c =>
    simp only [next] at hs
    split at hs
    · rename_i hguard
      have hcopy := allocated_of_copies hq hguard.2 he
      split at hs
      · rename_i hfault
        rw [hcopy hfault.1] at hfault
        cases hfault.2
      · cases hs
        obtain ⟨q', hq'⟩ := holds_perform hq hguard.2 hcopy
        cases c with
        | read n => exact ⟨h.present, h.later, old, q', hq'⟩
        | write buf => exact ⟨h.present, h.later, old, q', hq'⟩
    · cases hs

/-- Other events run on an absent buffer, or discard what is unread. -/
theorem not_intact_of_untimely {e : InitEvent} (h : s.Inv) (he : ¬ s.InGoodTime e)
    (hs : s.next e = some s') : ¬ s'.Intact := by
  obtain ⟨old, q, hq⟩ := h.holds
  intro hintact
  cases e with
  | registerChrdev ok => exact he trivial
  | kmalloc buffer => exact he trivial
  | resetOffsets =>
    simp only [next] at hs
    split at hs
    · cases hs
      have hkept := hintact.kept
      rw [(implements_reset s.drv).stored_eq, hq.delivered, hq.accepted] at hkept
      refine he ((hq.implements.offsets.nothingUnread_iff).mpr ?_)
      have hlen := congrArg List.length hkept
      simp only [List.length_append, Queue.empty, List.length_nil] at hlen
      omega
    · cases hs
  | call c =>
    cases c with
    | read n => exact he trivial
    | write buf =>
      obtain ⟨hne, hfit, hno⟩ : buf.length ≠ 0 ∧ ¬ 4096 ≤ buf.length ∧ s.allocated = false := by
        simpa [InGoodTime] using he
      simp only [next] at hs
      split at hs
      · rename_i hguard
        have hbuf : buf.length ≤ maxRwCount := hguard.2
        have hreq : (Call.write buf).requested s.drv = buf.length := by
          rw [requested_write hq.implements hbuf, hq.unallocated hno, List.length_nil,
            Nat.add_zero, if_neg hfit]
        rw [if_pos ⟨by rw [hreq]; exact Nat.pos_of_ne_zero hne, hno⟩] at hs
        cases hs
        cases hintact.present
      · cases hs

end InitState

/-- **No copy runs on an absent buffer and no accepted byte is lost exactly in
the runs in which writes and the reset of the offsets come in good time.** -/
theorem intact_iff (mem : Memory UInt8) (es : List InitEvent) (s : InitState)
    (hr : run InitState.next (InitState.start mem) es = some s) :
    Along InitState.next InitState.Intact (InitState.start mem) es ↔
      StepsMeet InitState.next InitState.InGoodTime (InitState.start mem) es :=
  along_iff_of_inv InitState.Inv.intact InitState.inv_step InitState.not_intact_of_untimely
    (InitState.inv_start mem) hr

/-- The test program after an initialisation that succeeded. -/
def quietRun : List InitEvent :=
  [.registerChrdev true, .kmalloc (some fun _ => 0), .resetOffsets, .call (.write bufOut),
    .call (.read 26)]

theorem intact_quietRun :
    Along InitState.next InitState.Intact (InitState.start fun _ => 0) quietRun := by
  obtain ⟨s, hs, -⟩ := exists_run_of_any InitState.next (InitState.start fun _ => 0) quietRun
    (fun _ => true) (by decide)
  exact (intact_iff (fun _ => 0) quietRun s hs).mpr (by decide)

/-- `kmalloc` returns `NULL`, `drv_init` succeeds all the same, and a client
writes one byte. -/
def nullRun : List InitEvent :=
  [.registerChrdev true, .kmalloc none, .resetOffsets, .call (.write [65])]

/-- A client writes one byte between `kmalloc` and the reset of the offsets. -/
def earlyRun : List InitEvent :=
  [.registerChrdev true, .kmalloc (some fun _ => 0), .call (.write [65]), .resetOffsets]

/-- The first run copies to an absent buffer, and the second one discards an
accepted byte. -/
theorem absent_or_discarded :
    (∃ s, run InitState.next (InitState.start fun _ => 0) nullRun = some s ∧
      s.absent = true ∧ ¬ s.Intact) ∧
    ∃ s, run InitState.next (InitState.start fun _ => 0) earlyRun = some s ∧
      s.accepted = [65] ∧ s.delivered ++ s.drv.stored = [] ∧ ¬ s.Intact := by
  constructor
  · obtain ⟨s, hs, habsent⟩ := exists_run_of_any InitState.next (InitState.start fun _ => 0)
      nullRun InitState.absent (by decide)
    refine ⟨s, hs, habsent, fun h => ?_⟩
    rw [h.present] at habsent
    cases habsent
  · obtain ⟨s, hs, hp⟩ := exists_run_of_any InitState.next (InitState.start fun _ => 0)
      earlyRun (fun s => decide (s.accepted = [65] ∧ s.delivered ++ s.drv.stored = []))
      (by decide)
    obtain ⟨haccepted, hgone⟩ := of_decide_eq_true hp
    refine ⟨s, hs, haccepted, hgone, fun h => ?_⟩
    have hkept := h.kept
    rw [haccepted, hgone] at hkept
    cases hkept

end Esystem.CharDrv
