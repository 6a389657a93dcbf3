import Esystem.CharDrv.Fifo

/-!
# The character driver with faulting user buffers

Each call of a run may find that the user's buffer ends in memory that cannot be
accessed: `copy_to_user` and `copy_from_user` then transfer the leading bytes,
and return how many are missing. The driver ignores that number, so it reports,
and skips, bytes that were never transferred.

- `honest_read`, `honest_write`: without a fault, a call reports what it did.
- `faithful_iff`: the driver reports the truth and keeps the bytes in order
  exactly in the runs in which no copy leaves a byte uncopied.
-/

namespace Esystem.CharDrv

/-- A call, and how many of the bytes it asks to copy are left uncopied. -/
structure FaultyCall where
  call : Call
  uncopied : Nat

/-- What a call reported and did: its return value, how many bytes arrived at
the user and how many came from there, and the driver before and after. -/
structure Report where
  ret : SizeT
  toUser : Nat
  fromUser : Nat
  before : Driver
  after : Driver

/-- The call returned the number of bytes transferred and advanced the offsets
by as much, or it failed and changed nothing. -/
def Report.Honest (r : Report) : Prop :=
  (r.ret.toNat = r.toUser + r.fromUser ∧
    r.after.drvReadOffset.toInt = r.before.drvReadOffset.toInt + r.toUser ∧
    r.after.drvWriteOffset.toInt = r.before.drvWriteOffset.toInt + r.fromUser) ∨
  (r.ret.toInt < 0 ∧ r.after = r.before)

/-- The driver with what has happened to it: the bytes that really arrived at
readers, those that really came from writers, and a report of each call. -/
structure FaultySession where
  drv : Driver
  delivered : List UInt8
  supplied : List UInt8
  reports : List Report

namespace FaultySession

/-- The driver after `drv_init`. -/
def start (kmalloc : Memory UInt8) : FaultySession := ⟨drvInit kmalloc, [], [], []⟩

/-- One call, with a count that the VFS passes and at most as many bytes left
uncopied as it asks to copy. -/
def next (s : FaultySession) (c : FaultyCall) : Option FaultySession :=
  if c.call.count ≤ maxRwCount ∧ c.uncopied ≤ c.call.requested s.drv then
    match c.call with
    | .read count =>
      let o := drvRead (BitVec.ofNat 64 count) c.uncopied s.drv
      some { s with
        drv := o.drv
        delivered := s.delivered ++ o.data
        reports := s.reports ++ [⟨o.ret, o.data.length, 0, s.drv, o.drv⟩] }
    | .write buf =>
      let o := drvWrite buf c.uncopied s.drv
      let copied := buf.take ((Call.write buf).requested s.drv - c.uncopied)
      some { s with
        drv := o.drv
        supplied := s.supplied ++ copied
        reports := s.reports ++ [⟨o.ret, 0, copied.length, s.drv, o.drv⟩] }
  else none

/-- Every call has reported the truth, and what arrived at readers is a prefix
of what came from writers. -/
structure Faithful (s : FaultySession) : Prop where
  honest : ∀ r ∈ s.reports, r.Honest
  inOrder : s.delivered <+: s.supplied

/-- The copy of the call, if it makes one, is complete. -/
def CopiesAll (_s : FaultySession) (c : FaultyCall) : Prop :=
  c.uncopied = 0

instance (s : FaultySession) : DecidablePred s.CopiesAll :=
  fun c => inferInstanceAs (Decidable (c.uncopied = 0))

end FaultySession

variable {s : Driver} {q : Queue UInt8}

/-! ## One call -/

/-- A fault-free read reports what it did. -/
theorem honest_read {n : Nat} (h : Implements s q) (hn : n ≤ maxRwCount) :
    Report.Honest ⟨(drvRead (BitVec.ofNat 64 n) 0 s).ret,
      (drvRead (BitVec.ofNat 64 n) 0 s).data.length, 0, s,
      (drvRead (BitVec.ofNat 64 n) 0 s).drv⟩ := by
  obtain ⟨hret, hdata, -, himp⟩ := drvRead_pop h hn
  have hlen := length_pushed q
  have hlt := h.offsets.lt
  left
  dsimp only
  rw [hret, hdata, himp.offsets.readOffset, himp.offsets.writeOffset, h.offsets.readOffset,
    h.offsets.writeOffset, toNat_ofNat_size (by omega), List.length_take, Queue.pop_popped,
    List.length_append, List.length_take, Queue.pop_pushed]
  refine ⟨rfl, ?_, ?_⟩
  · exact Int.natCast_add _ _
  · exact (Int.add_zero _).symm

/-- A fault-free write that fits reports what it did. -/
theorem honest_write {buf : List UInt8} (h : Implements s q)
    (hfit : buf.length + q.pushed.length < 4096) :
    Report.Honest ⟨(drvWrite buf 0 s).ret, 0, buf.length, s, (drvWrite buf 0 s).drv⟩ := by
  obtain ⟨hret, -, -, himp⟩ := drvWrite_accepted h hfit
  left
  dsimp only
  rw [hret, himp.offsets.readOffset, himp.offsets.writeOffset, h.offsets.readOffset,
    h.offsets.writeOffset, toNat_ofNat_size (by omega), Queue.push_popped, Queue.push_pushed,
    List.length_append]
  refine ⟨(Nat.zero_add _).symm, ?_, ?_⟩
  · exact (Int.add_zero _).symm
  · exact Int.natCast_add _ _

/-- A call that returns more than it transferred is not honest. -/
theorem not_honest_of_lt {r : Report} {m : Nat} (hret : r.ret = BitVec.ofNat 64 m)
    (hm : m < 4096) (hlt : r.toUser + r.fromUser < m) : ¬ r.Honest := by
  rintro (⟨hnat, -⟩ | ⟨hneg, -⟩)
  · rw [hret, toNat_ofNat_size (by omega)] at hnat
    omega
  · rw [hret, BitVec.toInt_eq_toNat_cond, toNat_ofNat_size (by omega), if_pos (by omega)] at hneg
    omega

/-! ## Runs -/

namespace FaultySession

/-- While no copy has faulted, the session is the history of a queue that the
driver implements. -/
def Inv (s : FaultySession) : Prop :=
  (∀ r ∈ s.reports, r.Honest) ∧
    ∃ q : Queue UInt8, Implements s.drv q ∧ q.pushed = s.supplied ∧ q.popped = s.delivered

theorem inv_start (kmalloc : Memory UInt8) : Inv (start kmalloc) :=
  ⟨fun _ hr => absurd hr List.not_mem_nil, Queue.empty, implements_drvInit kmalloc, rfl, rfl⟩

theorem Inv.faithful {s : FaultySession} (h : s.Inv) : s.Faithful where
  honest := h.1
  inOrder := by
    obtain ⟨-, q, -, hpush, hpop⟩ := h
    rw [← hpush, ← hpop]
    exact ⟨q.queued, q.conserved.symm⟩

variable {s s' : FaultySession}

/-- One more report. -/
theorem honest_append {reports : List Report} {r : Report} (h : ∀ r ∈ reports, r.Honest)
    (hr : r.Honest) : ∀ r' ∈ reports ++ [r], r'.Honest := by
  intro r' hr'
  rcases List.mem_append.mp hr' with hold | hnew
  · exact h r' hold
  · rw [List.mem_singleton.mp hnew]
    exact hr

/-- A call whose copy is complete keeps the invariant. -/
theorem inv_step {c : FaultyCall} (h : s.Inv) (hc : s.CopiesAll c)
    (hs : s.next c = some s') : s'.Inv := by
  obtain ⟨hreports, q, himp, hpush, hpop⟩ := h
  obtain ⟨call, u⟩ := c
  obtain rfl : u = 0 := hc
  cases call with
  | read count =>
    simp only [next] at hs
    split at hs
    · rename_i hcount
      have hn : count ≤ maxRwCount := hcount.1
      cases hs
      obtain ⟨-, hdata, -, himp'⟩ := drvRead_pop himp hn
      refine ⟨honest_append hreports (honest_read himp hn), q.pop count, himp', hpush, ?_⟩
      rw [Queue.pop_popped, hpop, hdata]
    · cases hs
  | write buf =>
    simp only [next] at hs
    split at hs
    · rename_i hcount
      have hbuf : buf.length ≤ maxRwCount := hcount.1
      by_cases hfull : 4096 ≤ buf.length + q.pushed.length
      · rw [drvWrite_refused himp hbuf hfull, requested_write himp hbuf, if_pos hfull] at hs
        cases hs
        refine ⟨honest_append hreports (.inl ⟨rfl, ?_, ?_⟩), q, himp, ?_, hpop⟩
        · exact (Int.add_zero _).symm
        · exact (Int.add_zero _).symm
        · exact hpush.trans (List.append_nil _).symm
      · have hfit := Nat.lt_of_not_le hfull
        rw [requested_write himp hbuf, if_neg hfull, Nat.sub_zero, List.take_length] at hs
        cases hs
        obtain ⟨-, -, -, himp'⟩ := drvWrite_accepted himp hfit
        refine ⟨honest_append hreports (honest_write himp hfit), q.push buf, himp', ?_, hpop⟩
        rw [Queue.push_pushed, hpush]
    · cases hs

/-- A call whose copy faults reports bytes that were not transferred. -/
theorem not_faithful_of_fault {c : FaultyCall} (h : s.Inv) (hc : ¬ s.CopiesAll c)
    (hs : s.next c = some s') : ¬ s'.Faithful := by
  obtain ⟨-, q, himp, -, -⟩ := h
  obtain ⟨call, u⟩ := c
  have hu : 0 < u := Nat.pos_of_ne_zero hc
  have hlen := length_pushed q
  have hlt := himp.offsets.lt
  intro hfaithful
  cases call with
  | read count =>
    simp only [next] at hs
    split at hs
    · rename_i hcount
      have hn : count ≤ maxRwCount := hcount.1
      have hreq := hcount.2
      rw [requested_read himp hn] at hreq
      cases hs
      have hsome : ¬ s.drv.nothingUnread := by
        rw [himp.offsets.nothingUnread_iff]
        omega
      have hmin : s.drv.minCount (BitVec.ofNat 64 count)
          = BitVec.ofNat 64 (min count q.queued.length) := by
        rw [himp.offsets.minCount_eq hn, hlen, Nat.add_sub_cancel_left]
      refine not_honest_of_lt (m := min count q.queued.length) ?_ ?_ ?_
        (hfaithful.honest _ (List.mem_append_right _ (List.mem_singleton.mpr rfl)))
      · simp only [drvRead, if_neg hsome, hmin]
      · omega
      · simp only [drvRead, if_neg hsome, hmin, Driver.copyToUser, Memory.length_load]
        rw [toNat_ofNat_size (by omega)]
        omega
    · cases hs
  | write buf =>
    simp only [next] at hs
    split at hs
    · rename_i hcount
      have hbuf : buf.length ≤ maxRwCount := hcount.1
      have hreq := hcount.2
      rw [requested_write himp hbuf] at hreq
      have hfit : ¬ 4096 ≤ buf.length + q.pushed.length := by
        intro hfull
        rw [if_pos hfull] at hreq
        omega
      rw [if_neg hfit] at hreq
      rw [requested_write himp hbuf, if_neg hfit] at hs
      cases hs
      have hpass : ¬ s.drv.refuses (BitVec.ofNat 64 buf.length) := by
        rw [himp.offsets.refuses_iff hbuf]
        exact hfit
      refine not_honest_of_lt (m := buf.length) ?_ ?_ ?_
        (hfaithful.honest _ (List.mem_append_right _ (List.mem_singleton.mpr rfl)))
      · simp only [drvWrite, if_neg hpass]
      · omega
      · simp only [List.length_take]
        omega
    · cases hs

end FaultySession

/-- **The driver is faithful exactly in the runs in which every copy is
complete.** -/
theorem faithful_iff (kmalloc : Memory UInt8) (calls : List FaultyCall) (s : FaultySession)
    (hr : run FaultySession.next (FaultySession.start kmalloc) calls = some s) :
    Along FaultySession.next FaultySession.Faithful (FaultySession.start kmalloc) calls ↔
      StepsMeet FaultySession.next FaultySession.CopiesAll (FaultySession.start kmalloc) calls :=
  along_iff_of_inv FaultySession.Inv.faithful FaultySession.inv_step
    FaultySession.not_faithful_of_fault (FaultySession.inv_start kmalloc) hr

/-- The test program on user buffers that can be accessed. -/
theorem faithful_test_program :
    Along FaultySession.next FaultySession.Faithful (FaultySession.start fun _ => 0)
      [⟨.write bufOut, 0⟩, ⟨.read 26, 0⟩] := by
  obtain ⟨s, hs, -⟩ := exists_run_of_any FaultySession.next (FaultySession.start fun _ => 0)
    [⟨.write bufOut, 0⟩, ⟨.read 26, 0⟩] (fun _ => true) (by decide)
  exact (faithful_iff (fun _ => 0) [⟨.write bufOut, 0⟩, ⟨.read 26, 0⟩] s hs).mpr
    (stepsMeet_of_mem (fun c hc _ => by
      rcases List.mem_cons.mp hc with rfl | hc
      · rfl
      · rw [List.mem_singleton.mp hc]
        rfl) _)

/-- A write of one byte from a buffer that cannot be accessed returns 1, and a
reader then gets a byte that nobody supplied. -/
theorem invents_byte : ∃ s,
    run FaultySession.next (FaultySession.start fun _ => 7)
      [⟨.write [65], 1⟩, ⟨.read 1, 0⟩] = some s ∧
    s.supplied = [] ∧ s.delivered = [0] ∧ ¬ s.Faithful := by
  obtain ⟨s, hs, hp⟩ := exists_run_of_any FaultySession.next (FaultySession.start fun _ => 7)
    [⟨.write [65], 1⟩, ⟨.read 1, 0⟩]
    (fun s => decide (s.supplied = [] ∧ s.delivered = [0])) (by decide)
  obtain ⟨hsupplied, hdelivered⟩ := of_decide_eq_true hp
  refine ⟨s, hs, hsupplied, hdelivered, fun h => ?_⟩
  have horder := h.inOrder
  rw [hsupplied, hdelivered] at horder
  exact absurd horder (by decide)

end Esystem.CharDrv
