import Esystem.Core.Machine
import Esystem.Core.Queue
import Esystem.CharDrv.Driver

/-!
# The character driver is a queue of bytes

The driver never moves or overwrites a byte, so while calls come one after
another its buffer holds everything ever written, and the two offsets are the
numbers of bytes popped from and pushed to a queue (`Implements`). Each call is
a `push`, a `pop`, or refused:

- `drvWrite_accepted`, `drvWrite_refused`, `drvRead_pop`: one call;
- `fifo`: every serialised run of calls.
-/

namespace Esystem.CharDrv

/-- The driver implements the queue `q`. -/
structure Implements (s : Driver) (q : Queue UInt8) : Prop where
  offsets : s.At q.popped.length q.pushed.length
  data : s.drvData.load 0 q.pushed.length = q.pushed

/-- The bytes in `drv_data[drv_read_offset .. drv_write_offset)`. -/
def Driver.stored (s : Driver) : List UInt8 :=
  s.drvData.load s.drvReadOffset.toInt (s.drvWriteOffset.toInt - s.drvReadOffset.toInt).toNat

variable {s : Driver} {q : Queue UInt8}

theorem implements_drvInit (kmalloc : Memory UInt8) :
    Implements (drvInit kmalloc) Queue.empty where
  offsets := Driver.at_drvInit kmalloc
  data := rfl

theorem length_pushed (q : Queue UInt8) :
    q.pushed.length = q.popped.length + q.queued.length := by
  rw [q.conserved, List.length_append]

/-- What is queued lies between the offsets. -/
theorem Implements.load_queued (h : Implements s q) :
    s.drvData.load q.popped.length q.queued.length = q.queued := by
  have hall := h.data
  rw [length_pushed, Memory.load_add, Int.zero_add] at hall
  exact List.append_inj_right (hall.trans q.conserved) (Memory.length_load _ _ _)

theorem Implements.stored_eq (h : Implements s q) : s.stored = q.queued := by
  have hlen : ((q.pushed.length : Int) - q.popped.length).toNat = q.queued.length := by
    have := length_pushed q
    omega
  rw [Driver.stored, h.offsets.readOffset, h.offsets.writeOffset, hlen, h.load_queued]

/-! ## One call -/

/-- A fault-free copy stores what it is given. -/
theorem copyFromUser_zero (s : Driver) (buf : List UInt8) :
    s.copyFromUser buf 0 = { s with drvData := s.drvData.store s.drvWriteOffset.toInt buf } := by
  simp [Driver.copyFromUser]

/-- A write that does not fit changes nothing and returns 0. -/
theorem drvWrite_refused {buf : List UInt8} (h : Implements s q)
    (hbuf : buf.length ≤ maxRwCount) (hfull : 4096 ≤ buf.length + q.pushed.length) :
    drvWrite buf 0 s = ⟨0, [], [], s⟩ := by
  rw [drvWrite, if_pos ((h.offsets.refuses_iff hbuf).mpr hfull)]

/-- A write that fits pushes its bytes and returns their number. -/
theorem drvWrite_accepted {buf : List UInt8} (h : Implements s q)
    (hfit : buf.length + q.pushed.length < 4096) :
    (drvWrite buf 0 s).ret = BitVec.ofNat 64 buf.length ∧
    (drvWrite buf 0 s).data = [] ∧
    (drvWrite buf 0 s).touched = Memory.span q.pushed.length buf.length ∧
    Implements (drvWrite buf 0 s).drv (q.push buf) := by
  have hbuf : buf.length ≤ maxRwCount := by
    simp only [maxRwCount]
    omega
  have hpass : ¬ s.refuses (BitVec.ofNat 64 buf.length) := by
    rw [h.offsets.refuses_iff hbuf]
    omega
  rw [drvWrite, if_neg hpass, copyFromUser_zero, h.offsets.writeOffset]
  refine ⟨rfl, rfl, ?_, ?_, ?_⟩
  · have hcount := toNat_ofNat_size (show buf.length < 2 ^ 64 by omega)
    exact congrArg (Memory.span q.pushed.length) hcount
  · have hcopied : Driver.At { s with drvData := s.drvData.store q.pushed.length buf }
        q.popped.length q.pushed.length := ⟨h.offsets.read, h.offsets.write, h.offsets.le,
          h.offsets.lt⟩
    rw [Queue.push_popped, Queue.push_pushed, List.length_append]
    exact hcopied.advanceWrite hfit
  · show (s.drvData.store q.pushed.length buf).load 0 (q.pushed ++ buf).length = q.pushed ++ buf
    rw [List.length_append, Memory.load_add, Int.zero_add, Memory.load_store,
      Memory.load_store_of_le _ _ (by omega), h.data]

/-- Only an empty write that is accepted returns 0, and then there is nothing to
append. -/
theorem append_of_accepted {buf : List UInt8} (hlen : buf.length < 2 ^ 64)
    (accepted : List UInt8) :
    (if BitVec.ofNat 64 buf.length = 0 then accepted else accepted ++ buf) = accepted ++ buf := by
  split
  · rename_i hzero
    have hnat := congrArg BitVec.toNat hzero
    rw [toNat_ofNat_size hlen] at hnat
    rw [List.length_eq_zero_iff.mp hnat, List.append_nil]
  · rfl

/-- A read, once its count is settled. -/
theorem drvRead_some {count c : SizeT} (h : ¬ s.nothingUnread) (hc : s.minCount count = c) :
    drvRead count 0 s = ⟨c, s.drvData.load s.drvReadOffset.toInt c.toNat,
      Memory.span s.drvReadOffset.toInt c.toNat, s.advanceRead c⟩ := by
  rw [drvRead, if_neg h, hc]
  rfl

/-- A read pops as many bytes as it asks for, or all that are there. -/
theorem drvRead_pop {n : Nat} (h : Implements s q) (hn : n ≤ maxRwCount) :
    (drvRead (BitVec.ofNat 64 n) 0 s).ret = BitVec.ofNat 64 (min n q.queued.length) ∧
    (drvRead (BitVec.ofNat 64 n) 0 s).data = q.queued.take n ∧
    (∀ j ∈ (drvRead (BitVec.ofNat 64 n) 0 s).touched, 0 ≤ j ∧ j < q.pushed.length) ∧
    Implements (drvRead (BitVec.ofNat 64 n) 0 s).drv (q.pop n) := by
  have hlen := length_pushed q
  have hlt := h.offsets.lt
  by_cases hnone : s.nothingUnread
  · have hempty : q.queued = [] := by
      rw [h.offsets.nothingUnread_iff] at hnone
      exact List.length_eq_zero_iff.mp (by omega)
    rw [drvRead, if_pos hnone, hempty, List.take_nil]
    refine ⟨(congrArg (BitVec.ofNat 64) (Nat.min_zero n)).symm, rfl,
      fun j hj => absurd hj List.not_mem_nil, ?_, h.data⟩
    rw [Queue.pop_popped, hempty, List.take_nil, List.append_nil]
    exact h.offsets
  · have hmin : s.minCount (BitVec.ofNat 64 n) = BitVec.ofNat 64 (min n q.queued.length) := by
      rw [h.offsets.minCount_eq hn, hlen, Nat.add_sub_cancel_left]
    have htoNat : (BitVec.ofNat 64 (min n q.queued.length)).toNat = min n q.queued.length :=
      toNat_ofNat_size (by omega)
    rw [drvRead_some hnone hmin, htoNat, h.offsets.readOffset]
    refine ⟨rfl, ?_, fun j hj => ?_, ?_, h.data⟩
    · rw [← Memory.take_load, h.load_queued]
    · rw [Memory.mem_span] at hj
      omega
    · rw [Queue.pop_popped, List.length_append, List.length_take, Queue.pop_pushed]
      exact h.offsets.advanceRead (by omega)

/-! ## Serialised runs -/

/-- A call by some client. -/
inductive Call where
  | read (count : Nat)
  | write (buf : List UInt8)

/-- The count of a call. -/
def Call.count : Call → Nat
  | .read count => count
  | .write buf => buf.length

/-- How many bytes a call asks to copy: none where the driver returns before. -/
def Call.requested (s : Driver) : Call → Nat
  | .read count =>
    if s.nothingUnread then 0 else (s.minCount (BitVec.ofNat 64 count)).toNat
  | .write buf =>
    if s.refuses (BitVec.ofNat 64 buf.length) then 0 else buf.length

/-- What a write asks to copy. -/
theorem requested_write {buf : List UInt8} (h : Implements s q)
    (hbuf : buf.length ≤ maxRwCount) :
    (Call.write buf).requested s
      = if 4096 ≤ buf.length + q.pushed.length then 0 else buf.length := by
  rw [Call.requested]
  simp only [h.offsets.refuses_iff hbuf]

/-- What a read asks to copy. -/
theorem requested_read {n : Nat} (h : Implements s q) (hn : n ≤ maxRwCount) :
    (Call.read n).requested s = min n q.queued.length := by
  have hlen := length_pushed q
  have hlt := h.offsets.lt
  rw [Call.requested, h.offsets.minCount_eq hn, toNat_ofNat_size (by omega)]
  split
  · rename_i hnone
    rw [h.offsets.nothingUnread_iff] at hnone
    omega
  · omega

/-- The driver with what has happened to it: the bytes all reads have returned,
the data of all accepted writes, and the indices of `drv_data` that copies have
touched. -/
structure Session where
  drv : Driver
  delivered : List UInt8
  accepted : List UInt8
  touched : List Int

namespace Session

/-- The driver after `drv_init`. -/
def start (kmalloc : Memory UInt8) : Session := ⟨drvInit kmalloc, [], [], []⟩

/-- One call with a count that the VFS passes and fault-free copies. -/
def next (s : Session) : Call → Option Session
  | .read count =>
    if count ≤ maxRwCount then
      let o := drvRead (BitVec.ofNat 64 count) 0 s.drv
      some { s with
        drv := o.drv
        delivered := s.delivered ++ o.data
        touched := s.touched ++ o.touched }
    else none
  | .write buf =>
    if buf.length ≤ maxRwCount then
      let o := drvWrite buf 0 s.drv
      some { s with
        drv := o.drv
        accepted := if o.ret = 0 then s.accepted else s.accepted ++ buf
        touched := s.touched ++ o.touched }
    else none

/-- The session is the history of a queue that the driver implements. -/
def Inv (s : Session) : Prop :=
  ∃ q : Queue UInt8, Implements s.drv q ∧ q.pushed = s.accepted ∧ q.popped = s.delivered ∧
    ∀ j ∈ s.touched, 0 ≤ j ∧ j < 4096

theorem inv_start (kmalloc : Memory UInt8) : Inv (start kmalloc) :=
  ⟨Queue.empty, implements_drvInit kmalloc, rfl, rfl, fun j hj => by cases hj⟩

/-- Every call keeps the invariant. -/
theorem inv_step {s s' : Session} {c : Call} (h : s.Inv) (hs : s.next c = some s') : s'.Inv := by
  obtain ⟨q, himp, hpush, hpop, htouched⟩ := h
  cases c with
  | read count =>
    simp only [next] at hs
    split at hs
    · rename_i hcount
      cases hs
      obtain ⟨-, hdata, htouch, himp'⟩ := drvRead_pop himp hcount
      refine ⟨q.pop count, himp', hpush, ?_, fun j hj => ?_⟩
      · rw [Queue.pop_popped, hpop, hdata]
      · rcases List.mem_append.mp hj with hj | hj
        · exact htouched j hj
        · have := htouch j hj
          have := himp.offsets.lt
          omega
    · cases hs
  | write buf =>
    simp only [next] at hs
    split at hs
    · rename_i hbuf
      by_cases hfit : buf.length + q.pushed.length < 4096
      · obtain ⟨hret, -, htouch, himp'⟩ := drvWrite_accepted himp hfit
        cases hs
        refine ⟨q.push buf, himp', ?_, hpop, fun j hj => ?_⟩
        · rw [Queue.push_pushed, hpush, hret]
          exact (append_of_accepted (by omega) s.accepted).symm
        · rcases List.mem_append.mp hj with hj | hj
          · exact htouched j hj
          · rw [htouch, Memory.mem_span] at hj
            omega
      · rw [drvWrite_refused himp hbuf (Nat.le_of_not_lt hfit)] at hs
        cases hs
        exact ⟨q, himp, hpush, hpop, by rwa [List.append_nil]⟩
    · cases hs

theorem inv_run {kmalloc : Memory UInt8} {calls : List Call} {s : Session}
    (hr : run next (start kmalloc) calls = some s) : s.Inv :=
  run_inv inv_step (inv_start kmalloc) hr

end Session

/-- **The character driver is a byte FIFO** over every serialised run. -/
theorem fifo (kmalloc : Memory UInt8) (calls : List Call) (s : Session)
    (hr : run Session.next (Session.start kmalloc) calls = some s) :
    -- the offsets are in range, and so is every copy
    0 ≤ s.drv.drvReadOffset.toInt ∧
    s.drv.drvReadOffset.toInt ≤ s.drv.drvWriteOffset.toInt ∧
    s.drv.drvWriteOffset.toInt < drvMaxLength.toInt ∧
    (∀ j ∈ s.touched, 0 ≤ j ∧ j < drvMaxLength.toInt) ∧
    -- no byte is lost, duplicated or reordered
    s.delivered ++ s.drv.stored = s.accepted ∧
    -- a read returns what it asks for, or all there is
    (∀ n ≤ maxRwCount,
      (drvRead (BitVec.ofNat 64 n) 0 s.drv).ret.toNat = min n s.drv.stored.length ∧
      (drvRead (BitVec.ofNat 64 n) 0 s.drv).data = s.drv.stored.take n) ∧
    -- a write is taken as a whole, or refused without effect
    (∀ buf : List UInt8, buf.length ≤ maxRwCount →
      (drvWrite buf 0 s.drv).ret.toNat = buf.length ∨
      (drvWrite buf 0 s.drv).ret = 0 ∧ (drvWrite buf 0 s.drv).drv = s.drv) := by
  obtain ⟨q, himp, hpush, hpop, htouched⟩ := Session.inv_run hr
  have hoff := himp.offsets
  have hle := hoff.le
  have hlt := hoff.lt
  have hmax : drvMaxLength.toInt = 4096 := rfl
  rw [hoff.readOffset, hoff.writeOffset, hmax, himp.stored_eq]
  refine ⟨Int.natCast_nonneg _, Int.ofNat_le.mpr hle, by omega, htouched, ?_, ?_, ?_⟩
  · rw [← hpush, ← hpop, q.conserved]
  · intro n hn
    obtain ⟨hret, hdata, -, -⟩ := drvRead_pop himp hn
    have hlen := length_pushed q
    rw [hret, toNat_ofNat_size (by omega)]
    exact ⟨rfl, hdata⟩
  · intro buf hbuf
    by_cases hfit : buf.length + q.pushed.length < 4096
    · left
      rw [(drvWrite_accepted himp hfit).1, toNat_ofNat_size (by omega)]
    · right
      rw [drvWrite_refused himp hbuf (Nat.le_of_not_lt hfit)]
      exact ⟨rfl, rfl⟩

/-- The alphabet, as the test program writes it. -/
def bufOut : List UInt8 := (List.range 26).map fun i => UInt8.ofNat (65 + i)

/-- The test program writes the alphabet and reads it back. -/
theorem fifo_test_program :
    ∃ s, run Session.next (Session.start fun _ => 0) [.write bufOut, .read 26] = some s ∧
      s.accepted = bufOut ∧ s.delivered ++ s.drv.stored = bufOut := by
  obtain ⟨s, hs, hp⟩ := exists_run_of_any Session.next (Session.start fun _ => 0)
    [.write bufOut, .read 26] (fun s => decide (s.accepted = bufOut)) (by decide)
  have haccepted := of_decide_eq_true hp
  obtain ⟨-, -, -, -, hfifo, -⟩ := fifo (fun _ => 0) [.write bufOut, .read 26] s hs
  exact ⟨s, hs, haccepted, hfifo.trans haccepted⟩

end Esystem.CharDrv
