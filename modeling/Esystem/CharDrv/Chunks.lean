import Esystem.CharDrv.Fifo

/-!
# Reading and writing in pieces

An application that reads or writes with several calls gets what one call with
their total would have given it. The driver implements a queue, so this is what
pops and pushes in a row come to (`Queue.pop_pop`, `Queue.push_push`), once it is
known that the capacity guard adds up as well (`acceptsAll_iff`).

- `chunking_independent`: reads and writes, in every reachable state.
-/

namespace Esystem.CharDrv

/-- `drv_read` with each of the counts, one call after another: the bytes that
arrive, and the driver in the end. -/
def drvReads : List Nat → Driver → List UInt8 × Driver
  | [], s => ([], s)
  | n :: counts, s =>
    let o := drvRead (BitVec.ofNat 64 n) 0 s
    let r := drvReads counts o.drv
    (o.data ++ r.1, r.2)

/-- `drv_write` of each of the pieces, one call after another. -/
def drvWrites : List (List UInt8) → Driver → Driver
  | [], s => s
  | buf :: pieces, s => drvWrites pieces (drvWrite buf 0 s).drv

/-- The capacity guard lets a write of `buf` pass. -/
def Driver.Accepts (s : Driver) (buf : List UInt8) : Prop :=
  ¬ s.refuses (BitVec.ofNat 64 buf.length)

/-- The guard lets each of the pieces pass, one call after another. -/
def Driver.AcceptsAll : List (List UInt8) → Driver → Prop
  | [], _ => True
  | buf :: pieces, s => s.Accepts buf ∧ AcceptsAll pieces (drvWrite buf 0 s).drv

/-- The bytes of `drv_data` up to `drv_write_offset`. -/
def Driver.written (s : Driver) : List UInt8 :=
  s.drvData.load 0 s.drvWriteOffset.toInt.toNat

variable {s s' : Driver} {q : Queue UInt8}

/-! ## The driver that implements a queue -/

theorem Implements.written_eq (h : Implements s q) : s.written = q.pushed := by
  rw [Driver.written, h.offsets.writeOffset, Int.toNat_natCast, h.data]

/-- The queue determines the offsets. -/
theorem Implements.offsets_eq (h : Implements s q) (h' : Implements s' q) :
    s.drvReadOffset = s'.drvReadOffset ∧ s.drvWriteOffset = s'.drvWriteOffset :=
  ⟨h.offsets.read.trans h'.offsets.read.symm, h.offsets.write.trans h'.offsets.write.symm⟩

theorem Implements.accepts_iff {buf : List UInt8} (h : Implements s q)
    (hbuf : buf.length ≤ maxRwCount) :
    s.Accepts buf ↔ buf.length + q.pushed.length < 4096 := by
  rw [Driver.Accepts, h.offsets.refuses_iff hbuf, Nat.not_le]

/-! ## Reads -/

/-- A read leaves the buffer as it is. -/
theorem drvRead_drvData (count : SizeT) (s : Driver) :
    (drvRead count 0 s).drv.drvData = s.drvData := by
  unfold drvRead
  split
  · rfl
  · rfl

/-- Reads pop what they ask for together. -/
theorem drvReads_pop {counts : List Nat} (h : Implements s q)
    (hcounts : counts.sum ≤ maxRwCount) :
    (drvReads counts s).1 = q.queued.take counts.sum ∧
    Implements (drvReads counts s).2 (q.pop counts.sum) ∧
    (drvReads counts s).2.drvData = s.drvData := by
  induction counts generalizing s q with
  | nil => exact ⟨rfl, by rwa [List.sum_nil, Queue.pop_zero], rfl⟩
  | cons n counts ih =>
    rw [List.sum_cons] at hcounts ⊢
    obtain ⟨-, hdata, -, himp⟩ := drvRead_pop h (show n ≤ maxRwCount by omega)
    obtain ⟨hrest, himp', hsame⟩ := ih himp (by omega)
    rw [Queue.pop_pop] at himp'
    refine ⟨?_, himp', hsame.trans (drvRead_drvData _ s)⟩
    show (drvRead (BitVec.ofNat 64 n) 0 s).data ++ _ = _
    rw [hdata, hrest, Queue.pop_queued, List.take_add]

/-! ## Writes -/

/-- The pieces pass the guard iff there is room for all of them together. -/
theorem Implements.acceptsAll_iff {pieces : List (List UInt8)} (h : Implements s q)
    (hlen : pieces.flatten.length ≤ maxRwCount) :
    s.AcceptsAll pieces ↔ pieces.flatten.length + q.pushed.length < 4096 := by
  induction pieces generalizing s q with
  | nil => exact iff_of_true trivial (by simpa using h.offsets.lt)
  | cons buf pieces ih =>
    rw [List.flatten_cons, List.length_append] at hlen ⊢
    rw [Driver.AcceptsAll, h.accepts_iff (by omega)]
    constructor
    · rintro ⟨hfit, hrest⟩
      rw [ih (drvWrite_accepted h hfit).2.2.2 (by omega), Queue.push_pushed,
        List.length_append] at hrest
      omega
    · intro hfit
      have hfirst : buf.length + q.pushed.length < 4096 := by omega
      refine ⟨hfirst, ?_⟩
      rw [ih (drvWrite_accepted h hfirst).2.2.2 (by omega), Queue.push_pushed,
        List.length_append]
      omega

/-- Pieces for which there is room are pushed together. -/
theorem drvWrites_push {pieces : List (List UInt8)} (h : Implements s q)
    (hfit : pieces.flatten.length + q.pushed.length < 4096) :
    Implements (drvWrites pieces s) (q.push pieces.flatten) := by
  induction pieces generalizing s q with
  | nil => rwa [List.flatten_nil, Queue.push_nil]
  | cons buf pieces ih =>
    rw [List.flatten_cons] at hfit ⊢
    rw [List.length_append] at hfit
    have himp := (drvWrite_accepted h (show buf.length + q.pushed.length < 4096 by omega)).2.2.2
    rw [← Queue.push_push]
    refine ih himp ?_
    rw [Queue.push_pushed, List.length_append]
    omega

/-! ## Both -/

/-- **It makes no difference into how many calls a read or a write is split**, in
every reachable state. -/
theorem chunking_independent (kmalloc : Memory UInt8) (calls : List Call) (s : Session)
    (hr : run Session.next (Session.start kmalloc) calls = some s) :
    -- reads return the same bytes and leave the same driver
    (∀ n ≤ maxRwCount, ∀ counts : List Nat, counts.sum = n →
      (drvReads counts s.drv).1 = (drvRead (BitVec.ofNat 64 n) 0 s.drv).data ∧
      (drvReads counts s.drv).2 = (drvRead (BitVec.ofNat 64 n) 0 s.drv).drv) ∧
    -- the pieces of a write are accepted iff it is, and then it is all the same
    ∀ buf : List UInt8, buf.length ≤ maxRwCount → ∀ pieces, pieces.flatten = buf →
      (s.drv.Accepts buf ↔ s.drv.AcceptsAll pieces) ∧
      (s.drv.Accepts buf →
        (drvWrites pieces s.drv).written = (drvWrite buf 0 s.drv).drv.written ∧
        (drvWrites pieces s.drv).drvReadOffset = (drvWrite buf 0 s.drv).drv.drvReadOffset ∧
        (drvWrites pieces s.drv).drvWriteOffset = (drvWrite buf 0 s.drv).drv.drvWriteOffset) := by
  obtain ⟨q, himp, -, -, -⟩ := Session.inv_run hr
  constructor
  · rintro n hn counts rfl
    obtain ⟨-, hdata, -, hwhole⟩ := drvRead_pop himp hn
    obtain ⟨hdatas, hpieces, hsame⟩ := drvReads_pop himp hn
    refine ⟨hdatas.trans hdata.symm, ?_⟩
    obtain ⟨hread, hwrite⟩ := hpieces.offsets_eq hwhole
    have hbuffer := hsame.trans (drvRead_drvData (BitVec.ofNat 64 counts.sum) s.drv).symm
    exact Driver.ext hbuffer hread hwrite
  · rintro buf hbuf pieces rfl
    have haccepts := himp.accepts_iff hbuf
    refine ⟨haccepts.trans (himp.acceptsAll_iff hbuf).symm, fun h => ?_⟩
    have hfit := haccepts.mp h
    have hwhole := (drvWrite_accepted himp hfit).2.2.2
    have hpieces := drvWrites_push himp hfit
    exact ⟨hpieces.written_eq.trans hwhole.written_eq.symm, hpieces.offsets_eq hwhole⟩

/-- The alphabet is written and read in three pieces, of which one is empty. -/
theorem chunking_independent_alphabet :
    ∃ s, run Session.next (Session.start fun _ => 0) [.write bufOut] = some s ∧
      (drvReads [10, 0, 16] s.drv).1 = bufOut ∧
      s.drv.AcceptsAll [bufOut.take 10, [], bufOut.drop 10] := by
  obtain ⟨s, hs, hp⟩ := exists_run_of_any Session.next (Session.start fun _ => 0) [.write bufOut]
    (fun s => decide ((drvRead (BitVec.ofNat 64 26) 0 s.drv).data = bufOut ∧
      ¬ s.drv.refuses (BitVec.ofNat 64 26))) (by decide)
  obtain ⟨hdata, haccepts⟩ := of_decide_eq_true hp
  obtain ⟨hreads, hwrites⟩ := chunking_independent (fun _ => 0) [.write bufOut] s hs
  refine ⟨s, hs, (hreads 26 (by decide) [10, 0, 16] rfl).1.trans hdata, ?_⟩
  exact (hwrites bufOut (by decide) [bufOut.take 10, [], bufOut.drop 10] rfl).1.mp haccepts

end Esystem.CharDrv
