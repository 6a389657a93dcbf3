import Esystem.CharDrv.Fifo

/-!
# How much the character driver takes

The buffer of the driver is linear: `drv_write_offset` counts every byte ever
accepted, and a read gives no space back. What a write may still bring depends
on that offset only.

- `takes_by_writeOffset`: what is taken and what is refused, in every reachable
  state.
- `refuses_when_drained`: a drained driver refuses two bytes.
-/

namespace Esystem.CharDrv

variable {s : Driver} {q : Queue UInt8}

/-- A write that fits is stored behind what is there. -/
theorem stored_drvWrite {buf : List UInt8} (h : Implements s q)
    (hfit : buf.length + q.pushed.length < 4096) :
    (drvWrite buf 0 s).drv.stored = s.stored ++ buf := by
  obtain ⟨-, -, -, himp⟩ := drvWrite_accepted h hfit
  rw [himp.stored_eq, h.stored_eq, Queue.push_queued]

/-- **The driver takes a write by the bytes it has ever accepted**: after every
serialised run of fault-free calls, one that stays below `DRV_MAX_LENGTH` is
taken as a whole, and one that goes beyond is refused, however much has been
read. -/
theorem takes_by_writeOffset (kmalloc : Memory UInt8) (calls : List Call) (s : Session)
    (hr : run Session.next (Session.start kmalloc) calls = some s) :
    s.drv.drvWriteOffset.toInt = s.accepted.length ∧
    ∀ buf : List UInt8, 1 ≤ buf.length → buf.length ≤ maxRwCount →
      (buf.length + s.drv.drvWriteOffset.toInt < drvMaxLength.toInt →
        (drvWrite buf 0 s.drv).ret.toNat = buf.length ∧
        (drvWrite buf 0 s.drv).drv.stored = s.drv.stored ++ buf) ∧
      (drvMaxLength.toInt < buf.length + s.drv.drvWriteOffset.toInt →
        (drvWrite buf 0 s.drv).ret = 0 ∧ (drvWrite buf 0 s.drv).drv = s.drv) := by
  obtain ⟨q, himp, hpush, -, -⟩ := Session.inv_run hr
  have hmax : drvMaxLength.toInt = 4096 := rfl
  rw [himp.offsets.writeOffset, hmax]
  refine ⟨by rw [hpush], fun buf _ hbuf => ⟨fun hfit => ?_, fun hfull => ?_⟩⟩
  · have hfit : buf.length + q.pushed.length < 4096 := by omega
    rw [(drvWrite_accepted himp hfit).1, toNat_ofNat_size (by omega)]
    exact ⟨rfl, stored_drvWrite himp hfit⟩
  · rw [drvWrite_refused himp hbuf (by omega)]
    exact ⟨rfl, rfl⟩

/-- Three bytes are written and read, two at first and then all that is left; a
request for 4094 bytes is refused, and another read finds nothing. -/
def threeBytes : List Call :=
  [.write [65, 66, 67], .read 2, .read 5, .write (List.replicate 4094 0), .read 1]

/-- After that a byte is taken, and 4094 bytes are refused again. -/
theorem takes_by_writeOffset_threeBytes :
    ∃ s, run Session.next (Session.start fun _ => 0) threeBytes = some s ∧
      s.accepted = [65, 66, 67] ∧ s.delivered = [65, 66, 67] ∧
      (drvWrite [68] 0 s.drv).ret.toNat = 1 ∧
      (drvWrite [68] 0 s.drv).drv.stored = s.drv.stored ++ [68] ∧
      (drvWrite (List.replicate 4094 0) 0 s.drv).ret = 0 ∧
      (drvWrite (List.replicate 4094 0) 0 s.drv).drv = s.drv := by
  obtain ⟨s, hs, hp⟩ := exists_run_of_any Session.next (Session.start fun _ => 0) threeBytes
    (fun s => decide (s.accepted = [65, 66, 67] ∧ s.delivered = [65, 66, 67]))
    (by decide +kernel)
  obtain ⟨haccepted, hdelivered⟩ := of_decide_eq_true hp
  obtain ⟨hoffset, htakes⟩ := takes_by_writeOffset (fun _ => 0) threeBytes s hs
  have hmax : drvMaxLength.toInt = 4096 := rfl
  have hlen : (List.replicate 4094 (0 : UInt8)).length = 4094 := List.length_replicate
  rw [haccepted] at hoffset
  rw [hoffset, hmax] at htakes
  obtain ⟨hfit, -⟩ := htakes [68] (by decide) (by decide)
  obtain ⟨-, hfull⟩ := htakes (List.replicate 4094 0) (by rw [hlen]; decide)
    (by rw [hlen]; decide)
  exact ⟨s, hs, haccepted, hdelivered, (hfit (by decide)).1, (hfit (by decide)).2,
    (hfull (by rw [hlen]; decide)).1, (hfull (by rw [hlen]; decide)).2⟩

/-- A run that writes some bytes and reads them all leaves the driver with
nothing to read, and with the bytes still in its buffer. -/
theorem drained (kmalloc : Memory UInt8) (buf : List UInt8) (hfit : buf.length < 4096) :
    ∃ s q, run Session.next (Session.start kmalloc) [.write buf, .read buf.length] = some s ∧
      Implements s.drv q ∧ q.pushed = buf ∧ q.popped = buf := by
  have hcount : buf.length ≤ maxRwCount := by
    simp only [maxRwCount]
    omega
  have hempty : buf.length + (Queue.empty (α := UInt8)).pushed.length < 4096 := hfit
  obtain ⟨-, -, -, hwritten⟩ := drvWrite_accepted (implements_drvInit kmalloc) hempty
  obtain ⟨-, -, -, hread⟩ := drvRead_pop hwritten hcount
  obtain ⟨s, hs, hdrv⟩ : ∃ s, run Session.next (Session.start kmalloc)
      [.write buf, .read buf.length] = some s ∧
      s.drv =
        (drvRead (BitVec.ofNat 64 buf.length) 0 (drvWrite buf 0 (drvInit kmalloc)).drv).drv := by
    simp only [run, Session.next, if_pos hcount, Option.bind_some]
    exact ⟨_, rfl, rfl⟩
  exact ⟨s, (Queue.empty.push buf).pop buf.length, hs, hdrv ▸ hread, rfl, List.take_length⟩

/-- Nothing is unread after 4095 bytes were written and read, and yet a write of
two bytes is refused. -/
theorem refuses_when_drained : ∃ s,
    run Session.next (Session.start fun _ => 0)
      [.write (List.replicate 4095 0), .read (List.replicate 4095 (0 : UInt8)).length] = some s ∧
    s.drv.drvWriteOffset.toInt - s.drv.drvReadOffset.toInt = 0 ∧
    (drvWrite [65, 66] 0 s.drv).ret = 0 := by
  have hlen : (List.replicate 4095 (0 : UInt8)).length = 4095 := List.length_replicate
  obtain ⟨s, q, hr, himp, hpushed, hpopped⟩ :=
    drained (fun _ => 0) (List.replicate 4095 0) (by rw [hlen]; decide)
  refine ⟨s, hr, ?_, ?_⟩
  · rw [himp.offsets.writeOffset, himp.offsets.readOffset, hpushed, hpopped, Int.sub_self]
  · rw [drvWrite_refused himp (by decide) (by rw [hpushed, hlen]; decide)]

end Esystem.CharDrv
