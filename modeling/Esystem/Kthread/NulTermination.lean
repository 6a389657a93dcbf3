import Esystem.Core.Delimited
import Esystem.Kthread.MessageQueue

/-!
# What the receiver of messageq.c prints

The messages are 21 bytes long, the receiver reads up to 100 bytes at a time, and
the FIFO holds 1024, so a chunk can start and end inside a message, and the last
message can be stored without its NUL. The receiver prints a chunk with `%s` all
the same.

- `Framed`: how far apart the NULs of the FIFO are, and how full it is when its
  last message has been cut off.
- `prints_received`: so every chunk that is received has a NUL, and what is
  printed lies inside of it.
-/

namespace Esystem.MessageQueue

open LoopSys Kthread

/-- The FIFO holds messages, of which the first may have lost its start and the
last its end. The last has lost its end only when the FIFO was full; since then,
only whole chunks of 100 bytes have been taken. -/
structure Framed (fifo : List UInt8) : Prop where
  runs : RunsWithin 0 40 fifo
  tail : TailWithin 0 20 fifo
  cut : TailWithin 0 0 fifo ∨ fifo.length % 100 = 24

theorem framed_nil : Framed [] where
  runs := runsWithin_of_length (Nat.zero_le _)
  tail := tailWithin_of_length (Nat.zero_le _)
  cut := .inl (tailWithin_of_length (Nat.le_refl _))

/-- The NUL of a message is its last byte. -/
theorem runsWithin_message (n : Nat) : RunsWithin 0 20 (message.take n) := by
  have htext : text.length = 20 := rfl
  have hmessage : RunsWithin 0 20 (text ++ [0]) :=
    (runsWithin_of_length htext.le).append (tailWithin_of_length htext.le)
      (runsWithin_singleton 0) (Nat.le_refl 20)
  exact hmessage.of_infix (List.take_prefix n message).isInfix

variable {fifo : List UInt8}

/-- Appending what fits of a message. -/
theorem Framed.kfifoIn (h : Framed fifo) :
    Framed (fifo ++ message.take (fifoSize - fifo.length)) := by
  have hruns : RunsWithin 0 40 (fifo ++ message.take (fifoSize - fifo.length)) :=
    h.runs.append h.tail (runsWithin_message _) (by omega)
  by_cases hfit : fifo.length + 21 ≤ fifoSize
  · -- the whole message, which ends with its NUL
    have hmessage : message.take (fifoSize - fifo.length) = text ++ [0] :=
      List.take_of_length_le (by rw [length_message]; omega)
    rw [hmessage, ← List.append_assoc] at hruns ⊢
    have htail := tailWithin_concat (d := (0 : UInt8)) (fifo ++ text)
    exact ⟨hruns, htail.mono (Nat.zero_le _), .inl htail⟩
  · by_cases hfull : fifoSize ≤ fifo.length
    · -- nothing
      rw [Nat.sub_eq_zero_of_le hfull, List.take_zero, List.append_nil]
      exact h
    · -- its start, and the FIFO is full; no message had lost its end before
      have hsize : fifoSize = 1024 := rfl
      have hlen : (message.take (fifoSize - fifo.length)).length = fifoSize - fifo.length := by
        rw [List.length_take, length_message]
        omega
      have hwhole : TailWithin 0 0 fifo := by
        rcases h.cut with hcut | hcut
        · exact hcut
        · omega
      refine ⟨hruns, hwhole.append (by omega), .inr ?_⟩
      rw [List.length_append, hlen]
      omega

/-- Removing a chunk. -/
theorem Framed.kfifoOut (h : Framed fifo) : Framed (fifo.drop 100) := by
  have hsuffix := List.drop_suffix 100 fifo
  refine ⟨h.runs.of_infix hsuffix.isInfix, h.tail.of_suffix hsuffix, ?_⟩
  rcases h.cut with hcut | hcut
  · exact .inl (hcut.of_suffix hsuffix)
  · by_cases hchunk : 100 ≤ fifo.length
    · right
      rw [List.length_drop]
      omega
    · rw [List.drop_of_length_le (by omega)]
      exact framed_nil.cut

/-- A chunk that is not empty has a NUL. -/
theorem Framed.mem_take (h : Framed fifo) (hr : 0 < (fifo.take 100).length) :
    0 ∈ fifo.take 100 := by
  rw [List.length_take] at hr
  by_cases hlong : 40 < fifo.length
  · refine (h.runs.of_infix (List.take_prefix 100 fifo).isInfix).mem ?_
    rw [List.length_take]
    omega
  · rw [List.take_of_length_le (by omega)]
    rcases h.cut with hcut | hcut
    · exact hcut.mem (by omega)
    · exact h.tail.mem (by omega)

variable {bound : Worker → Nat} {s s' : State}

/-- What holds in every state of a run. -/
def AllFramed (bound : Worker → Nat) (s : State) : Prop :=
  (threads bound).AllOk s ∧ Framed s.shared.extra.sharedFifo

theorem allFramed_start (reg : Worker → KReg Buffer) (gpio : Gpio) :
    AllFramed bound (start reg gpio) :=
  ⟨allOk_init _ _ _, framed_nil⟩

theorem allFramed_step (h : AllFramed bound s) {e : Event Worker}
    (hs : (threads bound).next s e = some s') : AllFramed bound s' := by
  obtain ⟨hok, hframed⟩ := h
  have hstep := step_of_next hs
  refine ⟨allOk_step hok hstep, ?_⟩
  rcases fifo_of_step hok hstep with ⟨-, hextra, -⟩ | ⟨i, b, -, hextra, -⟩ |
    ⟨i, b, -, hextra, -⟩
  · rwa [hextra]
  · rw [hextra]
    exact hframed.kfifoIn
  · rw [hextra]
    exact hframed.kfifoOut

/-- A chunk with a NUL, received into any buffer, is printed up to its first one. -/
theorem cString_kfifoOut (h : 0 ∈ fifo.take 100) (buffer : Buffer) :
    cString (kfifoOut fifo buffer).val = cString (fifo.take 100) :=
  takeWhile_append_of_mem h _

/-- What a step of the receiver reports of a FIFO that is not empty. -/
theorem received_of_kfifoOut (h : AllFramed bound s) {e : Event Worker}
    (hs : (threads bound).next s e = some s')
    (he : executed s e = some (.act (.extra .kfifoOut)))
    (hnul : 0 ∈ s.shared.extra.sharedFifo.take 100) :
    s'.shared.extra.received =
      s.shared.extra.received ++ [cString (s.shared.extra.sharedFifo.take 100)] := by
  have hsome : s.shared.extra.sharedFifo ≠ [] := by
    intro hnone
    rw [hnone, List.take_nil] at hnul
    cases hnul
  rcases fifo_of_step h.1 (step_of_next hs) with ⟨hquiet, -, -⟩ | ⟨i, b, hexec, -, -⟩ |
    ⟨i, b, -, hextra, -⟩
  · exact absurd he (hquiet _)
  · rw [he] at hexec
    cases hexec
  · rw [hextra, exec]
    dsimp only
    rw [if_neg hsome, cString_kfifoOut hnul]

/-- **What the receiver prints lies inside the bytes that it has received**, in
every run, however full the FIFO gets: `r` is what `kfifo_out` returns, and
`buffer` holds anything before. The string that a step of the receiver reports is
this one. -/
theorem prints_received (bound : Worker → Nat) (reg : Worker → KReg Buffer) (gpio : Gpio)
    (es : List (Event Worker)) (s : State)
    (hr : run (threads bound).next (start reg gpio) es = some s) (buffer : Buffer) (r : Nat)
    (hret : r = (s.shared.extra.sharedFifo.take 100).length) (hpos : 0 < r) :
    let buffer' := (kfifoOut s.shared.extra.sharedFifo buffer).val
    0 ∈ buffer'.take r ∧ (cString buffer').length < r ∧
      cString buffer' = cString (s.shared.extra.sharedFifo.take 100) ∧
      ∀ e s', (threads bound).next s e = some s' →
        executed s e = some (.act (.extra .kfifoOut)) →
        s'.shared.extra.received = s.shared.extra.received ++ [cString buffer'] := by
  subst hret
  have hall : AllFramed bound s :=
    run_inv (fun h hs => allFramed_step h hs) (allFramed_start reg gpio) hr
  have hnul := hall.2.mem_take hpos
  have hstring := cString_kfifoOut hnul buffer
  refine ⟨?_, ?_, hstring, fun e s' hs he => ?_⟩
  · show 0 ∈ (s.shared.extra.sharedFifo.take 100 ++ buffer.val.drop _).take _
    rwa [List.take_left]
  · rw [hstring]
    exact length_takeWhile_lt hnul
  · rw [hstring]
    exact received_of_kfifoOut hall hs he hnul

/-- A buffer without a NUL. -/
def staleBuffer : Buffer := ⟨List.replicate 100 255, rfl⟩

/-- Two messages are received at once into a buffer without a NUL. -/
theorem prints_received_two :
    ∃ s, run (threads fun _ => 5).next (start zeroStack ⟨fun _ => 0, fun _ => false⟩)
        (List.replicate 26 (.step .thread1)) = some s ∧
      s.shared.extra.sharedFifo = message ++ message ∧
      (cString (kfifoOut s.shared.extra.sharedFifo staleBuffer).val).length < 42 := by
  obtain ⟨s, hs, hp⟩ := exists_run_of_any (threads fun _ => 5).next
    (start zeroStack ⟨fun _ => 0, fun _ => false⟩) (List.replicate 26 (.step .thread1))
    (fun s => decide (s.shared.extra.sharedFifo = message ++ message)) (by decide)
  have hfifo := of_decide_eq_true hp
  obtain ⟨-, hlen, -⟩ := prints_received (fun _ => 5) zeroStack ⟨fun _ => 0, fun _ => false⟩
    (List.replicate 26 (.step .thread1)) s hs staleBuffer 42 (by rw [hfifo]; rfl) (by decide)
  exact ⟨s, hs, hfifo, hlen⟩

end Esystem.MessageQueue
