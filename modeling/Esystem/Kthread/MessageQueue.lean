import Esystem.Core.Queue
import Esystem.Kthread.CriticalSection
import Esystem.Kthread.Programs

/-!
# Message delivery in messageq.c

The sender appends 21-byte records to a byte stream; the receiver removes up to
100 bytes at a time and reports the one string at their start. The records
implement a queue of strings (`Delivered`) exactly as long as every receive
finds at most one record (`delivered_iff`).
-/

namespace Esystem.MessageQueue

open LoopSys Kthread

/-- The states of the two threads. -/
abbrev State : Type :=
  LoopState Worker MyMutex (KOp FifoOp) (MyMutex → Option Worker) (KReg Buffer) (KShared Fifo)

/-- The state in which `message_queue_init` starts the threads; what is in their
memory is arbitrary. -/
def start (reg : Worker → KReg Buffer) (gpio : Gpio) : State :=
  init reg (fun _ => none) ⟨0, gpio, ⟨[], [], [], []⟩⟩

/-- The string that is sent. -/
def text : List UInt8 := cString message

/-- Strings as records of the byte stream, each ended by its NUL. -/
def records (strs : List (List UInt8)) : List UInt8 :=
  strs.flatMap (· ++ [0])

/-- The FIFO implements a queue of strings: the strings sent are those reported,
in order, followed by those wholly in the FIFO, and the bytes removed are those
of the strings reported. -/
def Delivered (f : Fifo) : Prop :=
  ∃ q : Queue (List UInt8), q.pushed = f.sent ∧ q.popped = f.received ∧
    f.sharedFifo = records q.queued ∧ f.removed = records q.popped

/-! ## Records -/

theorem length_message : message.length = 21 := rfl

/-- The string at the start of a record. -/
theorem cString_text (rest : List UInt8) : cString (text ++ 0 :: rest) = text := by
  have hall : text.all (· != 0) = true := rfl
  rw [cString, List.takeWhile_append_of_pos (List.all_eq_true.mp hall)]
  simp

theorem records_append (strs strs' : List (List UInt8)) :
    records (strs ++ strs') = records strs ++ records strs' :=
  List.flatMap_append

theorem length_records {strs : List (List UInt8)} (h : ∀ m ∈ strs, m = text) :
    (records strs).length = 21 * strs.length := by
  induction strs with
  | nil => rfl
  | cons m strs ih =>
    have htail := ih fun x hx => h x (List.mem_cons_of_mem m hx)
    have hlen : (m ++ [(0 : UInt8)]).length = 21 := by
      rw [h m List.mem_cons_self]
      rfl
    show ((m ++ [0]) ++ records strs).length = _
    rw [List.length_append, htail, hlen, List.length_cons]
    omega

/-! ## The two statements on the FIFO -/

variable {f : Fifo} {i : Nat} {buffer : Buffer}

/-- Sending keeps delivery as long as the record fits. -/
theorem Delivered.kfifoIn (h : Delivered f) (hfree : f.sharedFifo.length + 21 ≤ fifoSize) :
    Delivered (exec i .kfifoIn buffer f).2 := by
  obtain ⟨q, hpush, hpop, hfifo, hrem⟩ := h
  refine ⟨q.push [text], ?_, hpop, ?_, hrem⟩
  · show q.pushed ++ [text] = f.sent ++ [cString message]
    rw [hpush]
    rfl
  · show f.sharedFifo ++ message.take _ = records (q.queued ++ [text])
    rw [records_append, ← hfifo, List.take_of_length_le (by rw [length_message]; omega)]
    rfl

/-- Receiving keeps delivery when at most one record is in the FIFO. -/
theorem Delivered.kfifoOut (h : Delivered f) (hsent : ∀ m ∈ f.sent, m = text)
    (hone : f.sharedFifo.length ≤ message.length) :
    Delivered (exec i .kfifoOut buffer f).2 := by
  obtain ⟨q, hpush, hpop, hfifo, hrem⟩ := h
  have htext : ∀ m ∈ q.queued, m = text := fun m hm =>
    hsent m (hpush ▸ Queue.mem_pushed_of_queued hm)
  have hlen := length_records htext
  rw [← hfifo] at hlen
  rw [length_message] at hone
  match hq : q.queued with
  | [] =>
    have hempty : f.sharedFifo = [] := by rw [hfifo, hq]; rfl
    refine ⟨q, hpush, ?_, ?_, ?_⟩
    · simp [exec, hempty, hpop]
    · simp [exec, hempty, hq, records]
    · simp [exec, hempty, hrem]
  | [m] =>
    have hm : m = text := htext m (by rw [hq]; exact List.mem_singleton_self m)
    have hfifo1 : f.sharedFifo = text ++ [0] := by
      rw [hfifo, hq, hm]
      rfl
    have hne : f.sharedFifo ≠ [] := by rw [hfifo1]; decide
    have htake : f.sharedFifo.take 100 = text ++ [0] := by rw [hfifo1]; rfl
    refine ⟨q.pop 1, hpush, ?_, ?_, ?_⟩
    · show q.popped ++ q.queued.take 1 = if f.sharedFifo = [] then _ else _
      rw [if_neg hne, hpop, hq, hm]
      show _ = f.received ++ [cString (f.sharedFifo.take 100 ++ _)]
      rw [htake, List.append_assoc]
      exact congrArg (fun str => f.received ++ [str]) (cString_text _).symm
    · show f.sharedFifo.drop 100 = records (q.queued.drop 1)
      rw [hfifo1, hq]
      rfl
    · show f.removed ++ f.sharedFifo.take 100 = records (q.popped ++ q.queued.take 1)
      rw [records_append, hrem, htake, hq, hm]
      rfl
  | m :: m' :: strs =>
    rw [hq] at hlen
    simp only [List.length_cons] at hlen
    omega

/-- Receiving with more than one record in the FIFO removes bytes that belong to
no reported string. -/
theorem not_delivered_kfifoOut (h : Delivered f) (hsent : ∀ m ∈ f.sent, m = text)
    (hmore : message.length < f.sharedFifo.length) :
    ¬ Delivered (exec i .kfifoOut buffer f).2 := by
  obtain ⟨q, hpush, hpop, hfifo, hrem⟩ := h
  rintro ⟨q', -, hpop', -, hrem'⟩
  have htext : ∀ m ∈ q.queued, m = text := fun m hm =>
    hsent m (hpush ▸ Queue.mem_pushed_of_queued hm)
  have hne : f.sharedFifo ≠ [] := by
    intro hnil
    rw [hnil] at hmore
    exact absurd hmore (by decide)
  match hq : q.queued with
  | [] => exact hne (by rw [hfifo, hq]; rfl)
  | m :: strs =>
    have hm : m = text := htext m (by rw [hq]; exact List.mem_cons_self)
    have hfifo1 : f.sharedFifo = text ++ 0 :: records strs := by
      rw [hfifo, hq, hm]
      exact List.append_assoc _ _ _
    -- the string reported is one record, what is removed is longer
    have htake : f.sharedFifo.take 100 = text ++ 0 :: (records strs).take 79 := by
      rw [hfifo1]
      rfl
    have hreported : (exec i .kfifoOut buffer f).2.received = q.popped ++ [text] := by
      show (if f.sharedFifo = [] then _ else _) = _
      rw [if_neg hne, hpop]
      show f.received ++ [cString (f.sharedFifo.take 100 ++ _)] = _
      rw [htake, List.append_assoc]
      exact congrArg (fun str => f.received ++ [str]) (cString_text _)
    have hremoved : f.removed ++ f.sharedFifo.take 100 = records (q.popped ++ [text]) := by
      rw [← hreported, ← hpop']
      exact hrem'
    rw [records_append, hrem] at hremoved
    have hlen := congrArg List.length (List.append_cancel_left hremoved)
    have hmin : min 100 f.sharedFifo.length = 21 := by
      rw [← List.length_take, hlen]
      rfl
    rw [length_message] at hmore
    omega

/-! ## Runs -/

/-- A message is sent. -/
def isSend : Stmt MyMutex (KOp FifoOp) → Bool
  | .act (.extra .kfifoIn) => true
  | _ => false

/-- The receiver, when it calls `kfifo_out`, finds at most one message. -/
def FindsOne (s : State) (e : Event Worker) : Prop :=
  executed s e = some (.act (.extra .kfifoOut)) →
    s.shared.extra.sharedFifo.length ≤ message.length

instance (s : State) (e : Event Worker) : Decidable (FindsOne s e) :=
  inferInstanceAs (Decidable (_ → _))

/-- What holds in every state, whatever was received: `text` has been sent once
for each send, and there is no more in the FIFO than that. -/
structure Sending (bound : Worker → Nat) (s : State) : Prop where
  ok : (threads bound).AllOk s
  sent : s.shared.extra.sent = List.replicate ((threads bound).total isSend s) text
  stored : s.shared.extra.sharedFifo.length ≤ 21 * (threads bound).total isSend s

variable {bound : Worker → Nat} {s s' : State}

theorem Sending.all_text (h : Sending bound s) : ∀ m ∈ s.shared.extra.sent, m = text := by
  intro m hm
  rw [h.sent] at hm
  exact List.eq_of_mem_replicate hm

/-- What has been sent is bounded by the sender's loop. -/
theorem Sending.total_le (h : Sending bound s) :
    (threads bound).total isSend s ≤ bound .thread1 := by
  have h1 : ((s.ctl .thread1).performed isSend threadFunction1) ≤ bound .thread1 * 1 :=
    Ctl.performed_le (h.ok .thread1)
  have h2 : ((s.ctl .thread2).performed isSend threadFunction2) ≤ bound .thread2 * 0 :=
    Ctl.performed_le (h.ok .thread2)
  rw [total, sum_worker]
  show (s.ctl .thread1).performed isSend threadFunction1 +
    (s.ctl .thread2).performed isSend threadFunction2 ≤ _
  omega

theorem sending_init (reg : Worker → KReg Buffer) (gpio : Gpio) :
    Sending bound (start reg gpio) where
  ok := allOk_init _ _ _
  sent := by
    rw [start, total_init]
    rfl
  stored := Nat.zero_le _

theorem extra_of_isSend (x : Stmt MyMutex (KOp FifoOp)) (hx : isSend x = true) :
    ∃ y, x = .act (.extra y) := by
  match x, hx with
  | .act (.extra .kfifoIn), _ => exact ⟨.kfifoIn, rfl⟩

/-- What one step does to the FIFO: nothing, a send, or a receive. -/
theorem fifo_of_step (hok : (threads bound).AllOk s) {e : Event Worker}
    (hs : (threads bound).Step s e s') :
    ((∀ x, executed s e ≠ some (.act (.extra x))) ∧ s'.shared.extra = s.shared.extra ∧
      (threads bound).total isSend s' = (threads bound).total isSend s) ∨
    (∃ i buffer, executed s e = some (.act (.extra .kfifoIn)) ∧
      s'.shared.extra = (exec i .kfifoIn buffer s.shared.extra).2 ∧
      (threads bound).total isSend s' = (threads bound).total isSend s + 1) ∨
    (∃ i buffer, executed s e = some (.act (.extra .kfifoOut)) ∧
      s'.shared.extra = (exec i .kfifoOut buffer s.shared.extra).2 ∧
      (threads bound).total isSend s' = (threads bound).total isSend s) := by
  rcases extra_of_step_total extra_of_isSend hok hs with ⟨hextra, hquiet, htotal⟩ |
    ⟨t, i, x, k, hc, hexec, hextra, htotal⟩
  · exact .inl ⟨hquiet, hextra, htotal⟩
  · cases x with
    | kfifoIn => exact .inr (.inl ⟨i, _, hexec, hextra, htotal⟩)
    | kfifoOut => exact .inr (.inr ⟨i, _, hexec, hextra, htotal⟩)

theorem sending_step (h : Sending bound s) {e : Event Worker}
    (hs : (threads bound).next s e = some s') : Sending bound s' := by
  have hstep := step_of_next hs
  have hstored := h.stored
  refine ⟨allOk_step h.ok hstep, ?_, ?_⟩
  · rcases fifo_of_step h.ok hstep with ⟨-, hextra, htot⟩ | ⟨i, b, -, hextra, htot⟩ |
      ⟨i, b, -, hextra, htot⟩
    · rw [hextra, htot, h.sent]
    · rw [hextra, htot, List.replicate_succ', ← h.sent]
      rfl
    · rw [hextra, htot, ← h.sent]
      rfl
  · rcases fifo_of_step h.ok hstep with ⟨-, hextra, htot⟩ | ⟨i, b, -, hextra, htot⟩ |
      ⟨i, b, -, hextra, htot⟩
    · rwa [hextra, htot]
    · have hlen : (exec i .kfifoIn b s.shared.extra).2.sharedFifo.length
          ≤ s.shared.extra.sharedFifo.length + 21 := by
        show (s.shared.extra.sharedFifo ++ message.take _).length ≤ _
        rw [List.length_append, List.length_take, length_message]
        omega
      rw [hextra, htot]
      omega
    · have hlen : (exec i .kfifoOut b s.shared.extra).2.sharedFifo.length
          ≤ s.shared.extra.sharedFifo.length :=
        (List.drop_sublist 100 s.shared.extra.sharedFifo).length_le
      rw [hextra, htot]
      omega

/-- A step at which the receiver does not find several messages keeps delivery. -/
theorem delivered_step (hfit : 21 * bound .thread1 ≤ fifoSize) (hB : Sending bound s)
    (h : Delivered s.shared.extra) {e : Event Worker} (he : FindsOne s e)
    (hs : (threads bound).next s e = some s') : Delivered s'.shared.extra := by
  have hstep := step_of_next hs
  rcases fifo_of_step hB.ok hstep with ⟨-, hextra, -⟩ | ⟨i, b, -, hextra, htot⟩ |
    ⟨i, b, hexec, hextra, -⟩
  · rwa [hextra]
  · -- the bound on the sends leaves room for this one
    have hle := (sending_step hB hs).total_le
    have hstored := hB.stored
    rw [hextra]
    exact h.kfifoIn (by omega)
  · rw [hextra]
    exact h.kfifoOut hB.all_text (he hexec)

/-- A receive that finds several messages breaks delivery. -/
theorem not_delivered_step (hB : Sending bound s) (h : Delivered s.shared.extra)
    {e : Event Worker} (he : ¬ FindsOne s e) (hs : (threads bound).next s e = some s') :
    ¬ Delivered s'.shared.extra := by
  simp only [FindsOne, Classical.not_imp, Nat.not_le] at he
  obtain ⟨hexec, hmore⟩ := he
  rcases fifo_of_step hB.ok (step_of_next hs) with ⟨hquiet, -, -⟩ | ⟨i, b, hin, -, -⟩ |
    ⟨i, b, -, hextra, -⟩
  · exact absurd hexec (hquiet _)
  · cases hexec.symm.trans hin
  · rw [hextra]
    exact not_delivered_kfifoOut h hB.all_text hmore

/-- **messageq.c delivers its messages exactly when every receive finds at most
one message.** -/
theorem delivered_iff (bound : Worker → Nat) (hfit : bound .thread1 * message.length ≤ fifoSize)
    (reg : Worker → KReg Buffer) (gpio : Gpio) (es : List (Event Worker)) (s : State)
    (hr : run (threads bound).next (start reg gpio) es = some s) :
    Along (threads bound).next (fun s => Delivered s.shared.extra) (start reg gpio) es ↔
      StepsMeet (threads bound).next FindsOne (start reg gpio) es := by
  have hfit' : 21 * bound .thread1 ≤ fifoSize := by
    rw [length_message] at hfit
    omega
  exact along_iff_stepsMeet (B := Sending bound)
    (fun h hs => sending_step h hs)
    (fun hB h hC hs => delivered_step hfit' hB h hC hs)
    (fun hB h hC hs => not_delivered_step hB h hC hs)
    (sending_init reg gpio) ⟨Queue.empty, rfl, rfl, rfl, rfl⟩ hr

/-- A round of the sender, then a round of the receiver. -/
def oneByOne : List (Event Worker) :=
  List.replicate 13 (.step .thread1) ++ List.replicate 12 (.step .thread2)

/-- Stacks that hold zeroes. -/
def zeroStack : Worker → KReg Buffer := fun _ => ⟨0, ⟨List.replicate 100 0, rfl⟩⟩

/-- `oneByOne` delivers its message. -/
theorem delivered_oneByOne :
    Along (threads fun _ => 5).next (fun s => Delivered s.shared.extra)
      (start zeroStack ⟨fun _ => 0, fun _ => false⟩) oneByOne := by
  obtain ⟨s, hs, -⟩ := exists_run_of_any (threads fun _ => 5).next
    (start zeroStack ⟨fun _ => 0, fun _ => false⟩) oneByOne (fun _ => true) (by decide)
  exact (delivered_iff (fun _ => 5) (by decide) zeroStack ⟨fun _ => 0, fun _ => false⟩
    oneByOne s hs).mpr (by decide)

/-- Two rounds of the sender before the receiver receives. -/
def twoBeforeReceive : List (Event Worker) :=
  List.replicate 26 (.step .thread1) ++ List.replicate 3 (.step .thread2)

/-- After `twoBeforeReceive` two messages have been sent and one has been
reported, and the FIFO is empty. -/
theorem loses_second_message :
    ∃ s, run (threads fun _ => 5).next (start zeroStack ⟨fun _ => 0, fun _ => false⟩)
        twoBeforeReceive = some s ∧
      s.shared.extra.sent = [text, text] ∧ s.shared.extra.received = [text] ∧
      s.shared.extra.sharedFifo = [] ∧ ¬ Delivered s.shared.extra := by
  obtain ⟨s, hs, hp⟩ := exists_run_of_any (threads fun _ => 5).next
    (start zeroStack ⟨fun _ => 0, fun _ => false⟩) twoBeforeReceive
    (fun s => decide (s.shared.extra.sent = [text, text] ∧ s.shared.extra.received = [text] ∧
      s.shared.extra.sharedFifo = [])) (by decide)
  obtain ⟨hsent, hreceived, hfifo⟩ := of_decide_eq_true hp
  refine ⟨s, hs, hsent, hreceived, hfifo, ?_⟩
  rintro ⟨q, hpush, hpop, hbytes, -⟩
  have hcons := q.conserved
  rw [hpush, hpop, hsent, hreceived] at hcons
  have hqueued : q.queued = [text] := (List.cons.inj hcons).2.symm
  rw [hqueued, hfifo] at hbytes
  exact absurd hbytes (by decide)

end Esystem.MessageQueue
