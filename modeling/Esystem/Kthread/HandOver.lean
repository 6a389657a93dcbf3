import Esystem.Core.Cell
import Esystem.Kthread.Programs

/-!
# What goes through the shared word of sharedm.c

The sender stores `1000 + i` in round `i`, the receiver reports what it finds;
the mutex keeps their rounds apart and does not order them. The word is a `Cell`,
so the receiver never looks back; `hands_over` says what it reports in every
interleaving, and that nothing is lost or repeated exactly as long as the two
loops take turns.
-/

namespace Esystem.SharedMemory

open LoopSys

/-- The states of the two threads. -/
abbrev State : Type :=
  LoopState Worker MyMutex (KOp ShmOp) (MyMutex → Option Worker) (KReg Unit) (KShared Shm)

/-- The state in which `shared_memory_init` starts the threads, with `v` in the
shared word. -/
def start (reg : Worker → KReg Unit) (gpio : Gpio) (v : CInt) : State :=
  init reg (fun _ => none) ⟨0, gpio, ⟨some v, [], []⟩⟩

/-- The first `n` values that the sender stores. -/
def stored (n : Nat) : List CInt :=
  (List.range n).map fun i => BitVec.ofNat 32 (1000 + i)

/-- A value is stored. -/
def isSend : Stmt MyMutex (KOp ShmOp) → Bool
  | .act (.extra .send) => true
  | _ => false

/-- The sender stores when everything stored has been reported, and the receiver
reports when one value has not. -/
def TakesTurns (s : State) (e : Event Worker) : Prop :=
  (executed s e = some (.act (.extra .send)) →
    s.shared.extra.sent.length = s.shared.extra.received.length) ∧
  (executed s e = some (.act (.extra .receive)) →
    s.shared.extra.sent.length = s.shared.extra.received.length + 1)

instance (s : State) (e : Event Worker) : Decidable (TakesTurns s e) :=
  inferInstanceAs (Decidable ((_ → _) ∧ (_ → _)))

/-- The shared word implements a variable. -/
structure Implements (m : Shm) (c : Cell CInt) : Prop where
  word : m.virtAddr = some c.content
  sent : m.sent = c.writes
  received : m.received = c.reads

variable {m : Shm} {c : Cell CInt} {i : Nat}

/-- Storing is a write to the variable. -/
theorem Implements.send (h : Implements m c) :
    Implements (exec i .send () m).2 (c.write (BitVec.ofNat 32 (1000 + i))) := by
  simp only [exec, h.word]
  exact ⟨congrArg some (c.content_write _).symm, by rw [h.sent]; rfl,
    by rw [h.received, c.reads_write]⟩

/-- Reporting is a read of the variable. -/
theorem Implements.receive (h : Implements m c) :
    Implements (exec i .receive () m).2 c.read := by
  simp only [exec, h.word]
  exact ⟨congrArg some c.content_read.symm, h.sent, by rw [h.received, c.reads_read]⟩

/-- What holds in every state: the word is a variable that started with `v`, and
the sender has stored the values of its rounds so far. -/
structure Sending (v : CInt) (bound : Worker → Nat) (s : State) : Prop where
  ok : (threads bound).AllOk s
  cell : ∃ c, c.initial = v ∧ Implements s.shared.extra c
  sent : s.shared.extra.sent = stored ((threads bound).total isSend s)

variable {v : CInt} {bound : Worker → Nat} {s s' : State}

theorem sending_start (reg : Worker → KReg Unit) (gpio : Gpio) :
    Sending v bound (start reg gpio v) where
  ok := allOk_init _ _ _
  cell := ⟨Cell.new v, rfl, rfl, rfl, rfl⟩
  sent := by
    rw [start, total_init]
    rfl

/-- The sender has stored a value in each of its rounds so far. -/
theorem Sending.length_sent (h : Sending v bound s) :
    s.shared.extra.sent.length = (threads bound).total isSend s := by
  rw [h.sent, stored, List.length_map, List.length_range]

/-- Only the sender stores, once in each round. -/
theorem countP_isSend (t : Worker) :
    (threadFunction t).countP isSend = if t = .thread1 then 1 else 0 := by
  cases t <;> rfl

/-- In round `i` the sender stores for the `i`th time. -/
theorem total_of_send (hok : (threads bound).AllOk s) {t : Worker} {k : Block MyMutex (KOp ShmOp)}
    (hc : s.ctl t = .body i (.act (.extra .send) :: k)) : (threads bound).total isSend s = i := by
  have hcount := countP_suffix_le (p := isSend) (hok.of_body hc).2
  change _ ≤ (threadFunction t).countP isSend at hcount
  rw [countP_isSend, List.countP_cons_of_pos (by rfl)] at hcount
  have ht : t = .thread1 := by
    by_contra hne
    rw [if_neg hne] at hcount
    omega
  subst ht
  have h1 : (s.ctl .thread1).performed isSend threadFunction1 = i := by
    rw [hc]
    show i * 1 + (1 - (Stmt.act (.extra .send) :: k).countP isSend) = i
    rw [List.countP_cons_of_pos (by rfl)]
    omega
  have h2 : (s.ctl .thread2).performed isSend threadFunction2 = 0 := by
    show (s.ctl .thread2).round * 0 + (0 - _) = 0
    omega
  rw [total, sum_worker]
  exact congrArg₂ (· + ·) h1 h2

theorem extra_of_isSend (x : Stmt MyMutex (KOp ShmOp)) (hx : isSend x = true) :
    ∃ y, x = .act (.extra y) := by
  match x, hx with
  | .act (.extra .send), _ => exact ⟨.send, rfl⟩

/-- What one step does to the word: nothing, a store, or a report. -/
theorem shm_of_step (hok : (threads bound).AllOk s) {e : Event Worker}
    (hs : (threads bound).Step s e s') :
    ((∀ x, executed s e ≠ some (.act (.extra x))) ∧ s'.shared.extra = s.shared.extra ∧
      (threads bound).total isSend s' = (threads bound).total isSend s) ∨
    (executed s e = some (.act (.extra .send)) ∧
      s'.shared.extra = (exec ((threads bound).total isSend s) .send () s.shared.extra).2 ∧
      (threads bound).total isSend s' = (threads bound).total isSend s + 1) ∨
    (executed s e = some (.act (.extra .receive)) ∧
      s'.shared.extra = (exec 0 .receive () s.shared.extra).2 ∧
      (threads bound).total isSend s' = (threads bound).total isSend s) := by
  rcases extra_of_step_total extra_of_isSend hok hs with ⟨hextra, hquiet, htotal⟩ |
    ⟨t, i, x, k, hc, hexec, hextra, htotal⟩
  · exact .inl ⟨hquiet, hextra, htotal⟩
  · cases x with
    | send =>
      refine .inr (.inl ⟨hexec, ?_, htotal⟩)
      rw [total_of_send hok hc]
      exact hextra
    | receive => exact .inr (.inr ⟨hexec, hextra, htotal⟩)

theorem sending_step (h : Sending v bound s) {e : Event Worker}
    (hs : (threads bound).next s e = some s') : Sending v bound s' := by
  have hstep := step_of_next hs
  obtain ⟨c, hv, hc⟩ := h.cell
  rcases shm_of_step h.ok hstep with ⟨-, hextra, htot⟩ | ⟨-, hextra, htot⟩ | ⟨-, hextra, htot⟩
  · refine ⟨allOk_step h.ok hstep, ⟨c, hv, by rwa [hextra]⟩, ?_⟩
    rw [hextra, htot, h.sent]
  · refine ⟨allOk_step h.ok hstep, ⟨c.write _, hv, by rw [hextra]; exact hc.send⟩, ?_⟩
    rw [hextra, hc.send.sent, htot, Cell.write_writes, ← hc.sent, h.sent, stored, stored,
      List.range_succ, List.map_append]
    rfl
  · refine ⟨allOk_step h.ok hstep, ⟨c.read, hv, by rw [hextra]; exact hc.receive⟩, ?_⟩
    rw [hextra, hc.receive.sent, htot, Cell.read_writes, ← hc.sent, h.sent]

/-- A step keeps the hand-over exactly where it takes turns. -/
theorem handedOver_step (hB : Sending v bound s)
    (h : HandedOver s.shared.extra.sent s.shared.extra.received) {e : Event Worker}
    (hs : (threads bound).next s e = some s') :
    HandedOver s'.shared.extra.sent s'.shared.extra.received ↔ TakesTurns s e := by
  obtain ⟨c, -, hc⟩ := hB.cell
  rw [hc.sent, hc.received] at h
  rw [TakesTurns, hc.sent, hc.received]
  rcases shm_of_step hB.ok (step_of_next hs) with ⟨hquiet, hextra, -⟩ | ⟨hexec, hextra, -⟩ |
    ⟨hexec, hextra, -⟩
  · rw [hextra, hc.sent, hc.received]
    exact iff_of_true h ⟨fun hx => absurd hx (hquiet _), fun hx => absurd hx (hquiet _)⟩
  · rw [hextra, hc.send.sent, hc.send.received, Cell.write_writes, Cell.reads_write,
      handedOver_write h]
    simp [hexec]
  · rw [hextra, hc.receive.sent, hc.receive.received, handedOver_read h]
    simp [hexec]

/-- What one step does to the word and to what has been stored and reported. -/
theorem word_of_step (h : Sending v bound s) {e : Event Worker}
    (hs : (threads bound).next s e = some s') :
    (executed s e = some (.act (.extra .receive)) →
      s'.shared.extra.received =
        s.shared.extra.received ++ [s.shared.extra.sent.getLastD v] ∧
      s'.shared.extra.sent = s.shared.extra.sent) ∧
    (executed s e = some (.act (.extra .send)) →
      s'.shared.extra.sent =
        s.shared.extra.sent ++ [BitVec.ofNat 32 (1000 + s.shared.extra.sent.length)] ∧
      s'.shared.extra.received = s.shared.extra.received) ∧
    ((∀ x, executed s e ≠ some (.act (.extra x))) → s'.shared.extra = s.shared.extra) := by
  obtain ⟨c, rfl, hc⟩ := h.cell
  rcases shm_of_step h.ok (step_of_next hs) with ⟨hquiet, hextra, -⟩ | ⟨hexec, hextra, -⟩ |
    ⟨hexec, hextra, -⟩
  · exact ⟨fun hx => absurd hx (hquiet _), fun hx => absurd hx (hquiet _), fun _ => hextra⟩
  · refine ⟨fun hx => ?_, fun _ => ?_, fun hx => absurd hexec (hx _)⟩
    · rw [hexec] at hx
      cases hx
    · rw [hextra, hc.send.sent, hc.send.received, Cell.write_writes, Cell.reads_write,
        h.length_sent, hc.sent, hc.received]
      exact ⟨rfl, rfl⟩
  · refine ⟨fun _ => ?_, fun hx => ?_, fun hx => absurd hexec (hx _)⟩
    · rw [hextra, hc.receive.sent, hc.receive.received, Cell.read_writes, Cell.reads_read,
        Cell.content_eq, hc.sent, hc.received]
      exact ⟨rfl, rfl⟩
    · rw [hexec] at hx
      cases hx

/-- **What goes through the word of sharedm.c**, in every state of every
interleaving. The values stored so far are `1000, 1001, ...`, and the word holds the
last of them, or `v` before the first. A step that executes the receiver's `printk`
appends what the word holds at that moment to what has been reported, one that
executes the sender's store appends the next value to what has been stored, and no
other step changes the word or either list; so the reports never look back. Every
value stored is reported, once and in time, exactly as long as the two loops take
turns. -/
theorem hands_over (bound : Worker → Nat) (reg : Worker → KReg Unit) (gpio : Gpio) (v : CInt)
    (es : List (Event Worker)) (s : State)
    (hr : run (threads bound).next (start reg gpio v) es = some s) :
    s.shared.extra.sent = stored s.shared.extra.sent.length ∧
    s.shared.extra.virtAddr = some (s.shared.extra.sent.getLastD v) ∧
    (∀ e s', (threads bound).next s e = some s' →
      (executed s e = some (.act (.extra .receive)) →
        s'.shared.extra.received =
          s.shared.extra.received ++ [s.shared.extra.sent.getLastD v] ∧
        s'.shared.extra.sent = s.shared.extra.sent) ∧
      (executed s e = some (.act (.extra .send)) →
        s'.shared.extra.sent =
          s.shared.extra.sent ++ [BitVec.ofNat 32 (1000 + s.shared.extra.sent.length)] ∧
        s'.shared.extra.received = s.shared.extra.received) ∧
      ((∀ x, executed s e ≠ some (.act (.extra x))) → s'.shared.extra = s.shared.extra)) ∧
    (∃ c : Cell CInt, c.initial = v ∧ s.shared.extra.virtAddr = some c.content ∧
      s.shared.extra.sent = c.writes ∧ s.shared.extra.received = c.reads) ∧
    (Along (threads bound).next
        (fun s => HandedOver s.shared.extra.sent s.shared.extra.received) (start reg gpio v) es ↔
      StepsMeet (threads bound).next TakesTurns (start reg gpio v) es) := by
  have h : Sending v bound s := run_inv (fun h hs => sending_step h hs) (sending_start reg gpio) hr
  obtain ⟨c, hv, hc⟩ := h.cell
  refine ⟨?_, ?_, fun e s' hs => word_of_step h hs, ⟨c, hv, hc.word, hc.sent, hc.received⟩, ?_⟩
  · rw [h.length_sent, ← h.sent]
  · rw [hc.word, Cell.content_eq, hc.sent, hv]
  · exact along_iff_stepsMeet (B := Sending v bound)
      (fun hB hs => sending_step hB hs)
      (fun hB h hC hs => (handedOver_step hB h hs).mpr hC)
      (fun hB h hC hs => mt (handedOver_step hB h hs).mp hC)
      (sending_start reg gpio) ⟨List.prefix_rfl, Nat.zero_le _⟩ hr

/-- Stacks of the threads that hold zeroes. -/
def zeroStack : Worker → KReg Unit := fun _ => ⟨0, ()⟩

/-- Two rounds of each loop, in turns. -/
def turns : List (Event Worker) :=
  List.replicate 13 (.step .thread1) ++ List.replicate 12 (.step .thread2) ++
    List.replicate 13 (.step .thread1) ++ List.replicate 12 (.step .thread2)

/-- In turns, both values are handed over. -/
theorem hands_over_turns :
    ∃ s, run (threads fun _ => 5).next (start zeroStack ⟨fun _ => 0, fun _ => false⟩ 7) turns
        = some s ∧
      s.shared.extra.received = [1000, 1001] ∧
      Along (threads fun _ => 5).next
        (fun s => HandedOver s.shared.extra.sent s.shared.extra.received)
        (start zeroStack ⟨fun _ => 0, fun _ => false⟩ 7) turns := by
  obtain ⟨s, hs, hp⟩ := exists_run_of_any (threads fun _ => 5).next
    (start zeroStack ⟨fun _ => 0, fun _ => false⟩ 7) turns
    (fun s => decide (s.shared.extra.received = [1000, 1001])) (by decide)
  obtain ⟨-, -, -, -, hiff⟩ :=
    hands_over (fun _ => 5) zeroStack ⟨fun _ => 0, fun _ => false⟩ 7 turns s hs
  exact ⟨s, hs, of_decide_eq_true hp, hiff.mpr (by decide)⟩

/-- The receiver takes the lock first. -/
def receiverFirst : List (Event Worker) := List.replicate 3 (.step .thread2)

/-- The sender takes the lock twice before the receiver does. -/
def senderTwice : List (Event Worker) :=
  List.replicate 26 (.step .thread1) ++ List.replicate 3 (.step .thread2)

/-- The receiver reports what nobody has sent, and the second value without the
first. -/
theorem reports_unsent :
    (∃ s, run (threads fun _ => 5).next (start zeroStack ⟨fun _ => 0, fun _ => false⟩ 7)
        receiverFirst = some s ∧
      s.shared.extra.sent = [] ∧ s.shared.extra.received = [7] ∧
      ¬ HandedOver s.shared.extra.sent s.shared.extra.received) ∧
    ∃ s, run (threads fun _ => 5).next (start zeroStack ⟨fun _ => 0, fun _ => false⟩ 7)
        senderTwice = some s ∧
      s.shared.extra.sent = [1000, 1001] ∧ s.shared.extra.received = [1001] ∧
      ¬ HandedOver s.shared.extra.sent s.shared.extra.received := by
  constructor
  · obtain ⟨s, hs, hp⟩ := exists_run_of_any (threads fun _ => 5).next
      (start zeroStack ⟨fun _ => 0, fun _ => false⟩ 7) receiverFirst
      (fun s => decide (s.shared.extra.sent = [] ∧ s.shared.extra.received = [7])) (by decide)
    obtain ⟨hsent, hreceived⟩ := of_decide_eq_true hp
    refine ⟨s, hs, hsent, hreceived, ?_⟩
    rw [hsent, hreceived]
    decide
  · obtain ⟨s, hs, hp⟩ := exists_run_of_any (threads fun _ => 5).next
      (start zeroStack ⟨fun _ => 0, fun _ => false⟩ 7) senderTwice
      (fun s => decide (s.shared.extra.sent = [1000, 1001] ∧ s.shared.extra.received = [1001]))
      (by decide)
    obtain ⟨hsent, hreceived⟩ := of_decide_eq_true hp
    refine ⟨s, hs, hsent, hreceived, ?_⟩
    rw [hsent, hreceived]
    decide

end Esystem.SharedMemory
