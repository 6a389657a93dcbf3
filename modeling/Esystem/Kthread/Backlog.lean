import Esystem.Kthread.MessageQueue

/-!
# What messageq.c reports when messages queue up

The receiver removes up to 100 bytes at a time, which is no multiple of the 21
bytes of a message, and reports one string of them. As long as everything that is
sent fits into the FIFO, the bytes that go through it are those of the messages
(`Streaming`), so what is reported depends on how many bytes went before.

- `reports_backlog`: a report is the rest of the message in which the last chunk
  ended. It is whole exactly where no chunk has ended inside of a message, which
  takes five messages in the FIFO at a time, as many as the sender of the module
  sends.
-/

namespace Esystem.MessageQueue

open LoopSys Kthread

/-! ## The byte stream -/

/-- Wherever the stream of messages is cut, a NUL ends the rest of a message. -/
theorem exists_drop_records {r n : Nat} (h : r < 21 * n) :
    ∃ rest, (records (List.replicate n text)).drop r = text.drop (r % 21) ++ 0 :: rest := by
  have hlen : text.length = 20 := rfl
  have hsucc : ∀ n, records (List.replicate (n + 1) text)
      = text ++ 0 :: records (List.replicate n text) := fun n => List.append_assoc _ _ _
  induction n generalizing r with
  | zero => omega
  | succ n ih =>
    rw [hsucc]
    by_cases hr : r < 21
    · refine ⟨records (List.replicate n text), ?_⟩
      rw [Nat.mod_eq_of_lt hr, List.drop_append_of_le_length (by omega)]
    · -- the cut is behind the first message
      obtain ⟨rest, hrest⟩ := ih (r := r - 21) (by omega)
      refine ⟨rest, ?_⟩
      have hmod : (r - 21) % 21 = r % 21 := (Nat.mod_eq_sub_mod (by omega)).symm
      rw [← hmod, ← hrest, List.drop_append, List.drop_of_length_le (by omega), hlen,
        List.nil_append, show r - 20 = r - 21 + 1 by omega, List.drop_succ_cons]

/-- The string in front of a NUL. -/
theorem cString_drop_text (j : Nat) (rest : List UInt8) :
    cString (text.drop j ++ 0 :: rest) = text.drop j := by
  have hall : text.all (· != 0) = true := rfl
  have hpass : ∀ b ∈ text.drop j, (b != 0) = true := fun b hb =>
    List.all_eq_true.mp hall b (List.mem_of_mem_drop hb)
  rw [cString, List.takeWhile_append_of_pos hpass]
  exact List.append_nil _

/-- The rest of a message is the whole of it only from its start. -/
theorem drop_text_eq_iff (r : Nat) : text.drop (r % 21) = text ↔ 21 ∣ r := by
  have hlen : text.length = 20 := rfl
  rw [Nat.dvd_iff_mod_eq_zero]
  constructor
  · intro h
    have hdrop := congrArg List.length h
    rw [List.length_drop] at hdrop
    omega
  · intro h
    rw [h, List.drop_zero]

/-- What goes through the FIFO is the messages that have been sent, `n` of them. -/
structure Streaming (f : Fifo) (n : Nat) : Prop where
  sent : f.sent = List.replicate n text
  bytes : f.removed ++ f.sharedFifo = records f.sent

variable {f : Fifo} {n i : Nat} {buffer : Buffer}

theorem Streaming.length (h : Streaming f n) :
    f.removed.length + f.sharedFifo.length = 21 * n := by
  rw [← List.length_append, h.bytes, length_records, h.sent, List.length_replicate]
  intro m hm
  rw [h.sent] at hm
  exact List.eq_of_mem_replicate hm

/-- Sending a message that fits. -/
theorem Streaming.kfifoIn (h : Streaming f n) (hfree : f.sharedFifo.length + 21 ≤ fifoSize) :
    Streaming (exec i .kfifoIn buffer f).2 (n + 1) where
  sent := by
    show f.sent ++ [text] = _
    rw [h.sent, List.replicate_succ']
  bytes := by
    show f.removed ++ (f.sharedFifo ++ message.take _) = records (f.sent ++ [text])
    rw [records_append, ← h.bytes, List.append_assoc,
      List.take_of_length_le (by rw [length_message]; omega)]
    rfl

theorem Streaming.kfifoOut (h : Streaming f n) : Streaming (exec i .kfifoOut buffer f).2 n where
  sent := h.sent
  bytes := by
    show f.removed ++ f.sharedFifo.take 100 ++ f.sharedFifo.drop 100 = _
    rw [List.append_assoc, List.take_append_drop, h.bytes]
    rfl

/-- **What a receive reports**: the rest of the message in which the bytes
removed before end. -/
theorem Streaming.reports (h : Streaming f n) (hne : f.sharedFifo ≠ []) :
    (exec i .kfifoOut buffer f).2.received
      = f.received ++ [text.drop (f.removed.length % 21)] := by
  have hlt : f.removed.length < 21 * n := by
    have hpos := List.length_pos_iff.mpr hne
    have hlen := h.length
    omega
  obtain ⟨rest, hrest⟩ := exists_drop_records hlt
  have hfifo : f.sharedFifo = text.drop (f.removed.length % 21) ++ 0 :: rest := by
    rw [← hrest, ← h.sent, ← h.bytes, List.drop_left]
  have hshort : (text.drop (f.removed.length % 21)).length ≤ 99 := by
    rw [List.length_drop]
    exact (Nat.sub_le _ _).trans (by decide)
  show (if f.sharedFifo = [] then _ else _) = _
  rw [if_neg hne]
  show f.received ++ [cString (f.sharedFifo.take 100 ++ buffer.val.drop _)] = _
  -- the chunk reaches the NUL
  have htake : f.sharedFifo.take 100 = text.drop (f.removed.length % 21) ++
      0 :: rest.take (99 - (text.drop (f.removed.length % 21)).length) := by
    rw [hfifo, List.take_append, List.take_of_length_le (by omega),
      show 100 - (text.drop (f.removed.length % 21)).length
        = 99 - (text.drop (f.removed.length % 21)).length + 1 by omega, List.take_succ_cons]
  rw [htake, List.append_assoc, List.cons_append, cString_drop_text]

/-! ## Runs -/

/-- Every string reported is the text that was sent. -/
def AllWhole (s : State) : Prop :=
  ∀ str ∈ s.shared.extra.received, str = text

/-- The receiver, when it finds something, is at the start of a message. -/
def StartsWhole (s : State) (e : Event Worker) : Prop :=
  executed s e = some (.act (.extra .kfifoOut)) →
    s.shared.extra.sharedFifo = [] ∨ 21 ∣ s.shared.extra.removed.length

/-- What holds in every run in which all messages fit. -/
structure Flowing (bound : Worker → Nat) (s : State) : Prop extends Sending bound s where
  streaming : Streaming s.shared.extra ((threads bound).total isSend s)

variable {bound : Worker → Nat} {s s' : State}

theorem flowing_init (reg : Worker → KReg Buffer) (gpio : Gpio) :
    Flowing bound (start reg gpio) where
  toSending := sending_init reg gpio
  streaming :=
    { sent := (sending_init reg gpio).sent
      bytes := rfl }

theorem flowing_step (hfit : 21 * bound .thread1 ≤ fifoSize) (h : Flowing bound s)
    {e : Event Worker} (hs : (threads bound).next s e = some s') : Flowing bound s' := by
  have hsending := sending_step h.toSending hs
  refine ⟨hsending, ?_⟩
  rcases fifo_of_step h.ok (step_of_next hs) with ⟨-, hextra, htot⟩ | ⟨i, b, -, hextra, htot⟩ |
    ⟨i, b, -, hextra, htot⟩
  · rw [hextra, htot]
    exact h.streaming
  · have hle := hsending.total_le
    have hstored := h.stored
    rw [hextra, htot]
    exact h.streaming.kfifoIn (by omega)
  · rw [hextra, htot]
    exact h.streaming.kfifoOut

/-- What one step adds to the reports. -/
theorem received_of_step (h : Flowing bound s) {e : Event Worker}
    (hs : (threads bound).next s e = some s') :
    (s'.shared.extra.received = s.shared.extra.received ∧
      (executed s e = some (.act (.extra .kfifoOut)) → s.shared.extra.sharedFifo = [])) ∨
    (executed s e = some (.act (.extra .kfifoOut)) ∧ s.shared.extra.sharedFifo ≠ [] ∧
      s'.shared.extra.received
        = s.shared.extra.received ++ [text.drop (s.shared.extra.removed.length % 21)]) := by
  rcases fifo_of_step h.ok (step_of_next hs) with ⟨hquiet, hextra, -⟩ | ⟨i, b, hexec, hextra, -⟩ |
    ⟨i, b, hexec, hextra, -⟩
  · exact .inl ⟨by rw [hextra], fun hout => absurd hout (hquiet _)⟩
  · refine .inl ⟨by rw [hextra]; rfl, fun hout => ?_⟩
    cases hexec.symm.trans hout
  · by_cases hempty : s.shared.extra.sharedFifo = []
    · refine .inl ⟨?_, fun _ => hempty⟩
      rw [hextra]
      exact if_pos hempty
    · refine .inr ⟨hexec, hempty, ?_⟩
      rw [hextra]
      exact h.streaming.reports hempty

theorem allWhole_step (h : Flowing bound s) (hw : AllWhole s) {e : Event Worker}
    (he : StartsWhole s e) (hs : (threads bound).next s e = some s') : AllWhole s' := by
  intro str hstr
  rcases received_of_step h hs with ⟨hsame, -⟩ | ⟨hexec, hne, hreport⟩
  · rw [hsame] at hstr
    exact hw str hstr
  · rw [hreport] at hstr
    rcases List.mem_append.mp hstr with hstr | hstr
    · exact hw str hstr
    · rw [List.mem_singleton.mp hstr, drop_text_eq_iff]
      exact (he hexec).resolve_left hne

theorem not_allWhole_step (h : Flowing bound s) {e : Event Worker} (he : ¬ StartsWhole s e)
    (hs : (threads bound).next s e = some s') : ¬ AllWhole s' := by
  simp only [StartsWhole, Classical.not_imp, not_or] at he
  obtain ⟨hexec, hne, hcut⟩ := he
  rcases received_of_step h hs with ⟨-, hempty⟩ | ⟨-, -, hreport⟩
  · exact absurd (hempty hexec) hne
  · intro hw
    refine hcut ((drop_text_eq_iff _).mp (hw _ ?_))
    rw [hreport]
    exact List.mem_append_right _ (List.mem_singleton_self _)

/-- Four messages at most are removed all at once, so the receiver stays at the
start of a message. -/
theorem dvd_removed_step (hfew : bound .thread1 ≤ 4) (h : Flowing bound s)
    (hdvd : 21 ∣ s.shared.extra.removed.length) {e : Event Worker}
    (hs : (threads bound).next s e = some s') : 21 ∣ s'.shared.extra.removed.length := by
  have htotal := h.total_le
  have hlen := h.streaming.length
  rcases fifo_of_step h.ok (step_of_next hs) with ⟨-, hextra, -⟩ | ⟨i, b, -, hextra, -⟩ |
    ⟨i, b, -, hextra, -⟩
  · rwa [hextra]
  · rw [hextra]
    exact hdvd
  · -- 84 bytes at most are waiting, and up to 100 are taken
    rw [hextra]
    show 21 ∣ (s.shared.extra.removed ++ s.shared.extra.sharedFifo.take 100).length
    rw [List.take_of_length_le (by omega), List.length_append, hlen]
    exact Nat.dvd_mul_right 21 _

/-- **What messageq.c reports**, in every run in which all messages fit into the
FIFO: no byte is lost or doubled; each report is the rest of a message, from
where the last chunk ended; all reports are whole exactly if every receive starts
at a message, and always if the sender sends four messages or fewer. -/
theorem reports_backlog (bound : Worker → Nat)
    (hfit : bound .thread1 * message.length ≤ fifoSize) (reg : Worker → KReg Buffer) (gpio : Gpio)
    (es : List (Event Worker)) (s : State)
    (hr : run (threads bound).next (start reg gpio) es = some s) :
    s.shared.extra.removed ++ s.shared.extra.sharedFifo = records s.shared.extra.sent ∧
    (∀ e s', (threads bound).next s e = some s' →
      executed s e = some (.act (.extra .kfifoOut)) → s.shared.extra.sharedFifo ≠ [] →
      s'.shared.extra.received
        = s.shared.extra.received ++ [text.drop (s.shared.extra.removed.length % 21)]) ∧
    (Along (threads bound).next AllWhole (start reg gpio) es ↔
      StepsMeet (threads bound).next StartsWhole (start reg gpio) es) ∧
    (bound .thread1 ≤ 4 → AllWhole s) := by
  have hfit' : 21 * bound .thread1 ≤ fifoSize := by
    rw [length_message] at hfit
    omega
  have hflow : Flowing bound s :=
    run_inv (fun h hs => flowing_step hfit' h hs) (flowing_init reg gpio) hr
  have hnone : AllWhole (start reg gpio) := fun str hstr => absurd hstr List.not_mem_nil
  refine ⟨hflow.streaming.bytes, fun e s' hs hexec hne => ?_, ?_, fun hfew => ?_⟩
  · rcases received_of_step hflow hs with ⟨-, hempty⟩ | ⟨-, -, hreport⟩
    · exact absurd (hempty hexec) hne
    · exact hreport
  · exact along_iff_stepsMeet (B := Flowing bound) (fun h hs => flowing_step hfit' h hs)
      (fun hB hw hC hs => allWhole_step hB hw hC hs)
      (fun hB _ hC hs => not_allWhole_step hB hC hs) (flowing_init reg gpio) hnone hr
  · have hinv := run_inv (I := fun s => Flowing bound s ∧
      21 ∣ s.shared.extra.removed.length ∧ AllWhole s)
      (fun h hs => ⟨flowing_step hfit' h.1 hs, dvd_removed_step hfew h.1 h.2.1 hs,
        allWhole_step h.1 h.2.2 (fun _ => .inr h.2.1) hs⟩)
      ⟨flowing_init reg gpio, Nat.dvd_zero 21, hnone⟩ hr
    exact hinv.2.2

/-- All five rounds of the sender, one of the receiver, and the start of its next. -/
def fiveBeforeReceive : List (Event Worker) :=
  List.replicate 65 (.step .thread1) ++ List.replicate 14 (.step .thread2)

/-- The second receive then reports the last four characters of a message. -/
theorem reports_backlog_five :
    ∃ s s', run (threads fun _ => 5).next (start zeroStack ⟨fun _ => 0, fun _ => false⟩)
        fiveBeforeReceive = some s ∧
      (threads fun _ => 5).next s (.step .thread2) = some s' ∧
      s'.shared.extra.received = s.shared.extra.received ++ [text.drop 16] := by
  obtain ⟨s, hs, hp⟩ := exists_run_of_any (threads fun _ => 5).next
    (start zeroStack ⟨fun _ => 0, fun _ => false⟩) fiveBeforeReceive
    (fun s => decide (s.shared.extra.removed.length = 100 ∧ s.shared.extra.sharedFifo ≠ [] ∧
      executed s (.step .thread2) = some (.act (.extra .kfifoOut))) &&
      ((threads fun _ => 5).next s (.step .thread2)).isSome) (by decide +kernel)
  rw [Bool.and_eq_true, decide_eq_true_eq, Option.isSome_iff_exists] at hp
  obtain ⟨⟨hremoved, hne, hexec⟩, s', hs'⟩ := hp
  obtain ⟨-, hreport, -⟩ := reports_backlog (fun _ => 5) (by decide) zeroStack
    ⟨fun _ => 0, fun _ => false⟩ fiveBeforeReceive s hs
  refine ⟨s, s', hs, hs', ?_⟩
  rw [hreport _ s' hs' hexec hne, hremoved]

end Esystem.MessageQueue
