import Esystem.Script.GpioScript

/-!
# Several gpio_script processes

Nothing keeps gpio_script from running several times at once. Each process opens,
writes and closes files of the same chip, one system call at a time, and the calls
of the others come in between.

- `Process.Ok`: how far a process is, and what this says of its line. It is kept by the
  system calls of the process, and by everything that leaves the line alone.
- `scripts_share_chip`: processes with different arguments do not notice each other.
  Each line that can be had blinks as if its process were alone.
- `same_line_left_on`: two processes with the same argument do notice each other, and
  can leave the LED on for ever, on a chip that keeps the level of a line that is given
  back.
-/

namespace Esystem.GpioScript

open Decimal Sysfs

/-! ## Processes on one chip -/

/-- Which of its three system calls an `echo` has before it. -/
inductive Stage where
  | opens
  | writes
  | closes
  deriving DecidableEq

/-- A process: its commands, its `fd`, and how many files it has open. -/
structure Process where
  todo : List Command
  stage : Stage
  fd : Option File
  openFiles : Nat

/-- The chip and the processes. -/
structure Scripts (σ ι : Type) where
  chip : σ
  process : ι → Process

variable {σ ι : Type}

/-- The processes begin. -/
def start (chip : σ) : Scripts σ ι where
  chip := chip
  process := fun _ => ⟨body, .opens, none, 0⟩

namespace Scripts

variable [DecidableEq ι]

/-- Process `i` becomes `p`. -/
def put (s : Scripts σ ι) (i : ι) (p : Process) : Scripts σ ι :=
  { s with process := Function.update s.process i p }

/-- Process `i` makes a system call. -/
def next (c : Chip σ) (gpio : ι → CInt) (s : Scripts σ ι) (i : ι) : Option (Scripts σ ι) :=
  let p := s.process i
  match p.todo, p.stage with
  | [], _ => none
  | .sleep :: k, _ => some (s.put i { p with todo := k })
  | .echo e :: _, .opens =>
    let q := openPath c (e.path (gpio i)) ⟨s.chip, p.fd, p.openFiles, []⟩
    some (s.put i { p with stage := .writes, fd := q.fd, openFiles := q.openFiles })
  | .echo e :: _, .writes =>
    let q := write c (literal (e.text (gpio i))) (e.count (gpio i)) ⟨s.chip, p.fd, p.openFiles, []⟩
    some ({ s with chip := q.chip }.put i { p with stage := .closes })
  | .echo _ :: k, .closes =>
    let q := close ⟨s.chip, p.fd, p.openFiles, []⟩
    some (s.put i { p with todo := k, stage := .opens, openFiles := q.openFiles })

end Scripts

/-! ## A process and its line -/

/-- The commands of a process that do not show on the chip yet. -/
def Process.rest (p : Process) : List Command :=
  if p.stage = .closes then p.todo.tail else p.todo

/-- A process that has made the writes of `done`, on a chip that was `chip` when it
began: its line is in the phase that these lead to if it could be had, and as it was if
it could not. -/
structure Process.Ok (c : Chip σ) (gpio : CInt) (chip s : σ) (p : Process)
    (done : List Command) : Prop where
  done_rest : done ++ p.rest = body
  busy : p.stage ≠ .opens → ∃ e k, p.todo = .echo e :: k
  files : p.openFiles = if p.stage = .opens then 0 else p.fd.toList.length
  opened : p.stage = .writes → ∀ e k, p.todo = .echo e :: k → Opened c gpio e p.fd s
  fits : ∀ n : Nat, gpio.toInt = n → (c.line chip n).Usable →
    ∀ phase, run Phase.next .before done = some phase → phase.Fits (c.line chip n) (c.line s n)
  closed : ∀ n : Nat, gpio.toInt = n → (c.line chip n).Closed → c.line s n = c.line chip n

/-- The phases before and after a command of the program. -/
theorem phase_split {done k : List Command} {cmd : Command} (h : done ++ cmd :: k = body) :
    ∃ phase phase', run Phase.next .before done = some phase ∧ phase.next cmd = some phase' ∧
      run Phase.next .before (done ++ [cmd]) = some phase' := by
  have hbody : run Phase.next .before (done ++ cmd :: k) = some .after := by
    rw [h]
    decide
  obtain ⟨phase, hdone, hrest⟩ := run_append_inv hbody
  obtain ⟨phase', hnext, -⟩ := run_cons_inv hrest
  exact ⟨phase, phase', hdone, hnext, run_append_some hdone ((run_cons_some hnext).mpr rfl)⟩

section

variable {c : Chip σ} {gpio : CInt} {chip s s' : σ} {p : Process} {done k : List Command}
  {e : Echo}

/-- Steps that leave the line of a process alone do not matter to it. -/
theorem Process.Ok.frame (h : p.Ok c gpio chip s done)
    (hline : ∀ n : Nat, gpio.toInt = n → c.line s' n = c.line s n) :
    p.Ok c gpio chip s' done where
  done_rest := h.done_rest
  busy := h.busy
  files := h.files
  opened hstage e k htodo := by
    obtain ⟨s₀, hfd, hsame⟩ := h.opened hstage e k htodo
    exact ⟨s₀, hfd, fun n hn => (hsame n hn).trans (hline n hn).symm⟩
  fits n hn husable phase hrun := by
    rw [hline n hn]
    exact h.fits n hn husable phase hrun
  closed n hn hclosed := (hline n hn).trans (h.closed n hn hclosed)

/-- Unless it is about to close a file, a process has before it what it has not done. -/
theorem Process.Ok.done_todo (h : p.Ok c gpio chip s done) (hstage : p.stage ≠ .closes) :
    done ++ p.todo = body :=
  (congrArg (done ++ ·) (if_neg hstage).symm).trans h.done_rest

/-- A process has nothing open while it sleeps. -/
theorem Process.Ok.sleeps (h : p.Ok c gpio chip s done) (htodo : p.todo = .sleep :: k) :
    p.stage = .opens := by
  by_contra hne
  obtain ⟨e, k', hbusy⟩ := h.busy hne
  rw [htodo] at hbusy
  cases hbusy

/-- A process sleeps. -/
theorem Process.Ok.sleep (h : p.Ok c gpio chip s done) (htodo : p.todo = .sleep :: k) :
    { p with todo := k }.Ok c gpio chip s (done ++ [Command.sleep]) := by
  have hstage := h.sleeps htodo
  have hdone := h.done_todo (by rw [hstage]; decide)
  rw [htodo] at hdone
  obtain ⟨phase, phase', hrun, hnext, hend⟩ := phase_split hdone
  obtain ⟨high, rfl, rfl⟩ := Phase.next_sleep hnext
  exact {
    done_rest := by
      rw [Process.rest, hstage, if_neg (by decide), List.append_assoc]
      exact hdone
    busy := fun hne => absurd hstage hne
    files := h.files
    opened := fun hw => by cases hstage.symm.trans hw
    fits := by
      intro n hn husable phase' hrun'
      obtain rfl := Option.some.inj (hend.symm.trans hrun')
      exact h.fits n hn husable _ hrun
    closed := h.closed }

/-- A process opens a file. -/
theorem Process.Ok.opens (h : p.Ok c gpio chip s done) (htodo : p.todo = .echo e :: k)
    (hstage : p.stage = .opens) :
    { p with
      stage := .writes
      fd := c.lookup s (e.path gpio)
      openFiles := p.openFiles + (c.lookup s (e.path gpio)).toList.length }.Ok
        c gpio chip s done := by
  have hfiles := h.files
  rw [if_pos hstage] at hfiles
  exact {
    done_rest := h.done_todo (by rw [hstage]; decide)
    busy := fun _ => ⟨e, k, htodo⟩
    files := by
      rw [hfiles, Nat.zero_add]
      rfl
    opened := by
      intro _ e' k' htodo'
      cases htodo.symm.trans htodo'
      exact opened_lookup e s
    fits := h.fits
    closed := h.closed }

/-- A process writes to the file that it has opened. -/
theorem Process.Ok.writes (hc : c.Documented) (h : p.Ok c gpio chip s done)
    (htodo : p.todo = .echo e :: k) (hstage : p.stage = .writes) :
    { p with stage := .closes }.Ok c gpio chip (written c gpio e p.fd s)
      (done ++ [Command.echo e]) := by
  have hdone := h.done_todo (by rw [hstage]; decide)
  rw [htodo] at hdone
  have hfiles := h.files
  rw [hstage, if_neg (by decide)] at hfiles
  have hopened := h.opened hstage e k htodo
  obtain ⟨phase, phase', hrun, hnext, hend⟩ := phase_split hdone
  exact {
    done_rest := by
      rw [Process.rest, if_pos rfl, htodo, List.append_assoc]
      exact hdone
    busy := fun _ => ⟨e, k, htodo⟩
    files := hfiles
    opened := nofun
    fits := by
      intro n hn husable phase'' hrun'
      obtain rfl := Option.some.inj (hend.symm.trans hrun')
      exact written_fits hc hn husable hopened hnext (h.fits n hn husable phase hrun)
    closed := by
      intro n hn hclosed
      refine (written_closed hc hopened (fun m hm => ?_) n).trans (h.closed n hn hclosed)
      obtain rfl : m = n := by omega
      rw [h.closed m hm hclosed]
      exact hclosed }

/-- A process closes its file. -/
theorem Process.Ok.closes (h : p.Ok c gpio chip s done) (htodo : p.todo = .echo e :: k)
    (hstage : p.stage = .closes) :
    { p with
      todo := k
      stage := .opens
      openFiles := p.openFiles - p.fd.toList.length }.Ok c gpio chip s done := by
  have hdone := h.done_rest
  rw [Process.rest, if_pos hstage, htodo] at hdone
  have hfiles := h.files
  rw [hstage, if_neg (by decide)] at hfiles
  exact {
    done_rest := hdone
    busy := fun hne => absurd rfl hne
    files := by
      rw [hfiles, Nat.sub_self]
      rfl
    opened := nofun
    fits := h.fits
    closed := h.closed }

/-- A process that has ended has made all its writes and closed its files. -/
theorem Process.Ok.ended (h : p.Ok c gpio chip s done) (htodo : p.todo = []) :
    done = body ∧ p.openFiles = 0 := by
  have hstage : p.stage = .opens := by
    by_contra hne
    obtain ⟨e, k, hbusy⟩ := h.busy hne
    rw [htodo] at hbusy
    cases hbusy
  have hdone := h.done_todo (by rw [hstage]; decide)
  rw [htodo, List.append_nil] at hdone
  exact ⟨hdone, h.files.trans (if_pos hstage)⟩

end

/-- What is shown during a sleep: low if the LED is not about to be switched off. -/
theorem phase_asleep {done k : List Command} (h : done ++ .sleep :: k = body) :
    run Phase.next .before done
      = some (.shows (decide (k.head? = some (.echo .off)))) := by
  have hall : ∀ m < 23, body[m]? = some .sleep → run Phase.next .before (body.take m)
      = some (.shows (decide (body[m + 1]? = some (.echo .off)))) := by decide
  have hlength : done.length < 23 := by
    have hsum := congrArg List.length h
    rw [List.length_append, List.length_cons] at hsum
    have hbody : body.length = 23 := rfl
    omega
  have hdrop : ∀ n, body[done.length + n]? = (Command.sleep :: k)[n]? := fun n => by
    rw [← h, List.getElem?_append_right (by omega), Nat.add_sub_cancel_left]
  have hrun := hall done.length hlength (hdrop 0)
  have htake : body.take done.length = done := by rw [← h, List.take_left]
  rw [htake, hdrop 1] at hrun
  rw [hrun, List.getElem?_cons_succ, List.head?_eq_getElem?]

/-! ## Processes with lines of their own -/

variable [DecidableEq ι]

/-- Every process knows its line, and the lines of nobody are as they were. -/
structure Scripts.Inv (c : Chip σ) (gpio : ι → CInt) (chip : σ) (s : Scripts σ ι) : Prop where
  ok : ∀ i, ∃ done, (s.process i).Ok c (gpio i) chip s.chip done
  others : ∀ n : Nat, (∀ i, (gpio i).toInt ≠ n) → c.line s.chip n = c.line chip n

namespace Scripts

variable {c : Chip σ} {gpio : ι → CInt} {chip : σ} {s s' : Scripts σ ι} {i : ι}

@[simp] theorem put_process_self (s : Scripts σ ι) (i : ι) (p : Process) :
    (s.put i p).process i = p :=
  Function.update_self ..

theorem put_process_other (s : Scripts σ ι) {i j : ι} (h : j ≠ i) (p : Process) :
    (s.put i p).process j = s.process j :=
  Function.update_of_ne h ..

omit [DecidableEq ι] in
theorem inv_start (gpio : ι → CInt) (chip : σ) : Inv c gpio chip (start chip) where
  ok := fun _ => ⟨[], {
    done_rest := rfl
    busy := fun h => absurd rfl h
    files := rfl
    opened := nofun
    fits := by
      rintro n - - phase hrun
      cases hrun
      rfl
    closed := fun _ _ _ => rfl }⟩
  others := fun _ _ => rfl

/-- A step of process `i` that touches no line but its own. -/
theorem Inv.becomes (h : Inv c gpio chip s) (hgpio : Function.Injective gpio) {chip' : σ}
    (hlines : ∀ m : Nat, (gpio i).toInt ≠ m → c.line chip' m = c.line s.chip m) {p : Process}
    {done : List Command} (hp : p.Ok c (gpio i) chip chip' done) :
    Inv c gpio chip ({ s with chip := chip' }.put i p) where
  ok := by
    intro j
    by_cases hji : j = i
    · subst hji
      rw [put_process_self]
      exact ⟨done, hp⟩
    · rw [put_process_other _ hji]
      obtain ⟨done', hok⟩ := h.ok j
      -- the line of another process
      refine ⟨done', hok.frame fun n hn => hlines n fun hi => hji (hgpio ?_)⟩
      exact BitVec.eq_of_toInt_eq (hn.trans hi.symm)
  others n hn := (hlines n (hn i)).trans (h.others n hn)

/-- **Every step keeps what the processes know of their lines.** -/
theorem Inv.step (hc : c.Documented) (h : Inv c gpio chip s) (hgpio : Function.Injective gpio)
    (hstep : next c gpio s i = some s') : Inv c gpio chip s' := by
  obtain ⟨done, hok⟩ := h.ok i
  cases htodo : (s.process i).todo with
  | nil =>
    rw [next, htodo] at hstep
    cases hstep
  | cons cmd k =>
    cases cmd with
    | sleep =>
      rw [next, htodo] at hstep
      cases hstep
      exact h.becomes hgpio (fun _ _ => rfl) (hok.sleep htodo)
    | echo e =>
      cases hstage : (s.process i).stage with
      | opens =>
        rw [next, htodo, hstage] at hstep
        cases hstep
        exact h.becomes hgpio (fun _ _ => rfl) (htodo ▸ hok.opens htodo hstage)
      | writes =>
        rw [next, htodo, hstage] at hstep
        dsimp only at hstep
        rw [write_eq] at hstep
        cases hstep
        have hopened := hok.opened hstage e k htodo
        exact h.becomes hgpio (fun m hm => written_others hc hopened hm)
          (htodo ▸ hok.writes hc htodo hstage)
      | closes =>
        rw [next, htodo, hstage] at hstep
        cases hstep
        exact h.becomes hgpio (fun _ _ => rfl) (hok.closes htodo hstage)

end Scripts

/-- **Processes with different arguments do not notice each other**, on a chip that
behaves as documented and however their system calls are interleaved. A line that none
of them can have stays as it was. While a process sleeps its line, if it could be had, is
an output that this process alone switches, on for a second and off for a second. When
all have ended they have closed their files, and these lines are free. -/
theorem scripts_share_chip (c : Chip σ) (hc : c.Documented) (gpio : ι → CInt)
    (hgpio : Function.Injective gpio) (chip : σ) {es : List ι} {s : Scripts σ ι}
    (hr : run (Scripts.next c gpio) (start chip) es = some s) :
    (∀ n : Nat, (∀ i, (gpio i).toInt = n → (c.line chip n).Closed) →
      c.line s.chip n = c.line chip n) ∧
    (∀ i (n : Nat) k, (gpio i).toInt = n → (c.line chip n).Usable →
      (s.process i).todo = .sleep :: k →
        c.line s.chip n = ⟨.sysfs, true, decide (k.head? = some (.echo .off))⟩) ∧
    ((∀ i, (s.process i).todo = []) →
      (∀ i, (s.process i).openFiles = 0) ∧
      ∀ i (n : Nat), (gpio i).toInt = n → (c.line chip n).Usable →
        (c.line s.chip n).owner = .free) := by
  have h : Scripts.Inv c gpio chip s :=
    run_inv (fun h hstep => h.step hc hgpio hstep) (Scripts.inv_start gpio chip) hr
  refine ⟨fun n hn => ?_, fun i n k hi husable htodo => ?_, fun hended => ⟨fun i => ?_, ?_⟩⟩
  · by_cases hown : ∃ i, (gpio i).toInt = n
    · obtain ⟨i, hi⟩ := hown
      obtain ⟨done, hok⟩ := h.ok i
      exact hok.closed n hi (hn i hi)
    · rw [not_exists] at hown
      exact h.others n hown
  · obtain ⟨done, hok⟩ := h.ok i
    have hdone := hok.done_todo (by rw [hok.sleeps htodo]; decide)
    rw [htodo] at hdone
    exact hok.fits n hi husable _ (phase_asleep hdone)
  · obtain ⟨done, hok⟩ := h.ok i
    exact (hok.ended (hended i)).2
  · intro i n hi husable
    obtain ⟨done, hok⟩ := h.ok i
    obtain rfl := (hok.ended (hended i)).1
    exact hok.fits n hi husable .after (by decide)

/-- Lines 18 and 23, with their processes taking turns: both LEDs are on when the
processes go to sleep for the first time, and both lines are free in the end. -/
theorem scripts_share_chip_18_23 :
    (∃ s, run (Scripts.next plain fun b => if b then 18 else 23) (start freshChip)
        ((List.replicate 9 [true, false]).flatten) = some s ∧
      s.chip 18 = ⟨.sysfs, true, true⟩ ∧ s.chip 23 = ⟨.sysfs, true, true⟩) ∧
    ∃ s, run (Scripts.next plain fun b => if b then 18 else 23) (start freshChip)
        ((List.replicate 49 [true, false]).flatten) = some s ∧
      (∀ b, (s.process b).openFiles = 0) ∧
      (s.chip 18).owner = .free ∧ (s.chip 23).owner = .free ∧ s.chip 24 = freshChip 24 := by
  have hgpio : Function.Injective fun b : Bool => if b then (18 : CInt) else 23 := by decide
  constructor
  · obtain ⟨s, hs, hasleep⟩ := exists_run_of_any
      (Scripts.next plain fun b => if b then 18 else 23) (start freshChip)
      ((List.replicate 9 [true, false]).flatten)
      (fun s => decide (∀ b, (s.process b).todo = .sleep :: body.drop 4)) (by decide +kernel)
    have hasleep := of_decide_eq_true hasleep
    obtain ⟨-, hshows, -⟩ := scripts_share_chip plain plain_documented _ hgpio freshChip hs
    exact ⟨s, hs, hshows true 18 _ rfl (.inl rfl) (hasleep true),
      hshows false 23 _ rfl (.inl rfl) (hasleep false)⟩
  · obtain ⟨s, hs, hended⟩ := exists_run_of_any
      (Scripts.next plain fun b => if b then 18 else 23) (start freshChip)
      ((List.replicate 49 [true, false]).flatten)
      (fun s => decide (∀ b, (s.process b).todo = [])) (by decide +kernel)
    obtain ⟨hothers, -, hend⟩ := scripts_share_chip plain plain_documented _ hgpio freshChip hs
    obtain ⟨hfiles, hfree⟩ := hend (of_decide_eq_true hended)
    refine ⟨s, hs, hfiles, hfree true 18 rfl (.inl rfl), hfree false 23 rfl (.inl rfl),
      hothers 24 fun b hb => ?_⟩
    cases b with
    | true => exact absurd hb (by decide)
    | false => exact absurd hb (by decide)

/-- **Processes with the same argument do notice each other.** The last thing that the
first one does is to unexport the line, between the moments when the second one has
switched the LED on and when it wants to switch it off: what the second one writes from
there on fails, and the LED stays on. -/
theorem same_line_left_on :
    ∃ s, run (Scripts.next plain fun _ => 18) (start freshChip)
        (List.replicate 46 true ++ List.replicate 9 false ++ List.replicate 3 true ++
          List.replicate 40 false) = some s ∧
      (∀ b, (s.process b).todo = []) ∧ s.chip 18 = ⟨.free, true, true⟩ := by
  obtain ⟨s, hs, hend⟩ := exists_run_of_any (Scripts.next plain fun _ => 18) (start freshChip)
    (List.replicate 46 true ++ List.replicate 9 false ++ List.replicate 3 true ++
      List.replicate 40 false)
    (fun s => decide ((∀ b, (s.process b).todo = []) ∧ s.chip 18 = ⟨.free, true, true⟩))
    (by decide +kernel)
  exact ⟨s, hs, of_decide_eq_true hend⟩

end Esystem.GpioScript
