import Esystem.Core.Machine
import Esystem.Script.PlainChip

/-!
# gpio_script.c

`ledControl` blinks an LED by writing to the files of its line. It checks no
result: where a file cannot be opened it writes to a bad file descriptor. As it stands
the file ends in a stray word `argv` behind `main` and does not compile; this is the
program without it.

- `ledControl_shell`: it does what the shell commands in the head of the file do, with
  the two that switch the LED made five times, although it writes a NUL where `echo`
  writes a newline.
- `Phase`: what is known of the line between two writes.
- `ledControl_effect`: a line that is free, or exported already, blinks and is
  free afterwards, so the program takes back an export that another one made. Other
  lines are left alone, and so is the line itself if it has no directory and cannot be
  exported. No file stays open.
- `gpioScript_blinks`: the number given as an argument is the line that blinks.
-/

namespace Esystem.GpioScript

open Decimal Sysfs

/-- `BUFSIZ`, the size of `buf`. -/
def bufsiz : Nat := 8192

/-- The program with the chip: the file behind `fd`, how many files are open, and
the levels of all lines during each second slept. -/
structure Proc (σ : Type) where
  chip : σ
  fd : Option File
  openFiles : Nat
  seconds : List (Nat → Bool)

variable {σ : Type} (c : Chip σ)

/-- The levels of all lines. -/
def levels (s : σ) (n : Nat) : Bool := (c.line s n).level

/-- `fd = open(path, O_WRONLY);`. -/
def openPath (path : List Char) (p : Proc σ) : Proc σ :=
  let fd := c.lookup p.chip path
  { p with fd := fd, openFiles := p.openFiles + fd.toList.length }

/-- `write(fd, bytes, count);`. -/
def write (bytes : List Char) (count : Nat) (p : Proc σ) : Proc σ :=
  match p.fd with
  | some f => { p with chip := c.store f (bytes.take count) p.chip }
  | none => p

/-- `close(fd);`. -/
def close (p : Proc σ) : Proc σ :=
  { p with openFiles := p.openFiles - p.fd.toList.length }

/-- `sleep(1);`. -/
def sleep (p : Proc σ) : Proc σ :=
  { p with seconds := p.seconds ++ [levels c p.chip] }

/-- A string literal in memory, with its NUL. -/
def literal (s : List Char) : List Char := s ++ [Char.ofNat 0]

/-- One round of the loop in `ledControl`. -/
def blink (gpio : CInt) (p : Proc σ) : Proc σ :=
  let buf := linePath gpio.toInt valueName
  let p := close (write c (literal ['1']) 2 (openPath c buf p))
  let p := sleep c p
  let p := close (write c (literal ['0']) 2 (openPath c buf p))
  sleep c p

/-- `ledControl`. -/
def ledControl (gpio : CInt) (p : Proc σ) : Proc σ :=
  let p := openPath c exportPath p
  let buf := print gpio.toInt
  let p := close (write c (literal buf) buf.length p)
  let p := openPath c (linePath gpio.toInt directionName) p
  let p := close (write c (literal "out".toList) 4 p)
  let p := (blink c gpio)^[5] p
  let p := openPath c unexportPath p
  close (write c (literal buf) buf.length p)

/-- `main`: what it returns, and what it does. -/
def main (argv : List (List Char)) (p : Proc σ) : Int × Proc σ :=
  match argv with
  | _ :: arg :: _ => (0, ledControl c (atoi arg) p)
  | _ => (-1, p)

/-! ## The program as a list of commands -/

/-- What `ledControl` writes. -/
inductive Echo where
  | exportLine
  | out
  | on
  | off
  | unexportLine
  deriving DecidableEq

/-- A write, which is an `open`, a `write` and a `close`, or `sleep(1)`. -/
inductive Command where
  | echo (e : Echo)
  | sleep
  deriving DecidableEq

/-- The path that is opened. -/
def Echo.path (gpio : CInt) : Echo → List Char
  | .exportLine => exportPath
  | .out => linePath gpio.toInt directionName
  | .on => linePath gpio.toInt valueName
  | .off => linePath gpio.toInt valueName
  | .unexportLine => unexportPath

/-- The string that is written. -/
def Echo.text (gpio : CInt) : Echo → List Char
  | .exportLine => print gpio.toInt
  | .out => "out".toList
  | .on => ['1']
  | .off => ['0']
  | .unexportLine => print gpio.toInt

/-- The number of bytes passed to `write`. -/
def Echo.count (gpio : CInt) : Echo → Nat
  | .exportLine => (print gpio.toInt).length
  | .out => 4
  | .on => 2
  | .off => 2
  | .unexportLine => (print gpio.toInt).length

/-- `ledControl`, command by command. -/
def body : List Command :=
  [.echo .exportLine, .echo .out] ++
  (List.replicate 5 [.echo .on, .sleep, .echo .off, .sleep]).flatten ++ [.echo .unexportLine]

/-- A command of a process that runs alone. -/
def Command.exec (gpio : CInt) (p : Proc σ) : Command → Proc σ
  | .echo e =>
    close (write c (literal (e.text gpio)) (e.count gpio) (openPath c (e.path gpio) p))
  | .sleep => GpioScript.sleep c p

/-- The commands of `body` are those of `ledControl`. -/
theorem ledControl_eq_foldl (gpio : CInt) (p : Proc σ) :
    ledControl c gpio p = body.foldl (fun p cmd => cmd.exec c gpio p) p := rfl

/-! ## What is written -/

/-- The text that the kernel gets of a literal. -/
theorem textOf_literal {s : List Char} (hs : Char.ofNat 0 ∉ s) {n : Nat} (hn : s.length ≤ n) :
    textOf ((literal s).take n) = s := by
  have hpass : ∀ c ∈ s, (c != Char.ofNat 0) = true := by
    intro c hc
    rw [bne_iff_ne]
    rintro rfl
    exact hs hc
  rw [textOf, literal, List.take_append, List.take_of_length_le hn,
    List.takeWhile_append_of_pos hpass]
  cases n - s.length with
  | zero => exact List.append_nil s
  | succ k => exact List.append_nil s

theorem nul_not_mem_print (n : Int) : Char.ofNat 0 ∉ print n := by
  intro h
  rcases mem_print h with h | h
  · exact absurd h (by decide)
  · exact absurd h (by decide)

theorem Echo.nul_not_mem_text (gpio : CInt) (e : Echo) : Char.ofNat 0 ∉ e.text gpio := by
  cases e with
  | exportLine => exact nul_not_mem_print _
  | out => exact (by decide : Char.ofNat 0 ∉ "out".toList)
  | on => exact (by decide : Char.ofNat 0 ∉ ['1'])
  | off => exact (by decide : Char.ofNat 0 ∉ ['0'])
  | unexportLine => exact nul_not_mem_print _

theorem Echo.length_text_le (gpio : CInt) (e : Echo) : (e.text gpio).length ≤ e.count gpio := by
  cases e with
  | exportLine => exact le_rfl
  | out => exact (by decide : "out".toList.length ≤ 4)
  | on => exact (by decide : ['1'].length ≤ 2)
  | off => exact (by decide : ['0'].length ≤ 2)
  | unexportLine => exact le_rfl

theorem Echo.chomp_text (gpio : CInt) (e : Echo) : chomp (e.text gpio) = e.text gpio := by
  cases e with
  | exportLine => exact chomp_print _
  | out => exact (by decide : chomp "out".toList = "out".toList)
  | on => exact (by decide : chomp ['1'] = ['1'])
  | off => exact (by decide : chomp ['0'] = ['0'])
  | unexportLine => exact chomp_print _

/-- The bytes that a command writes. -/
def Echo.bytes (gpio : CInt) (e : Echo) : List Char :=
  (literal (e.text gpio)).take (e.count gpio)

theorem Echo.textOf_bytes (gpio : CInt) (e : Echo) : textOf (e.bytes gpio) = e.text gpio :=
  textOf_literal (e.nul_not_mem_text gpio) (e.length_text_le gpio)

/-- The chip after a command has written to the file `fd`, if it got one. -/
def written (gpio : CInt) (e : Echo) (fd : Option File) (s : σ) : σ :=
  match fd with
  | some f => c.store f (e.bytes gpio) s
  | none => s

variable {c} {gpio : CInt}

theorem write_eq (e : Echo) (p : Proc σ) :
    write c (literal (e.text gpio)) (e.count gpio) p
      = { p with chip := written c gpio e p.fd p.chip } := by
  unfold write written
  split <;> rfl

/-- A command of a process that runs alone opens its file and writes to it. -/
theorem exec_echo (e : Echo) (p : Proc σ) :
    (Command.echo e).exec c gpio p =
      { p with
        chip := written c gpio e (c.lookup p.chip (e.path gpio)) p.chip
        fd := c.lookup p.chip (e.path gpio) } := by
  rw [Command.exec, write_eq, close, openPath]
  dsimp only
  rw [Nat.add_sub_cancel]

/-! ## The same as shell commands -/

/-- `echo text > path`. -/
def shellEcho (c : Chip σ) (cmd : List Char × List Char) (s : σ) : σ :=
  match c.lookup s cmd.1 with
  | some f => c.store f (cmd.2 ++ [Char.ofNat 10]) s
  | none => s

/-- The commands in the head of gpio_script.c, for any line; the two that switch the LED
on and off are made five times, as often as the program goes round its loop. -/
def script (gpio : CInt) : List (List Char × List Char) :=
  [(exportPath, print gpio.toInt), (linePath gpio.toInt directionName, "out".toList)] ++
  (List.replicate 5 [(linePath gpio.toInt valueName, ['1']),
    (linePath gpio.toInt valueName, ['0'])]).flatten ++
  [(unexportPath, print gpio.toInt)]

/-- The shell command for a command. -/
def Command.shell (gpio : CInt) : Command → Option (List Char × List Char)
  | .echo e => some (e.path gpio, e.text gpio)
  | .sleep => none

theorem script_eq (gpio : CInt) : script gpio = body.filterMap (Command.shell gpio) := rfl

/-- A newline behind the text does the same as a NUL. -/
theorem shellEcho_eq (hc : c.Documented) (e : Echo) (s : σ) :
    shellEcho c (e.path gpio, e.text gpio) s
      = written c gpio e (c.lookup s (e.path gpio)) s := by
  unfold shellEcho written
  cases c.lookup s (e.path gpio) with
  | none => rfl
  | some f =>
    dsimp only
    rw [hc.newline f _ s (e.chomp_text gpio), hc.cString f (e.bytes gpio), e.textOf_bytes]

/-- **`ledControl` does what the shell commands do**: the NUL that it writes
behind a text in place of `echo`'s newline makes no difference. -/
theorem ledControl_shell (hc : c.Documented) (gpio : CInt) (p : Proc σ) :
    (ledControl c gpio p).chip
      = (script gpio).foldl (fun s cmd => shellEcho c cmd s) p.chip := by
  rw [ledControl_eq_foldl, script_eq]
  generalize body = cmds
  induction cmds generalizing p with
  | nil => rfl
  | cons cmd cmds ih =>
    rw [List.foldl_cons, ih]
    cases cmd with
    | sleep => rfl
    | echo e =>
      rw [exec_echo, ← shellEcho_eq hc]
      rfl

/-! ## One write -/

/-- `fd` is what opening the file of `e` gave when the line was as it is now. -/
def Opened (c : Chip σ) (gpio : CInt) (e : Echo) (fd : Option File) (s : σ) : Prop :=
  ∃ s₀, fd = c.lookup s₀ (e.path gpio) ∧ ∀ n : Nat, gpio.toInt = n → c.line s₀ n = c.line s n

theorem opened_lookup (e : Echo) (s : σ) :
    Opened c gpio e (c.lookup s (e.path gpio)) s :=
  ⟨s, rfl, fun _ _ => rfl⟩

/-- The line that a number stands for. -/
theorem lineNumber_text {n : Nat} (h : lineNumber (print gpio.toInt) = some n) :
    gpio.toInt = n := by
  rw [lineNumber_print] at h
  split at h
  · have hn := Option.some.inj h
    omega
  · cases h

theorem lineNumber_text_of_eq {n : Nat} (h : gpio.toInt = n) :
    lineNumber (print gpio.toInt) = some n := by
  rw [lineNumber_print, h, if_pos (Int.natCast_nonneg n), Int.toNat_natCast]

/-- A write is about the line with the number of the program. -/
theorem Opened.target (hc : c.Documented) {e : Echo} {f : File} {s : σ} {m : Nat}
    (ho : Opened c gpio e (some f) s) (ht : f.target (textOf (e.bytes gpio)) = some m) :
    gpio.toInt = m := by
  obtain ⟨s₀, hf, -⟩ := ho
  rw [e.textOf_bytes] at ht
  -- the files of a line bear its number
  have hline : ∀ name, name = directionName ∨ name = valueName →
      c.lookup s₀ (linePath gpio.toInt name) = some f → gpio.toInt = m := by
    intro name hname hlookup
    obtain ⟨n, hn, rfl | rfl⟩ := hc.ofLine s₀ _ name f hname hlookup
    · rw [hn, Option.some.inj ht]
    · rw [hn, Option.some.inj ht]
  cases e with
  | exportLine =>
    obtain rfl : f = .exportFile := Option.some.inj (hf.trans (hc.exportFile s₀))
    exact lineNumber_text ht
  | out => exact hline _ (.inl rfl) hf.symm
  | on => exact hline _ (.inr rfl) hf.symm
  | off => exact hline _ (.inr rfl) hf.symm
  | unexportLine =>
    obtain rfl : f = .unexportFile := Option.some.inj (hf.trans (hc.unexportFile s₀))
    exact lineNumber_text ht

/-- The program leaves every other line alone. -/
theorem written_others (hc : c.Documented) {e : Echo} {fd : Option File} {s : σ} {m : Nat}
    (ho : Opened c gpio e fd s) (hm : gpio.toInt ≠ m) :
    c.line (written c gpio e fd s) m = c.line s m := by
  cases fd with
  | none => rfl
  | some f => exact hc.others f _ s m fun ht => hm (ho.target hc ht)

/-- A line that cannot be had has no files. -/
theorem lookup_of_closed (hc : c.Documented) {s : σ}
    (hclosed : ∀ n : Nat, gpio.toInt = n → (c.line s n).Closed) (name : List Char) :
    c.lookup s (linePath gpio.toInt name) = none := by
  refine hc.noDirectory s _ name fun n hn => ?_
  rcases hclosed n hn with h | h
  · rw [h]
    rfl
  · rw [h]
    rfl

/-- Where the line cannot be had the program does nothing. -/
theorem written_closed (hc : c.Documented) {e : Echo} {fd : Option File} {s : σ}
    (ho : Opened c gpio e fd s) (hclosed : ∀ n : Nat, gpio.toInt = n → (c.line s n).Closed)
    (m : Nat) : c.line (written c gpio e fd s) m = c.line s m := by
  by_cases hm : gpio.toInt = m
  · obtain ⟨s₀, rfl, hsame⟩ := ho
    have hbytes : lineNumber (textOf (e.bytes gpio)) = lineNumber (e.text gpio) :=
      congrArg lineNumber (e.textOf_bytes gpio)
    have hfiles := lookup_of_closed hc (s := s₀) fun n hn => by
      rw [hsame n hn]
      exact hclosed n hn
    have howner : (c.line s m).owner ≠ .free ∧ (c.line s m).owner ≠ .sysfs := by
      rcases hclosed m hm with h | h
      · rw [h]
        exact ⟨nofun, nofun⟩
      · rw [h]
        exact ⟨nofun, nofun⟩
    cases e with
    | exportLine =>
      rw [Echo.path, hc.exportFile]
      exact hc.busy _ s m (hbytes.trans (lineNumber_text_of_eq hm)) howner.1
    | out => rw [Echo.path, hfiles, written]
    | on => rw [Echo.path, hfiles, written]
    | off => rw [Echo.path, hfiles, written]
    | unexportLine =>
      rw [Echo.path, hc.unexportFile]
      exact hc.notExported _ s m (hbytes.trans (lineNumber_text_of_eq hm)) howner.2
  · exact written_others hc ho hm

/-! ## What is known of the line -/

/-- How far a program is, as far as its line can tell. -/
inductive Phase where
  | before
  | exported
  | shows (high : Bool)
  | after
  deriving DecidableEq

/-- The phase after a command. -/
def Phase.next : Phase → Command → Option Phase
  | .before, .echo .exportLine => some .exported
  | .exported, .echo .out => some (.shows false)
  | .shows _, .echo .on => some (.shows true)
  | .shows _, .echo .off => some (.shows false)
  | .shows high, .sleep => some (.shows high)
  | .shows _, .echo .unexportLine => some .after
  | _, _ => none

/-- What a command that fits the phase can be. -/
theorem Phase.next_inv {phase phase' : Phase} {cmd : Command}
    (h : phase.next cmd = some phase') :
    (phase = .before ∧ cmd = .echo .exportLine ∧ phase' = .exported) ∨
    (phase = .exported ∧ cmd = .echo .out ∧ phase' = .shows false) ∨
    (∃ high, phase = .shows high ∧
      (cmd = .echo .on ∧ phase' = .shows true ∨
        cmd = .echo .off ∧ phase' = .shows false ∨
        cmd = .sleep ∧ phase' = .shows high ∨
        cmd = .echo .unexportLine ∧ phase' = .after)) := by
  unfold Phase.next at h
  split at h
  · exact .inl ⟨rfl, rfl, (Option.some.inj h).symm⟩
  · exact .inr (.inl ⟨rfl, rfl, (Option.some.inj h).symm⟩)
  · exact .inr (.inr ⟨_, rfl, .inl ⟨rfl, (Option.some.inj h).symm⟩⟩)
  · exact .inr (.inr ⟨_, rfl, .inr (.inl ⟨rfl, (Option.some.inj h).symm⟩)⟩)
  · exact .inr (.inr ⟨_, rfl, .inr (.inr (.inl ⟨rfl, (Option.some.inj h).symm⟩))⟩)
  · exact .inr (.inr ⟨_, rfl, .inr (.inr (.inr ⟨rfl, (Option.some.inj h).symm⟩))⟩)
  · cases h

/-- The program sleeps only while the line shows something. -/
theorem Phase.next_sleep {phase phase' : Phase} (hnext : phase.next .sleep = some phase') :
    ∃ high, phase = .shows high ∧ phase' = .shows high := by
  rcases Phase.next_inv hnext with ⟨-, h, -⟩ | ⟨-, h, -⟩ | ⟨high, hphase, hshows⟩
  · cases h
  · cases h
  · rcases hshows with ⟨h, -⟩ | ⟨h, -⟩ | ⟨-, h⟩ | ⟨h, -⟩
    · cases h
    · cases h
    · exact ⟨high, hphase, h⟩
    · cases h

/-- What the line shows after a write. -/
theorem Phase.next_echo_shows {phase : Phase} {e : Echo} {high : Bool}
    (hnext : phase.next (.echo e) = some (.shows high)) : high = decide (e = .on) := by
  rcases Phase.next_inv hnext with ⟨-, -, h⟩ | ⟨-, he, h⟩ | ⟨_, -, hshows⟩
  · cases h
  · cases he
    exact Phase.shows.inj h
  · rcases hshows with ⟨he, h⟩ | ⟨he, h⟩ | ⟨he, -⟩ | ⟨-, h⟩
    · cases he
      exact Phase.shows.inj h
    · cases he
      exact Phase.shows.inj h
    · cases he
    · cases h

/-- What the line is like in a phase; `l₀` is what it was at the start. How it looks
between `export` and `out`, and after `unexport`, is not documented. -/
def Phase.Fits (l₀ : Line) : Phase → Line → Prop
  | .before, l => l = l₀
  | .exported, l => l.owner = .sysfs
  | .shows high, l => l = ⟨.sysfs, true, high⟩
  | .after, l => l.owner = .free

theorem kstrtol_zero : kstrtol ['0'] = some 0 :=
  (kstrtol_print (n := 0) (by decide) (by decide)).1

theorem kstrtol_one : kstrtol ['1'] = some 1 :=
  (kstrtol_print (n := 1) (by decide) (by decide)).1

/-- **Each write does what it is for**, if the line could be had at the start. -/
theorem written_fits (hc : c.Documented) {n : Nat} (hn : gpio.toInt = n) {l₀ : Line}
    (hl₀ : l₀.Usable) {e : Echo} {fd : Option File} {s : σ} (ho : Opened c gpio e fd s)
    {phase phase' : Phase} (hnext : phase.next (.echo e) = some phase')
    (hfits : phase.Fits l₀ (c.line s n)) :
    phase'.Fits l₀ (c.line (written c gpio e fd s) n) := by
  obtain ⟨s₀, rfl, hsame⟩ := ho
  have htext := e.textOf_bytes gpio
  have hdirectory := hc.directory s₀ n
  rw [hsame n hn, ← hn] at hdirectory
  -- switching a line that shows something
  have hvalue : ∀ (high : Bool) (z : Int), kstrtol (e.text gpio) = some z →
      c.line s n = ⟨.sysfs, true, high⟩ →
        c.line (written c gpio e (c.lookup s₀ (linePath gpio.toInt valueName)) s) n
          = ⟨.sysfs, true, decide (z ≠ 0)⟩ := by
    intro high z hz hshows
    rw [(hdirectory (by rw [hshows])).2]
    exact hc.value _ s n z (by rw [htext, hz]) (by rw [hshows]) (by rw [hshows])
  rcases Phase.next_inv hnext with ⟨rfl, he, rfl⟩ | ⟨rfl, he, rfl⟩ | ⟨high, rfl, hshows⟩
  · obtain rfl : e = .exportLine := Command.echo.inj he
    have hnumber := (congrArg lineNumber htext).trans (lineNumber_text_of_eq hn)
    rw [Echo.path, hc.exportFile]
    rcases hl₀ with hfree | hsysfs
    · exact hc.exports _ s n hnumber (by rw [hfits, hfree])
    · -- exported already: the write fails, and the program goes on
      have hbusy := hc.busy _ s n hnumber (by rw [hfits, hsysfs]; exact nofun)
      exact (congrArg Line.owner (hbusy.trans hfits)).trans hsysfs
  · obtain rfl : e = .out := Command.echo.inj he
    rw [Echo.path, (hdirectory hfits).1]
    exact hc.out _ s n (by rw [htext]; exact Echo.chomp_text gpio .out) hfits
  · rcases hshows with ⟨he, rfl⟩ | ⟨he, rfl⟩ | ⟨he, -⟩ | ⟨he, rfl⟩
    · obtain rfl : e = .on := Command.echo.inj he
      exact hvalue high 1 kstrtol_one hfits
    · obtain rfl : e = .off := Command.echo.inj he
      exact hvalue high 0 kstrtol_zero hfits
    · cases he
    · obtain rfl : e = .unexportLine := Command.echo.inj he
      rw [Echo.path, hc.unexportFile]
      exact hc.unexports _ s n ((congrArg lineNumber htext).trans (lineNumber_text_of_eq hn))
        (congrArg Line.owner hfits)

/-! ## The effect of the program -/

theorem levels_eq {s s' : σ} (h : ∀ m, c.line s' m = c.line s m) : levels c s' = levels c s :=
  funext fun m => congrArg Line.level (h m)

theorem update_levels {s s' : σ} {n : Nat} (h : ∀ m, m ≠ n → c.line s' m = c.line s m) :
    Function.update (levels c s') n = Function.update (levels c s) n := by
  funext high m
  by_cases hm : m = n
  · rw [hm, Function.update_self, Function.update_self]
  · rw [Function.update_of_ne hm, Function.update_of_ne hm]
    exact congrArg Line.level (h m hm)

/-- The commands leave no file open and every other line alone. -/
theorem foldl_exec_others (hc : c.Documented) (cmds : List Command) (p : Proc σ) :
    (cmds.foldl (fun p cmd => cmd.exec c gpio p) p).openFiles = p.openFiles ∧
    ∀ m : Nat, gpio.toInt ≠ m →
      c.line (cmds.foldl (fun p cmd => cmd.exec c gpio p) p).chip m = c.line p.chip m := by
  induction cmds generalizing p with
  | nil => exact ⟨rfl, fun _ _ => rfl⟩
  | cons cmd cmds ih =>
    obtain ⟨hopen, hlines⟩ := ih (cmd.exec c gpio p)
    cases cmd with
    | sleep => exact ⟨hopen, hlines⟩
    | echo e =>
      rw [List.foldl_cons]
      rw [exec_echo] at hopen hlines ⊢
      exact ⟨hopen, fun m hm =>
        (hlines m hm).trans (written_others hc (opened_lookup e p.chip) hm)⟩

/-- Where the line cannot be had the commands leave all lines alone. -/
theorem foldl_exec_closed (hc : c.Documented) (cmds : List Command) (p : Proc σ)
    (hclosed : ∀ n : Nat, gpio.toInt = n → (c.line p.chip n).Closed) :
    (∀ m, c.line (cmds.foldl (fun p cmd => cmd.exec c gpio p) p).chip m = c.line p.chip m) ∧
    (cmds.foldl (fun p cmd => cmd.exec c gpio p) p).seconds
      = p.seconds ++ List.replicate (cmds.count .sleep) (levels c p.chip) := by
  induction cmds generalizing p with
  | nil => exact ⟨fun _ => rfl, (List.append_nil _).symm⟩
  | cons cmd cmds ih =>
    cases cmd with
    | sleep =>
      obtain ⟨hlines, hseconds⟩ := ih (GpioScript.sleep c p) hclosed
      refine ⟨hlines, hseconds.trans ?_⟩
      rw [List.count_cons_self, List.replicate_succ, sleep, List.append_assoc]
      rfl
    | echo e =>
      have hwritten := written_closed hc (opened_lookup e p.chip) hclosed
      rw [List.foldl_cons, exec_echo]
      obtain ⟨hlines, hseconds⟩ := ih
        { p with
          chip := written c gpio e (c.lookup p.chip (e.path gpio)) p.chip
          fd := c.lookup p.chip (e.path gpio) }
        fun n hn => by
          rw [hwritten]
          exact hclosed n hn
      refine ⟨fun m => (hlines m).trans (hwritten m), hseconds.trans ?_⟩
      rw [levels_eq hwritten, List.count_cons_of_ne (fun h : Command.echo e = .sleep => nomatch h)]

/-- What the LED shows during each second slept, from what it shows at first. -/
def shown : Bool → List Command → List Bool
  | _, [] => []
  | high, .sleep :: cmds => high :: shown high cmds
  | _, .echo e :: cmds => shown (decide (e = .on)) cmds

/-- A line that can be had goes through the phases of the program, and each second slept
shows what it was last switched to. -/
theorem foldl_exec_fits (hc : c.Documented) {n : Nat} (hn : gpio.toInt = n) {l₀ : Line}
    (hl₀ : l₀.Usable) {cmds : List Command} {phase phase' : Phase} {high : Bool}
    (hrun : run Phase.next phase cmds = some phase') (p : Proc σ)
    (hfits : phase.Fits l₀ (c.line p.chip n)) (hhigh : ∀ b, phase = .shows b → b = high) :
    phase'.Fits l₀ (c.line (cmds.foldl (fun p cmd => cmd.exec c gpio p) p).chip n) ∧
    (cmds.foldl (fun p cmd => cmd.exec c gpio p) p).seconds
      = p.seconds ++ (shown high cmds).map (Function.update (levels c p.chip) n) := by
  induction cmds generalizing p phase high with
  | nil =>
    cases hrun
    exact ⟨hfits, (List.append_nil _).symm⟩
  | cons cmd cmds ih =>
    obtain ⟨mid, hnext, hrest⟩ := run_cons_inv hrun
    cases cmd with
    | sleep =>
      obtain ⟨b, rfl, rfl⟩ := Phase.next_sleep hnext
      obtain rfl := hhigh b rfl
      have hlevels : levels c p.chip = Function.update (levels c p.chip) n b := by
        rw [Function.eq_update_self_iff]
        exact congrArg Line.level hfits
      obtain ⟨hline, hseconds⟩ := ih hrest (GpioScript.sleep c p) hfits hhigh
      refine ⟨hline, hseconds.trans ?_⟩
      rw [sleep, shown, List.map_cons, ← hlevels, List.append_assoc]
      rfl
    | echo e =>
      rw [List.foldl_cons, exec_echo]
      have hopened : Opened c gpio e (c.lookup p.chip (e.path gpio)) p.chip :=
        opened_lookup e p.chip
      obtain ⟨hline, hseconds⟩ := ih hrest
        { p with
          chip := written c gpio e (c.lookup p.chip (e.path gpio)) p.chip
          fd := c.lookup p.chip (e.path gpio) }
        (written_fits hc hn hl₀ hopened hnext hfits)
        fun b hb => Phase.next_echo_shows (hnext.trans (congrArg some hb))
      refine ⟨hline, hseconds.trans ?_⟩
      rw [shown, update_levels fun m hm => written_others hc hopened fun h => hm ?_]
      omega

/-- **What `ledControl` does to the chip.** No file stays open and no other line
changes. A line that can be had blinks five times and is free in the end; one that
cannot be had, and has no directory, stays as it was. -/
theorem ledControl_effect (hc : c.Documented) (gpio : CInt) (p : Proc σ) :
    (ledControl c gpio p).openFiles = p.openFiles ∧
    (∀ m : Nat, gpio.toInt ≠ m → c.line (ledControl c gpio p).chip m = c.line p.chip m) ∧
    (∀ n : Nat, gpio.toInt = n → (c.line p.chip n).Usable →
      (c.line (ledControl c gpio p).chip n).owner = .free ∧
      (ledControl c gpio p).seconds = p.seconds ++
        (List.replicate 5 [Function.update (levels c p.chip) n true,
          Function.update (levels c p.chip) n false]).flatten) ∧
    ((∀ n : Nat, gpio.toInt = n → (c.line p.chip n).Closed) →
      (∀ m, c.line (ledControl c gpio p).chip m = c.line p.chip m) ∧
      (ledControl c gpio p).seconds = p.seconds ++ List.replicate 10 (levels c p.chip)) := by
  have hphases : run Phase.next .before body = some .after := by decide
  rw [ledControl_eq_foldl]
  obtain ⟨hopen, hothers⟩ := foldl_exec_others hc body p
  exact ⟨hopen, hothers,
    fun n hn husable => foldl_exec_fits hc hn husable hphases p rfl
      (fun b hb => nomatch hb : ∀ b, Phase.before = .shows b → b = false),
    foldl_exec_closed hc body p⟩

/-- **gpio_script.c, for every argument that is an `int` in decimal**, on a chip that
behaves as documented: it returns 0, leaves no file open, does to the chip what the
shell commands do, and changes no line but the one with that number. This one blinks
five times and is free in the end if it was free or exported before; it stays as it was
if there is none with that number or a driver has it and has not exported it. -/
theorem gpioScript_blinks (c : Chip σ) (hc : c.Documented) (gpio : CInt) (name : List Char)
    (rest : List (List Char)) (p : Proc σ) :
    (main c (name :: print gpio.toInt :: rest) p).1 = 0 ∧
    (main c (name :: print gpio.toInt :: rest) p).2.openFiles = p.openFiles ∧
    (main c (name :: print gpio.toInt :: rest) p).2.chip =
      (script gpio).foldl (fun s cmd => shellEcho c cmd s) p.chip ∧
    (∀ m : Nat, gpio.toInt ≠ m →
      c.line (main c (name :: print gpio.toInt :: rest) p).2.chip m = c.line p.chip m) ∧
    (∀ n : Nat, gpio.toInt = n → (c.line p.chip n).Usable →
      (c.line (main c (name :: print gpio.toInt :: rest) p).2.chip n).owner = .free ∧
      (main c (name :: print gpio.toInt :: rest) p).2.seconds = p.seconds ++
        (List.replicate 5 [Function.update (levels c p.chip) n true,
          Function.update (levels c p.chip) n false]).flatten) ∧
    ((∀ n : Nat, gpio.toInt = n → (c.line p.chip n).Closed) →
      ∀ m, c.line (main c (name :: print gpio.toInt :: rest) p).2.chip m = c.line p.chip m) := by
  have hmain : main c (name :: print gpio.toInt :: rest) p = (0, ledControl c gpio p) := by
    rw [main, atoi_print]
  obtain ⟨hopen, hothers, husable, hclosed⟩ := ledControl_effect hc gpio p
  rw [hmain]
  exact ⟨rfl, hopen, ledControl_shell hc gpio p, hothers, husable, fun h => (hclosed h).1⟩

/-- Lines 0 to 57, all of them free and low. -/
def freshChip : Nat → Line := fun n => ⟨if n < 58 then .free else .absent, false, false⟩

/-- Line 18 of a fresh chip, and number 58, which has no line. -/
theorem gpioScript_blinks_18 :
    (main plain ["gpio_script".toList, print 18] ⟨freshChip, none, 0, []⟩).2.seconds =
      (List.replicate 5 [Function.update (levels plain freshChip) 18 true,
        levels plain freshChip]).flatten ∧
    ∀ m, (main plain ["gpio_script".toList, print 58] ⟨freshChip, none, 0, []⟩).2.chip m
      = freshChip m := by
  obtain ⟨-, -, -, -, husable, -⟩ := gpioScript_blinks plain plain_documented 18
    "gpio_script".toList [] ⟨freshChip, none, 0, []⟩
  obtain ⟨-, -, -, -, -, hclosed⟩ := gpioScript_blinks plain plain_documented 58
    "gpio_script".toList [] ⟨freshChip, none, 0, []⟩
  refine ⟨?_, hclosed fun n hn => ?_⟩
  · have hlow : levels plain freshChip
        = Function.update (levels plain freshChip) 18 false := by
      rw [Function.eq_update_self_iff]
      rfl
    have hseconds := (husable 18 rfl (.inl rfl)).2
    rw [List.nil_append, ← hlow] at hseconds
    exact hseconds
  · obtain rfl : n = 58 := by
      have hn : (58 : Int) = n := hn
      omega
    exact .inl rfl

/-- Without an argument the program does nothing, and an argument that does not
start with a number is taken for line 0. -/
theorem gpioScript_other (c : Chip σ) (name arg : List Char) (rest : List (List Char))
    (p : Proc σ)
    (harg : ∀ a k, arg.dropWhile isSpace = a :: k → a.isDigit = false ∧ a ≠ '-' ∧ a ≠ '+') :
    main c [name] p = (-1, p) ∧ main c (name :: arg :: rest) p = (0, ledControl c 0 p) := by
  refine ⟨rfl, ?_⟩
  rw [main, atoi_eq_zero harg]

/-- **What is built with `%d` is right for every `int`**: `atoi` and the kernel
read back the number that is printed, a path tells the line and the file, and
all that is printed into `buf` fits. -/
theorem printed_numbers (gpio : CInt) :
    atoi (print gpio.toInt) = gpio ∧
    kstrtol (print gpio.toInt) = some gpio.toInt ∧
    (∀ (gpio' : CInt) (name name' : List Char),
      linePath gpio.toInt name = linePath gpio'.toInt name' → gpio = gpio' ∧ name = name') ∧
    (literal (print gpio.toInt)).length ≤ bufsiz ∧
    (literal (linePath gpio.toInt directionName)).length ≤ bufsiz ∧
    (literal (linePath gpio.toInt valueName)).length ≤ bufsiz := by
  have hlo := BitVec.le_toInt (x := gpio)
  have hhi := BitVec.toInt_lt (x := gpio)
  have hlen : (print gpio.toInt).length ≤ 11 := length_print_le (by omega) (by omega)
  have hpath : ∀ name : List Char, (literal (linePath gpio.toInt name)).length
      = (print gpio.toInt).length + name.length + 22 := by
    intro name
    have hbase : base.length = 16 := by decide
    have hgpio : "gpio".toList.length = 4 := by decide
    simp only [literal, linePath, List.length_append, List.length_cons, List.length_nil, hbase,
      hgpio]
    omega
  have hdirection : directionName.length = 9 := by decide
  have hvalue : valueName.length = 5 := by decide
  refine ⟨atoi_print gpio, (kstrtol_print (by omega) (by omega)).1, fun gpio' name name' h => ?_,
    ?_, ?_, ?_⟩
  · obtain ⟨hnumber, hname⟩ := linePath_inj h
    exact ⟨BitVec.eq_of_toInt_eq hnumber, hname⟩
  · rw [literal, List.length_append, bufsiz]
    exact (Nat.add_le_add_right hlen 1).trans (by decide)
  · rw [hpath, hdirection, bufsiz]
    omega
  · rw [hpath, hvalue, bufsiz]
    omega

end Esystem.GpioScript
