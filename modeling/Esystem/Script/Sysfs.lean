import Esystem.Core.Decimal

/-!
# The files of a GPIO chip

The kernel offers GPIO lines as files below `/sys/class/gpio`. Writing a number
to `export` asks for a line, which then has a directory with the files
`direction` and `value`; writing it to `unexport` gives the line back.

The kernel is no part of this repository, so the files are a parameter of the model:
`Chip` is what opening and writing them does, and what can be seen of a line.
`Chip.Documented` is what the kernel documents about them and gpio_script.c relies on.
Left open is what direction and level a line has once it is given back, or exported
and not written to yet, and what can be done with a line that its driver has exported
itself. Lines whose direction cannot be changed, and lines with `active_low` set, do
not behave like this. A descriptor that was opened before its line was given back and
exported again is not told from a new one; a line that only one process uses has none.
-/

namespace Esystem.Sysfs

open Decimal

/-- Who has a line: there is none with this number, nobody has it, it is exported by a
write to `export`, or a driver has requested it, and exported it or not. -/
inductive Owner where
  | absent
  | free
  | sysfs
  | driver (exported : Bool)
  deriving DecidableEq

/-- The line has a directory. -/
def Owner.hasFiles : Owner → Bool
  | .sysfs => true
  | .driver exported => exported
  | _ => false

/-- What can be seen of a GPIO line. -/
structure Line where
  owner : Owner
  output : Bool
  level : Bool
  deriving DecidableEq

/-- A line that can be had: nobody has it, or it has been exported already. -/
def Line.Usable (l : Line) : Prop := l.owner = .free ∨ l.owner = .sysfs

/-- A line that cannot be had and has no directory. -/
def Line.Closed (l : Line) : Prop := l.owner = .absent ∨ l.owner = .driver false

/-- The files that can be written. -/
inductive File where
  | exportFile
  | unexportFile
  | direction (n : Nat)
  | value (n : Nat)
  deriving DecidableEq

/-! ## Paths and numbers -/

/-- `/sys/class/gpio/`. -/
def base : List Char := "/sys/class/gpio/".toList

/-- `/sys/class/gpio/export`. -/
def exportPath : List Char := base ++ "export".toList

/-- `/sys/class/gpio/unexport`. -/
def unexportPath : List Char := base ++ "unexport".toList

/-- `/sys/class/gpio/gpio%d/` and the name of a file. -/
def linePath (gpio : Int) (name : List Char) : List Char :=
  base ++ ("gpio".toList ++ (print gpio ++ '/' :: name))

/-- `direction`. -/
def directionName : List Char := "direction".toList

/-- `value`. -/
def valueName : List Char := "value".toList

/-- The number of a line that a text stands for. -/
def lineNumber (text : List Char) : Option Nat :=
  (kstrtol text).bind fun z => if 0 ≤ z then some z.toNat else none

/-- The text in the bytes of a write: up to the first NUL. -/
def textOf (bytes : List Char) : List Char :=
  bytes.takeWhile (· != Char.ofNat 0)

/-- The line that a write of `text` to the file is about. -/
def File.target (text : List Char) : File → Option Nat
  | .exportFile => lineNumber text
  | .unexportFile => lineNumber text
  | .direction n => some n
  | .value n => some n

/-! ## The chip -/

/-- The GPIO files of a kernel in a state `σ`: the file that a path names, what a write
of some bytes to a file does, and how the lines look. -/
structure Chip (σ : Type) where
  lookup : σ → List Char → Option File
  store : File → List Char → σ → σ
  line : σ → Nat → Line

/-- How the kernel's GPIO files are documented to behave. -/
structure Chip.Documented {σ : Type} (c : Chip σ) : Prop where
  /-- `export` is always there. -/
  exportFile : ∀ s, c.lookup s exportPath = some .exportFile
  /-- `unexport` is always there. -/
  unexportFile : ∀ s, c.lookup s unexportPath = some .unexportFile
  /-- A line that was exported has a directory with its files. -/
  directory : ∀ s n, (c.line s n).owner = .sysfs →
    c.lookup s (linePath n directionName) = some (.direction n) ∧
      c.lookup s (linePath n valueName) = some (.value n)
  /-- A number that is no line's, or the number of a line without a directory, has none. -/
  noDirectory : ∀ s (z : Int) name,
    (∀ n : Nat, z = n → (c.line s n).owner.hasFiles = false) →
      c.lookup s (linePath z name) = none
  /-- A directory has the files of the line whose number it bears. -/
  ofLine : ∀ s (z : Int) name f, name = directionName ∨ name = valueName →
    c.lookup s (linePath z name) = some f → ∃ n : Nat, z = n ∧ (f = .direction n ∨ f = .value n)
  /-- What is written is a C string. -/
  cString : ∀ f bytes s, c.store f bytes s = c.store f (textOf bytes) s
  /-- One newline at its end is ignored. -/
  newline : ∀ f text s, chomp text = text →
    c.store f (text ++ [Char.ofNat 10]) s = c.store f text s
  /-- A write affects no line but the one that it is about. -/
  others : ∀ f bytes s m, f.target (textOf bytes) ≠ some m →
    c.line (c.store f bytes s) m = c.line s m
  /-- A line that nobody has can be exported. -/
  exports : ∀ bytes s n, lineNumber (textOf bytes) = some n → (c.line s n).owner = .free →
    (c.line (c.store .exportFile bytes s) n).owner = .sysfs
  /-- Any other line cannot: the write fails. -/
  busy : ∀ bytes s n, lineNumber (textOf bytes) = some n → (c.line s n).owner ≠ .free →
    c.line (c.store .exportFile bytes s) n = c.line s n
  /-- A line that was exported can be given back. -/
  unexports : ∀ bytes s n, lineNumber (textOf bytes) = some n → (c.line s n).owner = .sysfs →
    (c.line (c.store .unexportFile bytes s) n).owner = .free
  /-- Any other line cannot: the write fails. -/
  notExported : ∀ bytes s n, lineNumber (textOf bytes) = some n → (c.line s n).owner ≠ .sysfs →
    c.line (c.store .unexportFile bytes s) n = c.line s n
  /-- Writing `out` to its direction makes a line an output that is low. -/
  out : ∀ bytes s n, chomp (textOf bytes) = "out".toList → (c.line s n).owner = .sysfs →
    c.line (c.store (.direction n) bytes s) n = ⟨.sysfs, true, false⟩
  /-- Writing a number to its value sets the level of a line that is an output: low for
  zero, high for any other. -/
  value : ∀ bytes s n z, kstrtol (textOf bytes) = some z → (c.line s n).owner = .sysfs →
    (c.line s n).output = true →
      c.line (c.store (.value n) bytes s) n = ⟨.sysfs, true, decide (z ≠ 0)⟩

/-! ## Names and numbers -/

/-- A path tells the line and the file. -/
theorem linePath_inj {m n : Int} {name name' : List Char}
    (h : linePath m name = linePath n name') : m = n ∧ name = name' := by
  have htail : print m ++ '/' :: name = print n ++ '/' :: name' :=
    List.append_cancel_left (List.append_cancel_left h)
  -- the number ends at the first slash
  have hslash : ∀ (z : Int) (k : List Char),
      (print z ++ '/' :: k).takeWhile (· != '/') = print z := by
    intro z k
    have hpass : ∀ c ∈ print z, (c != '/') = true := by
      intro c hc
      rw [bne_iff_ne]
      rintro rfl
      rcases mem_print hc with h | h
      · exact absurd h (by decide)
      · exact absurd h (by decide)
    rw [List.takeWhile_append_of_pos hpass]
    exact List.append_nil _
  have hprint : print m = print n := by rw [← hslash m name, htail, hslash]
  rw [hprint] at htail
  exact ⟨print_injective hprint, (List.cons.inj (List.append_cancel_left htail)).2⟩

/-- The number that `%d` prints, as the number of a line. -/
theorem lineNumber_print (gpio : CInt) :
    lineNumber (print gpio.toInt) = if 0 ≤ gpio.toInt then some gpio.toInt.toNat else none := by
  have hlo := BitVec.le_toInt (x := gpio)
  have hhi := BitVec.toInt_lt (x := gpio)
  rw [lineNumber, (kstrtol_print (n := gpio.toInt) (by omega) (by omega)).1]
  rfl

end Esystem.Sysfs
