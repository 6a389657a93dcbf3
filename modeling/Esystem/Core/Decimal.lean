import Mathlib.Data.List.Basic
import Mathlib.Order.Lattice
import Esystem.Core.CInt

/-!
# Numbers as text

A C program prints a number with `%d` and reads one with `atoi`; the kernel reads
one with `kstrtol`, in base 0, which takes the base from how the text starts and
accepts one newline at its end. Text is a list of characters, without the NUL
that ends it in memory.

- `atoi_print`: `atoi` reads back what `%d` prints.
- `kstrtol_print`: so does `kstrtol`, also behind `echo`'s newline. No number is
  printed with a leading zero, which would make it octal.
- `print_injective`, `length_print_le`: what names built with `%d` rely on.
- `atoi_eq_zero`: text that does not start with a number is read as 0.
-/

namespace Esystem.Decimal

/-- `%d`. -/
def print : Int → List Char
  | .ofNat n => Nat.toDigits 10 n
  | .negSucc n => '-' :: Nat.toDigits 10 (n + 1)

/-- `isspace`. -/
def isSpace (c : Char) : Bool :=
  c.toNat = 32 || (9 ≤ c.toNat && c.toNat ≤ 13)

/-- The number spelled by the digits at the start of the text, 0 without digits. -/
def leading (s : List Char) : Nat :=
  Nat.ofDigitChars 10 (s.takeWhile Char.isDigit) 0

/-- An optional sign and digits. -/
def readSigned : List Char → Int
  | '-' :: s => -leading s
  | '+' :: s => leading s
  | s => leading s

/-- `strtol(s, NULL, 10)`, which stays within a `long`. -/
def strtol (s : List Char) : Int :=
  max (-2 ^ 63) (min (readSigned (s.dropWhile isSpace)) (2 ^ 63 - 1))

/-- `atoi(s)`, which is `(int)strtol(s, NULL, 10)`. -/
def atoi (s : List Char) : CInt :=
  BitVec.ofInt 32 (strtol s)

/-! ## Numbers in the kernel -/

/-- The value of a digit of some base up to 16. -/
def digitVal (c : Char) : Nat :=
  if c.isDigit then c.toNat - 48
  else if 97 ≤ c.toNat ∧ c.toNat ≤ 102 then c.toNat - 87
  else if 65 ≤ c.toNat ∧ c.toNat ≤ 70 then c.toNat - 55
  else 16

/-- The base of a number, and its digits: hexadecimal behind `0x`, octal behind
`0`, else decimal. -/
def radix : List Char → Nat × List Char
  | '0' :: x :: c :: s =>
    if (x = 'x' ∨ x = 'X') ∧ digitVal c < 16 then (16, c :: s) else (8, '0' :: x :: c :: s)
  | '0' :: s => (8, '0' :: s)
  | s => (10, s)

/-- The text without one newline at its end. -/
def chomp (s : List Char) : List Char :=
  if s.getLast? = some (Char.ofNat 10) then s.dropLast else s

/-- The number whose digits are the whole text. -/
def number (s : List Char) : Option Nat :=
  let p := radix s
  if !p.2.isEmpty && p.2.all (fun c => Nat.blt (digitVal c) p.1) then
    some (p.2.foldl (fun n c => p.1 * n + digitVal c) 0)
  else none

/-- `kstrtol(s, 0, &n)`: the number, or `none` for an error. -/
def kstrtol (s : List Char) : Option Int :=
  let n : Option Int :=
    match chomp s with
    | '-' :: s => (number s).map fun n => -(n : Int)
    | '+' :: s => (number s).map fun n => (n : Int)
    | s => (number s).map fun n => (n : Int)
  n.filter fun n => -2 ^ 63 ≤ n ∧ n < 2 ^ 63

/-! ## What `%d` prints -/

theorem isDigit_of_mem {n : Nat} {c : Char} (h : c ∈ Nat.toDigits 10 n) : c.isDigit = true :=
  Nat.isDigit_of_mem_toDigits (by decide) (by decide) h

/-- A printed number does not start with a sign. -/
theorem head_ne_of_not_digit {c : Char} (hc : c.isDigit = false) (n : Nat) (s : List Char) :
    Nat.toDigits 10 n ≠ c :: s := by
  intro h
  have hdigit := isDigit_of_mem (n := n) (c := c) (h ▸ List.mem_cons_self)
  rw [hc] at hdigit
  cases hdigit

/-- Only 0 is printed with a leading zero. -/
theorem head_ne_zero {n : Nat} (hn : 0 < n) (s : List Char) : Nat.toDigits 10 n ≠ '0' :: s := by
  induction n using Nat.strong_induction_on generalizing s with
  | _ n ih =>
    by_cases hlt : n < 10
    · rw [Nat.toDigits_of_lt_base hlt]
      intro h
      have hchar : n.digitChar = '0' := (List.cons.inj h).1
      have hval := Nat.toNat_digitChar_of_lt_ten hlt
      rw [hchar] at hval
      have hzero : ('0' : Char).toNat = 48 := rfl
      omega
    · -- the first digit is that of `n / 10`
      have hdiv : 0 < n / 10 := by omega
      rw [Nat.toDigits_of_base_le (by decide) (by omega)]
      match hd : Nat.toDigits 10 (n / 10) with
      | [] => exact absurd hd Nat.toDigits_ne_nil
      | c :: k =>
        intro h
        obtain ⟨rfl, -⟩ := List.cons.inj h
        exact ih (n / 10) (by omega) hdiv k hd

/-- The text of a non-negative number, read back up to what does not belong to it. -/
theorem leading_append (n : Nat) {s : List Char} (hs : s.takeWhile Char.isDigit = []) :
    leading (Nat.toDigits 10 n ++ s) = n := by
  have htake : (Nat.toDigits 10 n ++ s).takeWhile Char.isDigit = Nat.toDigits 10 n := by
    rw [List.takeWhile_append_of_pos fun c hc => isDigit_of_mem hc, hs, List.append_nil]
  rw [leading, htake, Nat.ofDigitChars_ten_toDigits]

/-- Text that starts with a digit is read from there. -/
theorem readSigned_of_digit {s : List Char} (hm : ∀ k, s ≠ '-' :: k) (hp : ∀ k, s ≠ '+' :: k) :
    readSigned s = leading s := by
  unfold readSigned
  split
  · exact absurd rfl (hm _)
  · exact absurd rfl (hp _)
  · rfl

theorem readSigned_print (n : Int) : readSigned (print n) = n := by
  cases n with
  | ofNat n =>
    rw [print, readSigned_of_digit (head_ne_of_not_digit rfl n) (head_ne_of_not_digit rfl n)]
    have h := leading_append n (s := []) rfl
    rw [List.append_nil] at h
    rw [h]
    rfl
  | negSucc n =>
    show -(leading (Nat.toDigits 10 (n + 1)) : Int) = _
    have h := leading_append (n + 1) (s := []) rfl
    rw [List.append_nil] at h
    rw [h]
    rfl

/-- Different numbers are printed differently. -/
theorem print_injective : Function.Injective print := by
  intro m n h
  rw [← readSigned_print m, ← readSigned_print n, h]

/-- A printed number starts with no space. -/
theorem dropWhile_print (n : Int) : (print n).dropWhile isSpace = print n := by
  have hhead : ∀ c s, print n = c :: s → isSpace c = false := by
    intro c s h
    cases n with
    | ofNat n =>
      have hdigit : c.isDigit = true :=
        isDigit_of_mem (n := n) (by rw [show Nat.toDigits 10 n = c :: s from h]; simp)
      rw [Char.isDigit, Bool.and_eq_true, decide_eq_true_eq, decide_eq_true_eq] at hdigit
      have hle : 48 ≤ c.toNat := hdigit.1
      rw [isSpace, Bool.or_eq_false_iff, Bool.and_eq_false_iff]
      simp only [decide_eq_false_iff_not]
      omega
    | negSucc n =>
      obtain ⟨rfl, -⟩ := List.cons.inj h
      rfl
  match hp : print n with
  | [] => rfl
  | c :: s => rw [List.dropWhile_cons_of_neg (by rw [hhead c s hp]; decide)]

/-- **`atoi` reads back what `%d` prints** of any `int`. -/
theorem atoi_print (n : CInt) : atoi (print n.toInt) = n := by
  have hlt := BitVec.toInt_lt (x := n)
  have hle := BitVec.le_toInt (x := n)
  rw [atoi, strtol, dropWhile_print, readSigned_print]
  have hclamp : max (-2 ^ 63) (min n.toInt (2 ^ 63 - 1)) = n.toInt := by omega
  rw [hclamp, BitVec.ofInt_toInt]

/-- Text that does not start with a number is read as 0. -/
theorem atoi_eq_zero {s : List Char}
    (h : ∀ c k, s.dropWhile isSpace = c :: k → c.isDigit = false ∧ c ≠ '-' ∧ c ≠ '+') :
    atoi s = 0 := by
  have hread : readSigned (s.dropWhile isSpace) = 0 := by
    match hs : s.dropWhile isSpace with
    | [] => rfl
    | c :: k =>
      obtain ⟨hdigit, hm, hp⟩ := h c k hs
      rw [readSigned_of_digit (fun k h => hm (List.cons.inj h).1)
        (fun k h => hp (List.cons.inj h).1), leading,
        List.takeWhile_cons_of_neg (by rw [hdigit]; decide)]
      rfl
  rw [atoi, strtol, hread]
  rfl

/-- An `int` is printed with at most 11 characters. -/
theorem length_print_le {n : Int} (hlo : -2 ^ 31 ≤ n) (hhi : n < 2 ^ 31) :
    (print n).length ≤ 11 := by
  have hdigits : ∀ k : Nat, k ≤ 2 ^ 31 → (Nat.toDigits 10 k).length ≤ 10 := fun k hk =>
    (Nat.length_toDigits_le_iff (by decide) (by decide)).mpr (by omega)
  cases n with
  | ofNat k =>
    have hk : (k : Int) < 2 ^ 31 := hhi
    have := hdigits k (by omega)
    rw [print]
    omega
  | negSucc k =>
    have := hdigits (k + 1) (by omega)
    rw [print, List.length_cons]
    omega

/-! ## The kernel reads what `%d` prints -/

theorem digitVal_of_digit {c : Char} (h : c.isDigit = true) :
    digitVal c = c.toNat - 48 ∧ digitVal c < 10 := by
  have hval : digitVal c = c.toNat - 48 := if_pos h
  rw [Char.isDigit, Bool.and_eq_true, decide_eq_true_eq, decide_eq_true_eq] at h
  have hle : c.toNat ≤ 57 := h.2
  omega

theorem foldl_digitVal {s : List Char} (h : ∀ c ∈ s, c.isDigit = true) (init : Nat) :
    s.foldl (fun n c => 10 * n + digitVal c) init = Nat.ofDigitChars 10 s init := by
  induction s generalizing init with
  | nil => rfl
  | cons c s ih =>
    rw [List.foldl_cons, Nat.ofDigitChars_cons, ih fun d hd => h d (List.mem_cons_of_mem c hd),
      (digitVal_of_digit (h c List.mem_cons_self)).1]
    rfl

theorem number_toDigits (n : Nat) : number (Nat.toDigits 10 n) = some n := by
  rcases Nat.eq_zero_or_pos n with rfl | hn
  · have hradix : radix (Nat.toDigits 10 0) = (8, ['0']) := rfl
    rw [number, hradix]
    rfl
  · have hradix : radix (Nat.toDigits 10 n) = (10, Nat.toDigits 10 n) := by
      unfold radix
      split
      · rename_i h
        exact absurd h (head_ne_zero hn _)
      · rename_i h
        exact absurd h (head_ne_zero hn _)
      · rfl
    have hdigits : ((Nat.toDigits 10 n).all fun c => Nat.blt (digitVal c) 10) = true := by
      rw [List.all_eq_true]
      intro c hc
      exact Nat.blt_eq.mpr (digitVal_of_digit (isDigit_of_mem hc)).2
    have hne : (!(Nat.toDigits 10 n).isEmpty) = true := by
      rw [Bool.not_eq_true', List.isEmpty_eq_false_iff]
      exact Nat.toDigits_ne_nil
    rw [number, hradix]
    dsimp only
    rw [if_pos (Bool.and_eq_true_iff.mpr ⟨hne, hdigits⟩),
      foldl_digitVal fun c hc => isDigit_of_mem hc, Nat.ofDigitChars_ten_toDigits]

/-- The characters of a printed number. -/
theorem mem_print {n : Int} {c : Char} (h : c ∈ print n) : c = '-' ∨ c.isDigit = true := by
  cases n with
  | ofNat n => exact .inr (isDigit_of_mem h)
  | negSucc n =>
    rcases List.mem_cons.mp h with h | h
    · exact .inl h
    · exact .inr (isDigit_of_mem h)

theorem chomp_print (n : Int) : chomp (print n) = print n := by
  refine if_neg fun h => ?_
  rcases mem_print (List.mem_of_getLast? h) with hminus | hdigit
  · exact absurd hminus (by decide)
  · exact absurd hdigit (by decide)

theorem chomp_newline (s : List Char) : chomp (s ++ [Char.ofNat 10]) = s := by
  rw [chomp, List.getLast?_concat, if_pos rfl, List.dropLast_concat]

/-- **`kstrtol` reads back what `%d` prints**, with or without a newline behind it. -/
theorem kstrtol_print {n : Int} (hlo : -2 ^ 63 ≤ n) (hhi : n < 2 ^ 63) :
    kstrtol (print n) = some n ∧ kstrtol (print n ++ [Char.ofNat 10]) = some n := by
  have hread : ∀ s, chomp s = print n → kstrtol s = some n := by
    intro s hs
    have hn : (match chomp s with
        | '-' :: s => (number s).map fun n => -(n : Int)
        | '+' :: s => (number s).map fun n => (n : Int)
        | s => (number s).map fun n => (n : Int)) = some n := by
      rw [hs]
      cases n with
      | ofNat n =>
        rw [print]
        split
        · rename_i h
          exact absurd h (head_ne_of_not_digit rfl n _)
        · rename_i h
          exact absurd h (head_ne_of_not_digit rfl n _)
        · rw [number_toDigits]
          rfl
      | negSucc n =>
        show (number (Nat.toDigits 10 (n + 1))).map (fun n => -(n : Int)) = _
        rw [number_toDigits]
        rfl
    rw [kstrtol, hn]
    exact Option.filter_some_pos (by simpa using ⟨hlo, hhi⟩)
  exact ⟨hread _ (chomp_print n), hread _ (chomp_newline _)⟩

end Esystem.Decimal
