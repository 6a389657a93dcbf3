import Mathlib.Data.List.TakeWhile
import Esystem.Script.Sysfs

/-!
# A plain GPIO chip

A chip that behaves as documented and does no more than that: lines that are written to
change in the one respect that the write is about. In particular a line that is given
back keeps its direction and level.
-/

namespace Esystem.Sysfs

open Decimal

/-- The number in the path of a line's directory. -/
def pathNumber (path : List Char) : Nat :=
  leading (path.drop (base ++ "gpio".toList).length)

/-- The file that a path names. -/
def plainLookup (s : Nat → Line) (path : List Char) : Option File :=
  let n := pathNumber path
  if path = exportPath then some .exportFile
  else if path = unexportPath then some .unexportFile
  else if (s n).owner.hasFiles then
    if path = linePath n directionName then some (.direction n)
    else if path = linePath n valueName then some (.value n)
    else none
  else none

/-- What a write does to the line that it is about. -/
def plainWrite (f : File) (text : List Char) (l : Line) : Line :=
  match f with
  | .exportFile => if l.owner = .free then { l with owner := .sysfs } else l
  | .unexportFile => if l.owner = .sysfs then { l with owner := .free } else l
  | .direction _ =>
    if l.owner.hasFiles = false then l
    else if chomp text = "out".toList ∨ chomp text = "low".toList then
      { l with output := true, level := false }
    else if chomp text = "high".toList then { l with output := true, level := true }
    else if chomp text = "in".toList then { l with output := false }
    else l
  | .value _ =>
    match kstrtol text with
    | some z =>
      if l.owner.hasFiles = true ∧ l.output = true then { l with level := z ≠ 0 } else l
    | none => l

/-- What a write does. -/
def plainStore (f : File) (bytes : List Char) (s : Nat → Line) : Nat → Line :=
  fun n =>
    if f.target (textOf bytes) = some n then plainWrite f (textOf bytes) (s n) else s n

/-- The plain chip. -/
def plain : Chip (Nat → Line) where
  lookup := plainLookup
  store := plainStore
  line s := s

/-! ## Its paths -/

/-- The number can be read off the path of a line. -/
theorem pathNumber_linePath (n : Nat) (name : List Char) : pathNumber (linePath n name) = n := by
  have hdrop : (linePath n name).drop (base ++ "gpio".toList).length
      = Nat.toDigits 10 n ++ '/' :: name := by
    rw [linePath, ← List.append_assoc, List.drop_left]
    rfl
  rw [pathNumber, hdrop]
  exact leading_append n rfl

theorem linePath_ne_export (z : Int) (name : List Char) : linePath z name ≠ exportPath := by
  intro h
  have hname := List.append_cancel_left h
  exact absurd (List.cons.inj hname).1 (by decide)

theorem linePath_ne_unexport (z : Int) (name : List Char) : linePath z name ≠ unexportPath := by
  intro h
  have hname := List.append_cancel_left h
  exact absurd (List.cons.inj hname).1 (by decide)

theorem plainLookup_exportPath (s : Nat → Line) :
    plainLookup s exportPath = some .exportFile := by
  rw [plainLookup]
  exact if_pos rfl

theorem plainLookup_unexportPath (s : Nat → Line) :
    plainLookup s unexportPath = some .unexportFile := by
  have hne : unexportPath ≠ exportPath := fun h =>
    absurd (List.cons.inj (List.append_cancel_left h)).1 (by decide)
  rw [plainLookup]
  exact (if_neg hne).trans (if_pos rfl)

/-- The files of a line are there while it has a directory. -/
theorem plainLookup_linePath (s : Nat → Line) (z : Int) (name : List Char) :
    plainLookup s (linePath z name) =
      if 0 ≤ z ∧ (s z.toNat).owner.hasFiles then
        if name = directionName then some (.direction z.toNat)
        else if name = valueName then some (.value z.toNat)
        else none
      else none := by
  have hstart : plainLookup s (linePath z name) =
      if (s (pathNumber (linePath z name))).owner.hasFiles then
        if linePath z name = linePath (pathNumber (linePath z name)) directionName then
          some (.direction (pathNumber (linePath z name)))
        else if linePath z name = linePath (pathNumber (linePath z name)) valueName then
          some (.value (pathNumber (linePath z name)))
        else none
      else none := by
    rw [plainLookup]
    exact (if_neg (linePath_ne_export z name)).trans (if_neg (linePath_ne_unexport z name))
  rw [hstart]
  by_cases hz : 0 ≤ z
  · obtain ⟨n, rfl⟩ := Int.eq_ofNat_of_zero_le hz
    have hname : ∀ name', linePath n name = linePath n name' ↔ name = name' := fun name' =>
      ⟨fun h => (linePath_inj h).2, fun h => by rw [h]⟩
    rw [pathNumber_linePath, Int.toNat_natCast]
    simp only [hname, hz, true_and]
  · -- a negative number names no directory
    have hne : ∀ (n : Nat) name', linePath z name ≠ linePath n name' := by
      intro n name' h
      rw [(linePath_inj h).1] at hz
      exact hz (Int.natCast_nonneg n)
    rw [if_neg (fun h : 0 ≤ z ∧ _ => hz h.1), if_neg (hne _ _), if_neg (hne _ _), ite_self]

/-! ## It behaves as documented -/

/-- Without a NUL the whole text counts. -/
theorem textOf_eq {text : List Char} (h : ∀ c ∈ text, (c != Char.ofNat 0) = true) :
    textOf text = text :=
  List.takeWhile_eq_self_iff.mpr h

/-- What comes behind a NUL does not count. -/
theorem textOf_append {text : List Char} (h : textOf text ≠ text) (k : List Char) :
    textOf (text ++ k) = textOf text := by
  induction text with
  | nil => exact absurd rfl h
  | cons c text ih =>
    simp only [textOf, List.cons_append, List.takeWhile_cons] at h ih ⊢
    split
    · rename_i hc
      rw [if_pos hc] at h
      rw [ih fun heq => h (congrArg (c :: ·) heq)]
    · rfl

theorem plainStore_self {f : File} {bytes : List Char} {s : Nat → Line} {n : Nat}
    (h : f.target (textOf bytes) = some n) :
    plainStore f bytes s n = plainWrite f (textOf bytes) (s n) :=
  if_pos h

theorem plainStore_newline (f : File) {text : List Char} (h : chomp text = text)
    (s : Nat → Line) : plainStore f (text ++ [Char.ofNat 10]) s = plainStore f text s := by
  by_cases hnul : textOf text = text
  · have hall : ∀ c ∈ text ++ [Char.ofNat 10], (c != Char.ofNat 0) = true := by
      intro c hc
      rcases List.mem_append.mp hc with hc | hc
      · exact List.takeWhile_eq_self_iff.mp hnul c hc
      · rw [List.mem_singleton.mp hc]
        rfl
    have hnumber : kstrtol (text ++ [Char.ofNat 10]) = kstrtol text := by
      rw [kstrtol, chomp_newline, kstrtol, h]
    have htarget : f.target (text ++ [Char.ofNat 10]) = f.target text := by
      cases f with
      | exportFile => simp only [File.target, lineNumber, hnumber]
      | unexportFile => simp only [File.target, lineNumber, hnumber]
      | direction n => rfl
      | value n => rfl
    have hwrite : plainWrite f (text ++ [Char.ofNat 10]) = plainWrite f text := by
      funext l
      cases f with
      | exportFile => rfl
      | unexportFile => rfl
      | direction n => simp only [plainWrite, chomp_newline, h]
      | value n => simp only [plainWrite, hnumber]
    funext n
    simp only [plainStore, textOf_eq hall, hnul, htarget, hwrite]
  · funext n
    simp only [plainStore, textOf_append hnul]

/-- **The plain chip behaves as documented.** -/
theorem plain_documented : plain.Documented where
  exportFile := plainLookup_exportPath
  unexportFile := plainLookup_unexportPath
  directory s n h := by
    have hown : (s n).owner = .sysfs := h
    have hfiles : 0 ≤ (n : Int) ∧ (s (n : Int).toNat).owner.hasFiles = true :=
      ⟨Int.natCast_nonneg n, by rw [Int.toNat_natCast, hown]; rfl⟩
    constructor
    · exact (plainLookup_linePath s n directionName).trans ((if_pos hfiles).trans (if_pos rfl))
    · exact (plainLookup_linePath s n valueName).trans
        ((if_pos hfiles).trans ((if_neg (by decide)).trans (if_pos rfl)))
  noDirectory s z name h := by
    refine (plainLookup_linePath s z name).trans (if_neg fun ⟨hz, hfiles⟩ => ?_)
    have hnone : (s z.toNat).owner.hasFiles = false := h z.toNat (Int.toNat_of_nonneg hz).symm
    exact Bool.false_ne_true (hnone.symm.trans hfiles)
  ofLine s z name f _ h := by
    have hlookup := (plainLookup_linePath s z name).symm.trans h
    split at hlookup
    · rename_i hz
      refine ⟨z.toNat, (Int.toNat_of_nonneg hz.1).symm, ?_⟩
      split at hlookup
      · exact .inl (Option.some.inj hlookup).symm
      · split at hlookup
        · exact .inr (Option.some.inj hlookup).symm
        · cases hlookup
    · cases hlookup
  cString f bytes s := by
    have hidem : textOf (textOf bytes) = textOf bytes := List.takeWhile_idem
    have hstore : plainStore f bytes s = plainStore f (textOf bytes) s := by
      funext n
      simp only [plainStore, hidem]
    exact hstore
  newline f _ s h := plainStore_newline f h s
  others f bytes s m h := if_neg h
  exports bytes s n hn h :=
    congrArg Line.owner ((plainStore_self (f := .exportFile) hn).trans (if_pos h))
  busy bytes s n hn h := (plainStore_self (f := .exportFile) hn).trans (if_neg h)
  unexports bytes s n hn h :=
    congrArg Line.owner ((plainStore_self (f := .unexportFile) hn).trans (if_pos h))
  notExported bytes s n hn h := (plainStore_self (f := .unexportFile) hn).trans (if_neg h)
  out bytes s n ht h := by
    have hown : (s n).owner = .sysfs := h
    have hwrite : plainWrite (.direction n) (textOf bytes) (s n) = ⟨.sysfs, true, false⟩ := by
      rw [plainWrite, hown, if_neg (by decide), if_pos (.inl ht)]
    exact (plainStore_self rfl).trans hwrite
  value bytes s n z ht h hout := by
    have hown : (s n).owner = .sysfs := h
    have hout : (s n).output = true := hout
    have hwrite : plainWrite (.value n) (textOf bytes) (s n) = ⟨.sysfs, true, decide (z ≠ 0)⟩ := by
      simp only [plainWrite, ht, hown, hout, Owner.hasFiles, and_self, if_pos]
    exact (plainStore_self rfl).trans hwrite

end Esystem.Sysfs
