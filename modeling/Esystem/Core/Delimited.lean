import Mathlib.Data.List.Infix
import Mathlib.Data.List.TakeWhile

/-!
# How far apart the delimiters of a list are

A list that is cut up by a delimiter `d` is read piece by piece, and the pieces
need not end where a `d` is. What bounds the distance from any position to the
next `d` bounds the stretches of the list that have none: those anywhere
(`RunsWithin`), and those at the end (`TailWithin`), which a later append can
make longer.
-/

namespace Esystem

universe u

variable {α : Type u} {d : α} {l l' xs : List α} {k m n : Nat}

/-- No more than `n` consecutive elements are without a `d`. -/
def RunsWithin (d : α) (n : Nat) (l : List α) : Prop :=
  ∀ run, run <:+: l → d ∉ run → run.length ≤ n

/-- No more than `n` elements follow the last `d`. -/
def TailWithin (d : α) (n : Nat) (l : List α) : Prop :=
  ∀ run, run <:+ l → d ∉ run → run.length ≤ n

theorem runsWithin_of_length (h : l.length ≤ n) : RunsWithin d n l :=
  fun _ hrun _ => hrun.length_le.trans h

theorem tailWithin_of_length (h : l.length ≤ n) : TailWithin d n l :=
  fun _ hrun _ => hrun.length_le.trans h

theorem runsWithin_singleton (d : α) : RunsWithin d 0 [d] := by
  intro run hrun hd
  cases run with
  | nil => exact Nat.le_refl 0
  | cons a run =>
    have ha : a = d := List.mem_singleton.mp (hrun.subset List.mem_cons_self)
    exact absurd (ha ▸ List.mem_cons_self) hd

theorem RunsWithin.of_infix (h : RunsWithin d n l) (hl : l' <:+: l) : RunsWithin d n l' :=
  fun run hrun => h run (hrun.trans hl)

theorem TailWithin.of_suffix (h : TailWithin d n l) (hl : l' <:+ l) : TailWithin d n l' :=
  fun run hrun => h run (hrun.trans hl)

theorem TailWithin.mono (h : TailWithin d m l) (hmn : m ≤ n) : TailWithin d n l :=
  fun run hrun hd => (h run hrun hd).trans hmn

/-- A list that is longer than its tail has a `d`. -/
theorem TailWithin.mem (h : TailWithin d n l) (hlen : n < l.length) : d ∈ l := by
  by_contra hd
  have := h l (List.suffix_refl l) hd
  omega

/-- A list that is longer than any of its runs has a `d`. -/
theorem RunsWithin.mem (h : RunsWithin d n l) (hlen : n < l.length) : d ∈ l := by
  by_contra hd
  have := h l (List.infix_refl l) hd
  omega

/-- Nothing follows the last `d` where it is the last element. -/
theorem tailWithin_concat (l : List α) : TailWithin d 0 (l ++ [d]) := by
  intro run hrun hd
  rcases List.suffix_concat_iff.mp hrun with rfl | ⟨t, rfl, -⟩
  · exact Nat.le_refl 0
  · exact absurd (List.mem_append_right t List.mem_cons_self) hd

/-- An append makes the tail longer by what is appended at most. -/
theorem TailWithin.append (h : TailWithin d m l) (hn : m + xs.length ≤ n) :
    TailWithin d n (l ++ xs) := by
  intro run hrun hd
  rcases List.suffix_or_suffix_of_suffix hrun (List.suffix_append l xs) with hin | ⟨t, rfl⟩
  · have := hin.length_le
    omega
  · have ht := h t (List.suffix_append_self_iff.mp hrun) fun hmem =>
      hd (List.mem_append_left xs hmem)
    rw [List.length_append]
    omega

/-- A run of `l ++ xs` is one of `l`, one of `xs`, or the tail of `l` and a run
of `xs`. -/
theorem RunsWithin.append (h : RunsWithin d n l) (ht : TailWithin d m l)
    (hx : RunsWithin d k xs) (hn : m + k ≤ n) : RunsWithin d n (l ++ xs) := by
  intro run hrun hd
  rcases List.infix_append_iff.mp hrun with hl | hr | ⟨t, p, rfl, hend, hstart⟩
  · exact h run hl hd
  · have := hx run hr hd
    omega
  · have htail := ht t hend fun hmem => hd (List.mem_append_left p hmem)
    have hhead := hx p hstart.isInfix fun hmem => hd (List.mem_append_right t hmem)
    rw [List.length_append]
    omega

variable [BEq α] [LawfulBEq α]

/-- What stands before the first `d` is not all there is. -/
theorem length_takeWhile_lt (hd : d ∈ l) : (l.takeWhile (· != d)).length < l.length := by
  have hbefore := List.takeWhile_prefix (l := l) (· != d)
  refine Nat.lt_of_le_of_ne hbefore.length_le fun hlen => ?_
  have hall := List.takeWhile_eq_self_iff.mp (hbefore.eq_of_length hlen) d hd
  simp at hall

/-- What stands before the first `d` does not depend on what follows it. -/
theorem takeWhile_append_of_mem (hd : d ∈ l) (xs : List α) :
    (l ++ xs).takeWhile (· != d) = l.takeWhile (· != d) := by
  rw [List.takeWhile_append, if_neg (length_takeWhile_lt hd).ne]

end Esystem
