import Mathlib.Data.List.Infix

/-!
# Taking and giving back along straight-line code

Read a position of straight-line code as the list of statements that remain.
Whether something taken earlier (a lock, a lit lamp) has still to be given back
is then a function of the position alone: it is *owed* exactly when the first
remaining statement about it gives it back (`owed`). `Bracketed` is the
discipline that makes this reading exact: nothing is owed at either end, taking
is followed by giving back, and giving back by not owing.

Both are decidable, so for concrete code they are checked by evaluation; so is
any property of all positions (`AtEach`).
-/

namespace Esystem

universe u

variable {α : Type u}

/-- Something that `op` statements take and `cl` statements give back is owed
where the first of these statements that remains gives it back. -/
def owed (op cl : α → Bool) : List α → Bool
  | [] => false
  | x :: k => if cl x then true else if op x then false else owed op cl k

/-- The code takes and gives back in turn, and owes nothing at either end. -/
structure Bracketed (op cl : α → Bool) (b : List α) : Prop where
  outside : owed op cl b = false
  opens : ∀ x k, x :: k <:+ b → op x = true → cl x = false ∧ owed op cl k = true
  closes : ∀ x k, x :: k <:+ b → cl x = true → owed op cl k = false

/-- `P` holds at each position of the code `b`. -/
def AtEach (P : List α → Prop) (b : List α) : Prop :=
  ∀ k, k <:+ b → P k

instance (P : List α → Prop) [DecidablePred P] (b : List α) : Decidable (AtEach P b) :=
  decidable_of_iff (∀ k ∈ b.tails, P k)
    ⟨fun h k hk => h k ((List.mem_tails k b).mpr hk),
      fun h k hk => h k ((List.mem_tails k b).mp hk)⟩

theorem owed_of_closes {op cl : α → Bool} {x : α} (h : cl x = true) (k : List α) :
    owed op cl (x :: k) = true := by
  simp [owed, h]

theorem owed_of_opens {op cl : α → Bool} {x : α} (h : op x = true) (hc : cl x = false)
    (k : List α) : owed op cl (x :: k) = false := by
  simp [owed, h, hc]

/-- A statement that neither takes nor gives back leaves what is owed alone. -/
theorem owed_of_neither {op cl : α → Bool} {x : α} (h : op x = false) (hc : cl x = false)
    (k : List α) : owed op cl (x :: k) = owed op cl k := by
  simp [owed, h, hc]

/-- The check behind `Bracketed`, position by position. -/
def bracketedAt (op cl : α → Bool) : List α → Bool
  | [] => true
  | x :: k => (!op x || (!cl x && owed op cl k)) && (!cl x || !owed op cl k)

theorem bracketed_iff {op cl : α → Bool} {b : List α} :
    Bracketed op cl b ↔
      owed op cl b = false ∧ AtEach (fun k => bracketedAt op cl k = true) b := by
  constructor
  · intro h
    refine ⟨h.outside, fun k hk => ?_⟩
    match k, hk with
    | [], _ => rfl
    | x :: k, hk =>
      simp only [bracketedAt, Bool.and_eq_true, Bool.or_eq_true, Bool.not_eq_true']
      constructor
      · cases ho : op x with
        | false => exact .inl rfl
        | true => exact .inr (h.opens x k hk ho)
      · cases hc : cl x with
        | false => exact .inl rfl
        | true => exact .inr (h.closes x k hk hc)
  · rintro ⟨h0, h⟩
    have hat : ∀ x k, x :: k <:+ b → (op x = false ∨ cl x = false ∧ owed op cl k = true) ∧
        (cl x = false ∨ owed op cl k = false) := by
      intro x k hk
      simpa [bracketedAt] using h (x :: k) hk
    refine ⟨h0, fun x k hk ho => ?_, fun x k hk hc => ?_⟩
    · exact ((hat x k hk).1).resolve_left (by simp [ho])
    · exact ((hat x k hk).2).resolve_left (by simp [hc])

instance (op cl : α → Bool) (b : List α) : Decidable (Bracketed op cl b) :=
  decidable_of_iff _ bracketed_iff.symm

/-- At each position, the code that remains gives back what it takes, and what is
owed there. -/
theorem Bracketed.countP_suffix {op cl : α → Bool} {b : List α} (h : Bracketed op cl b)
    {k : List α} (hk : k <:+ b) :
    k.countP cl = k.countP op + if owed op cl k = true then 1 else 0 := by
  induction k with
  | nil => rfl
  | cons x k ih =>
    have htail := ih ((List.suffix_cons x k).trans hk)
    rw [List.countP_cons, List.countP_cons, htail]
    cases hc : cl x with
    | true =>
      have ho : op x = false := by
        rw [Bool.eq_false_iff]
        intro hop
        have hcl := (h.opens x k hk hop).1
        rw [hc] at hcl
        cases hcl
      rw [owed_of_closes hc, h.closes x k hk hc, ho]
    | false =>
      cases ho : op x with
      | true =>
        rw [owed_of_opens ho hc, (h.opens x k hk ho).2]
      | false =>
        rw [owed_of_neither ho hc]
        simp

/-- Counting a kind of statement: what remains is at most what the code has. -/
theorem countP_suffix_le {p : α → Bool} {k b : List α} (h : k <:+ b) :
    k.countP p ≤ b.countP p :=
  h.sublist.countP_le

end Esystem
