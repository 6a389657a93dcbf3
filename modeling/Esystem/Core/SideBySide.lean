import Mathlib.Data.Fintype.Basic
import Mathlib.Data.List.Nodup
import Esystem.Core.ModuleLife

/-!
# Modules side by side

Several modules are loaded and unloaded in any order. A device, an interrupt line
or a pin is somebody's at a time, so a call that takes it fails while another
module has it, and what the init function does then is its own affair. Exit
functions do not ask: unregistering a device or freeing a pin takes it from
whoever has it.

- `in_order_iff`: every loaded module has all that it takes, and no other one has
  anything, along exactly the runs in which each load finds everything free, or
  is turned away before it has taken anything.
-/

namespace Esystem.SideBySide

open ModuleLife (Driver InitStmt OnFail)

variable {μ ρ : Type}

/-- Which modules are loaded, and who has what. -/
structure State (μ ρ : Type) where
  loaded : μ → Bool
  holds : μ → ρ → Bool

/-- A module is loaded, while the kernel denies some things for other reasons, or
it is unloaded. -/
inductive Event (μ ρ : Type) where
  | load (m : μ) (denied : ρ → Bool)
  | unload (m : μ)

/-- Nothing is loaded. -/
def boot : State μ ρ where
  loaded := fun _ => false
  holds := fun _ _ => false

/-- The things that statements take. -/
def taken : List (InitStmt ρ) → List ρ
  | [] => []
  | .take r _ :: k => r :: taken k
  | .uses _ :: k => taken k

section Next

variable [Fintype μ] [DecidableEq μ] [DecidableEq ρ]

/-- Module `m` gets `r`. -/
def grant (m : μ) (r : ρ) (holds : μ → ρ → Bool) (m' : μ) (r' : ρ) : Bool :=
  (m' == m && r' == r) || holds m' r'

/-- The statements of the init function of module `m`: what it returns, and who
has what behind them. -/
def start (exclusive : ρ → Bool) (m : μ) (denied : ρ → Bool) :
    List (InitStmt ρ) → (μ → ρ → Bool) → Int × (μ → ρ → Bool)
  | [], holds => (0, holds)
  | .uses _ :: k, holds => start exclusive m denied k holds
  | .take r f :: k, holds =>
    if denied r = false ∧ (exclusive r = false ∨ ∀ m', holds m' r = false) then
      start exclusive m denied k (grant m r holds)
    else
      match f with
      | .goOn => start exclusive m denied k holds
      | .ret value => (value, holds)

/-- Module `m` gives back `r`: a registration or a pin is freed whoever has it. -/
def giveBack (M : Driver ρ) (m : μ) (r : ρ) (holds : μ → ρ → Bool) (m' : μ) (r' : ρ) : Bool :=
  holds m' r' && !(r' == r && (m' == m || (M.exclusive r && M.line != some r)))

/-- One event. A module is loaded iff its init function returns a value `≥ 0`. -/
def next (D : μ → Driver ρ) (s : State μ ρ) : Event μ ρ → Option (State μ ρ)
  | .load m denied =>
    if s.loaded m = true then none
    else
      let p := start (D m).exclusive m denied (D m).init s.holds
      some ⟨Function.update s.loaded m (decide (0 ≤ p.1)), p.2⟩
  | .unload m =>
    if s.loaded m = true then
      some ⟨Function.update s.loaded m false,
        (D m).exit.foldl (fun holds r => giveBack (D m) m r holds) s.holds⟩
    else none

end Next

/-- Every loaded module has what it takes, and nobody has anything else. -/
def InOrder (D : μ → Driver ρ) (s : State μ ρ) : Prop :=
  ∀ m r, s.holds m r = true ↔ s.loaded m = true ∧ r ∈ taken (D m).init

/-- Two modules take the same thing. -/
def Conflict (D : μ → Driver ρ) (m m' : μ) : Prop :=
  ∃ r ∈ taken (D m).init, (D m).exclusive r = true ∧ r ∈ taken (D m').init

instance [DecidableEq ρ] (D : μ → Driver ρ) (m m' : μ) : Decidable (Conflict D m m') :=
  inferInstanceAs (Decidable (∃ r ∈ taken (D m).init, _ ∧ r ∈ taken (D m').init))

/-- The init function returns an error before any of its calls has succeeded. -/
def TurnedAway (granted : ρ → Bool) : List (InitStmt ρ) → Prop
  | [] => False
  | .uses _ :: k => TurnedAway granted k
  | .take r .goOn :: k => granted r = false ∧ TurnedAway granted k
  | .take r (.ret value) :: _ => granted r = false ∧ value < 0

section Compatible

variable [Fintype μ] [DecidableEq ρ]

/-- The kernel gives `r` to a module that is loaded now. -/
def granted (D : μ → Driver ρ) (s : State μ ρ) (m : μ) (denied : ρ → Bool) (r : ρ) : Bool :=
  !denied r && (!(D m).exclusive r ||
    decide (∀ m', s.loaded m' = true → r ∉ taken (D m').init))

/-- A module that is loaded finds everything free, or is turned away. -/
def Compatible (D : μ → Driver ρ) (s : State μ ρ) : Event μ ρ → Prop
  | .load m denied =>
    (∀ r ∈ taken (D m).init, granted D s m denied r = true) ∨
      TurnedAway (granted D s m denied) (D m).init
  | .unload _ => True

end Compatible

/-- Modules that give back what they take, and take nothing twice. -/
structure Fleet (D : μ → Driver ρ) : Prop where
  exclusive : ∀ m m', (D m).exclusive = (D m').exclusive
  nodup : ∀ m, (taken (D m).init).Nodup
  exit : ∀ m r, r ∈ (D m).exit ↔ r ∈ taken (D m).init

/-! ## What an init function comes to -/

/-- What an init function returns and what it gets, if exactly the things in `g`
are given to it. -/
def outcome (g : ρ → Bool) : List (InitStmt ρ) → Int × List ρ
  | [] => (0, [])
  | .uses _ :: k => outcome g k
  | .take r f :: k =>
    if g r then ((outcome g k).1, r :: (outcome g k).2)
    else
      match f with
      | .goOn => outcome g k
      | .ret value => (value, [])

theorem outcome_granted {g : ρ → Bool} {r : ρ} (hr : g r = true) (f : OnFail)
    (k : List (InitStmt ρ)) :
    outcome g (.take r f :: k) = ((outcome g k).1, r :: (outcome g k).2) := by
  cases f with
  | goOn => exact if_pos hr
  | ret v => exact if_pos hr

theorem outcome_goOn {g : ρ → Bool} {r : ρ} (hr : ¬ g r = true) (k : List (InitStmt ρ)) :
    outcome g (.take r .goOn :: k) = outcome g k :=
  if_neg hr

theorem outcome_ret {g : ρ → Bool} {r : ρ} (hr : ¬ g r = true) (value : Int)
    (k : List (InitStmt ρ)) : outcome g (.take r (.ret value) :: k) = (value, []) :=
  if_neg hr

/-- A module gets only what it asks for and is given. -/
theorem mem_outcome {g : ρ → Bool} {k : List (InitStmt ρ)} {r : ρ} (h : r ∈ (outcome g k).2) :
    r ∈ taken k ∧ g r = true := by
  induction k with
  | nil => cases h
  | cons x k ih =>
    cases x with
    | uses u => exact ih h
    | take u f =>
      by_cases hu : g u = true
      · rw [outcome_granted hu] at h
        rcases List.mem_cons.mp h with rfl | h
        · exact ⟨List.mem_cons_self, hu⟩
        · exact ⟨List.mem_cons_of_mem u (ih h).1, (ih h).2⟩
      · cases f with
        | goOn =>
          rw [outcome_goOn hu] at h
          exact ⟨List.mem_cons_of_mem u (ih h).1, (ih h).2⟩
        | ret v =>
          rw [outcome_ret hu] at h
          cases h

/-- An init function that gets everything returns 0. -/
theorem outcome_of_all {g : ρ → Bool} {k : List (InitStmt ρ)} (h : ∀ r ∈ taken k, g r = true) :
    outcome g k = (0, taken k) := by
  induction k with
  | nil => rfl
  | cons x k ih =>
    cases x with
    | uses u => exact ih h
    | take u f =>
      have hrest := ih fun r hr => h r (List.mem_cons_of_mem u hr)
      rw [outcome_granted (h u List.mem_cons_self), hrest]
      rfl

theorem turnedAway_iff {g : ρ → Bool} {k : List (InitStmt ρ)} :
    TurnedAway g k ↔ (outcome g k).1 < 0 ∧ (outcome g k).2 = [] := by
  induction k with
  | nil => exact iff_of_false id fun h => absurd h.1 (Int.lt_irrefl 0)
  | cons x k ih =>
    cases x with
    | uses u => exact ih
    | take u f =>
      by_cases hu : g u = true
      · rw [outcome_granted hu]
        refine iff_of_false (fun h => ?_) fun h => absurd h.2 (List.cons_ne_nil _ _)
        have hno : g u = false := by
          cases f with
          | goOn => exact h.1
          | ret v => exact h.1
        rw [hu] at hno
        cases hno
      · have hno : g u = false := Bool.not_eq_true _ ▸ hu
        cases f with
        | goOn =>
          rw [outcome_goOn hu]
          exact (and_iff_right hno).trans ih
        | ret v =>
          rw [outcome_ret hu]
          exact (and_iff_right hno).trans (and_iff_left rfl).symm

section Start

variable [Fintype μ] [DecidableEq μ] [DecidableEq ρ]

/-- What a module takes does not depend on what it has taken before. -/
theorem start_eq {exclusive : ρ → Bool} {m : μ} {denied : ρ → Bool} {g : ρ → Bool}
    {k : List (InitStmt ρ)} {holds : μ → ρ → Bool} (hk : (taken k).Nodup)
    (hg : ∀ r ∈ taken k, g r = true ↔
      denied r = false ∧ (exclusive r = false ∨ ∀ m', holds m' r = false)) :
    start exclusive m denied k holds = ((outcome g k).1,
      fun m' r => (m' == m && decide (r ∈ (outcome g k).2)) || holds m' r) := by
  induction k generalizing holds with
  | nil => simp [start, outcome]
  | cons x k ih =>
    cases x with
    | uses u => exact ih hk hg
    | take u f =>
      obtain ⟨hu, hrest⟩ := List.nodup_cons.mp hk
      have hgu := hg u List.mem_cons_self
      by_cases hgot : g u = true
      · have hstart : start exclusive m denied (.take u f :: k) holds
            = start exclusive m denied k (grant m u holds) := by
          cases f with
          | goOn => exact if_pos (hgu.mp hgot)
          | ret v => exact if_pos (hgu.mp hgot)
        rw [hstart, outcome_granted hgot]
        -- the other things are still had by the same modules
        have hother : ∀ r ∈ taken k, ∀ m', grant m u holds m' r = holds m' r := by
          intro r hr m'
          have hne : (r == u) = false := by
            rw [beq_eq_false_iff_ne]
            rintro rfl
            exact hu hr
          rw [grant, hne, Bool.and_false, Bool.false_or]
        rw [ih hrest fun r hr => by simp only [hother r hr]; exact hg r (List.mem_cons_of_mem u hr)]
        refine Prod.ext rfl (funext fun m' => funext fun r => ?_)
        show (m' == m && decide (r ∈ (outcome g k).2) || (m' == m && r == u || holds m' r))
          = (m' == m && decide (r ∈ u :: (outcome g k).2) || holds m' r)
        rw [Bool.eq_iff_iff]
        simp only [Bool.or_eq_true, Bool.and_eq_true, beq_iff_eq, decide_eq_true_eq,
          List.mem_cons]
        tauto
      · have hno : ¬ (denied u = false ∧ (exclusive u = false ∨ ∀ m', holds m' u = false)) :=
          fun h => hgot (hgu.mpr h)
        cases f with
        | goOn =>
          rw [outcome_goOn hgot]
          exact (if_neg hno).trans (ih hrest fun r hr => hg r (List.mem_cons_of_mem u hr))
        | ret v =>
          rw [outcome_ret hgot]
          refine (if_neg hno).trans (Prod.ext rfl (funext fun m' => funext fun r => ?_))
          simp

omit [Fintype μ] in
theorem giveBack_iff (M : Driver ρ) (m : μ) (u : ρ) (holds : μ → ρ → Bool) (m' : μ) (r : ρ) :
    giveBack M m u holds m' r = true ↔
      holds m' r = true ∧ ¬ (r = u ∧ (m' = m ∨ (M.exclusive u = true ∧ M.line ≠ some u))) := by
  rw [giveBack, Bool.and_eq_true, Bool.not_eq_true', ← Bool.not_eq_true]
  simp only [Bool.and_eq_true, Bool.or_eq_true, beq_iff_eq, bne_iff_ne]

omit [Fintype μ] in
/-- Who has what behind an exit function. -/
theorem foldl_giveBack (M : Driver ρ) (m : μ) (l : List ρ) (holds : μ → ρ → Bool) (m' : μ)
    (r : ρ) :
    (l.foldl (fun holds r => giveBack M m r holds) holds) m' r = true ↔
      holds m' r = true ∧
        ¬ (r ∈ l ∧ (m' = m ∨ (M.exclusive r = true ∧ M.line ≠ some r))) := by
  induction l generalizing holds with
  | nil => exact (and_iff_left fun h => absurd h.1 List.not_mem_nil).symm
  | cons u l ih =>
    rw [List.foldl_cons, ih, giveBack_iff, List.mem_cons]
    by_cases hru : r = u
    · subst hru
      tauto
    · tauto

end Start

/-! ## Runs -/

section Runs

variable [Fintype μ] [DecidableEq μ] [DecidableEq ρ] {D : μ → Driver ρ} {s s' : State μ ρ}

/-- No two loaded modules take the same thing. -/
def Apart (D : μ → Driver ρ) (s : State μ ρ) : Prop :=
  ∀ m m', s.loaded m = true → s.loaded m' = true → m ≠ m' → ¬ Conflict D m m'

omit [Fintype μ] [DecidableEq μ] [DecidableEq ρ] in
theorem in_order_boot : InOrder D (boot : State μ ρ) :=
  fun _ _ => iff_of_false Bool.false_ne_true fun h => Bool.false_ne_true h.1

omit [DecidableEq μ] in
/-- In an orderly state, what is given to a module depends on what is loaded. -/
theorem granted_iff (ho : InOrder D s) (m : μ) (denied : ρ → Bool) (r : ρ) :
    granted D s m denied r = true ↔ denied r = false ∧
      ((D m).exclusive r = false ∨ ∀ m', s.holds m' r = false) := by
  rw [granted, Bool.and_eq_true, Bool.or_eq_true, Bool.not_eq_true', Bool.not_eq_true',
    decide_eq_true_eq]
  have hfree : (∀ m', s.loaded m' = true → r ∉ taken (D m').init) ↔
      ∀ m', s.holds m' r = false := by
    refine forall_congr' fun m' => ?_
    rw [← Bool.not_eq_true, ho m' r, not_and]
  rw [hfree]

omit [DecidableEq μ] in
/-- Where nothing is denied, a module that is not turned away is compatible with
the loaded modules that take nothing that it takes. -/
theorem compatible_iff {m : μ} {denied : ρ → Bool} (hdenied : ∀ r, denied r = false)
    (hstays : ¬ TurnedAway (granted D s m denied) (D m).init) :
    Compatible D s (.load m denied) ↔ ∀ m', s.loaded m' = true → ¬ Conflict D m m' := by
  rw [Compatible, or_iff_left hstays]
  have hgranted : ∀ r, granted D s m denied r = true ↔
      ((D m).exclusive r = true → ∀ m', s.loaded m' = true → r ∉ taken (D m').init) := by
    intro r
    rw [granted, hdenied r, Bool.not_false, Bool.true_and, Bool.or_eq_true, decide_eq_true_eq,
      Bool.not_eq_true', ← Bool.not_eq_true, imp_iff_not_or]
  simp only [hgranted]
  constructor
  · rintro h m' hm' ⟨r, hr, hx, hr'⟩
    exact h r hr hx m' hm' hr'
  · intro h r hr hx m' hm' hr'
    exact h m' hm' ⟨r, hr, hx, hr'⟩

/-- A load, by what is given to it. -/
theorem load_eq (hD : Fleet D) (ho : InOrder D s) {m : μ} {denied : ρ → Bool}
    (hs : next D s (.load m denied) = some s') :
    s.loaded m = false ∧
    s'.loaded = Function.update s.loaded m
      (decide (0 ≤ (outcome (granted D s m denied) (D m).init).1)) ∧
    ∀ m' r, s'.holds m' r = true ↔
      (m' = m ∧ r ∈ (outcome (granted D s m denied) (D m).init).2) ∨ s.holds m' r = true := by
  simp only [next] at hs
  split at hs
  · cases hs
  · rename_i hm
    rw [start_eq (hD.nodup m) fun r _ => granted_iff ho m denied r] at hs
    cases hs
    refine ⟨Bool.not_eq_true _ ▸ hm, rfl, fun m' r => ?_⟩
    simp only [Bool.or_eq_true, Bool.and_eq_true, beq_iff_eq, decide_eq_true_eq]

/-- A load that finds everything free, or is turned away, keeps the order. -/
theorem load_keeps (hD : Fleet D) (ho : InOrder D s) (ha : Apart D s) {m : μ}
    {denied : ρ → Bool} (hC : Compatible D s (.load m denied))
    (hs : next D s (.load m denied) = some s') : InOrder D s' ∧ Apart D s' := by
  obtain ⟨hm, hloaded, hholds⟩ := load_eq hD ho hs
  rcases hC with hall | haway
  · rw [outcome_of_all hall] at hloaded hholds
    have hthis : s'.loaded m = true := by rw [hloaded, Function.update_self]; rfl
    have hother : ∀ m', m' ≠ m → s'.loaded m' = s.loaded m' := fun m' hne => by
      rw [hloaded, Function.update_of_ne hne]
    -- nothing that the new module takes is taken by a loaded one
    have hfree : ∀ m', s.loaded m' = true → ∀ r ∈ taken (D m).init,
        (D m).exclusive r = true → r ∉ taken (D m').init := by
      intro m' hm' r hr hx
      have hgot := hall r hr
      rw [granted, hx, Bool.not_true, Bool.false_or, Bool.and_eq_true, decide_eq_true_eq] at hgot
      exact hgot.2 m' hm'
    constructor
    · intro m' r
      rw [hholds]
      by_cases hne : m' = m
      · subst hne
        have hnot : ¬ s.holds m' r = true := fun h => by
          rw [((ho m' r).mp h).1] at hm
          cases hm
        rw [hthis]
        tauto
      · rw [hother m' hne, ← ho m' r]
        tauto
    · intro m₁ m₂ h₁ h₂ hne hconf
      obtain ⟨r, hr₁, hx, hr₂⟩ := hconf
      by_cases hm₁ : m₁ = m
      · subst hm₁
        rw [hother m₂ (Ne.symm hne)] at h₂
        exact hfree m₂ h₂ r hr₁ hx hr₂
      · rw [hother m₁ hm₁] at h₁
        by_cases hm₂ : m₂ = m
        · subst hm₂
          rw [hD.exclusive m₁ m₂] at hx
          exact hfree m₁ h₁ r hr₂ hx hr₁
        · rw [hother m₂ hm₂] at h₂
          exact ha m₁ m₂ h₁ h₂ hne ⟨r, hr₁, hx, hr₂⟩
  · -- nothing has changed
    obtain ⟨hvalue, hnone⟩ := turnedAway_iff.mp haway
    have hsame : s'.loaded = s.loaded := by
      rw [hloaded, decide_eq_false (Int.not_le.mpr hvalue), ← hm, Function.update_eq_self]
    constructor
    · intro m' r
      rw [hholds, hnone, hsame, ← ho m' r]
      exact or_iff_right fun h => List.not_mem_nil h.2
    · intro m₁ m₂ h₁ h₂
      rw [hsame] at h₁ h₂
      exact ha m₁ m₂ h₁ h₂

/-- An exit function takes nothing from the other modules. -/
theorem unload_keeps (hD : Fleet D) (ho : InOrder D s) (ha : Apart D s) {m : μ}
    (hs : next D s (.unload m) = some s') : InOrder D s' ∧ Apart D s' := by
  simp only [next] at hs
  split at hs
  · rename_i hm
    cases hs
    have hother : ∀ m', m' ≠ m → Function.update s.loaded m false m' = s.loaded m' :=
      fun m' hne => Function.update_of_ne hne _ _
    constructor
    · intro m' r
      show ((D m).exit.foldl _ s.holds) m' r = true ↔
        Function.update s.loaded m false m' = true ∧ _
      rw [foldl_giveBack, ho m' r, hD.exit m r]
      by_cases hne : m' = m
      · subst hne
        rw [Function.update_self]
        simp
      · rw [hother m' hne]
        -- what the exit function frees, only a module in conflict could have
        refine and_iff_left_of_imp fun hl hgive => ?_
        rcases hgive.2 with heq | hx
        · exact hne heq
        · exact ha m m' hm hl.1 (Ne.symm hne) ⟨r, hgive.1, hx.1, hl.2⟩
    · intro m₁ m₂ h₁ h₂ hne
      have hold : ∀ m', Function.update s.loaded m false m' = true → s.loaded m' = true := by
        intro m' h
        by_cases hm' : m' = m
        · rw [hm']
          exact hm
        · rwa [hother m' hm'] at h
      exact ha m₁ m₂ (hold m₁ h₁) (hold m₂ h₂) hne
  · cases hs

/-- A load that does not find everything free, and is not turned away, leaves
disorder. -/
theorem load_breaks (hD : Fleet D) (ho : InOrder D s) {m : μ} {denied : ρ → Bool}
    (hC : ¬ Compatible D s (.load m denied)) (hs : next D s (.load m denied) = some s') :
    ¬ InOrder D s' := by
  obtain ⟨hm, hloaded, hholds⟩ := load_eq hD ho hs
  intro ho'
  rw [Compatible, not_or, turnedAway_iff] at hC
  obtain ⟨hsome, hnot⟩ := hC
  by_cases hvalue : 0 ≤ (outcome (granted D s m denied) (D m).init).1
  · -- it is loaded without something that it takes
    simp only [not_forall] at hsome
    obtain ⟨r, hr, hrefused⟩ := hsome
    have hthis : s'.loaded m = true := by
      rw [hloaded, Function.update_self, decide_eq_true hvalue]
    rcases (hholds m r).mp ((ho' m r).mpr ⟨hthis, hr⟩) with hgot | hold
    · exact hrefused (mem_outcome hgot.2).2
    · rw [((ho m r).mp hold).1] at hm
      cases hm
  · -- it is not loaded, and has something
    obtain ⟨r, hr⟩ := List.exists_mem_of_ne_nil _ fun h => hnot ⟨Int.not_le.mp hvalue, h⟩
    have hthis : s'.loaded m = false := by
      rw [hloaded, Function.update_self, decide_eq_false hvalue]
    rw [((ho' m r).mp ((hholds m r).mpr (.inl ⟨rfl, hr⟩))).1] at hthis
    cases hthis

/-- **Modules stay in order exactly where each load finds everything free or is
turned away**, over all runs of loads and unloads. -/
theorem in_order_iff (hD : Fleet D) {es : List (Event μ ρ)} (hr : run (next D) boot es = some s) :
    Along (next D) (InOrder D) boot es ↔ StepsMeet (next D) (Compatible D) boot es := by
  refine along_iff_of_inv (I := fun s => InOrder D s ∧ Apart D s) And.left ?_ ?_
    ⟨in_order_boot, fun _ _ h => by cases h⟩ hr
  · rintro s e s' ⟨ho, ha⟩ hC hs
    cases e with
    | load m denied => exact load_keeps hD ho ha hC hs
    | unload m => exact unload_keeps hD ho ha hs
  · rintro s e s' ⟨ho, ha⟩ hC hs
    cases e with
    | load m denied => exact load_breaks hD ho hC hs
    | unload m => exact absurd trivial hC

end Runs

end Esystem.SideBySide
