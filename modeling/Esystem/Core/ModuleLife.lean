import Mathlib.Logic.Function.Basic
import Mathlib.Data.Fintype.Defs
import Esystem.Core.Machine

/-!
# The life of a kernel module, and the calls into it

The init function of a module takes things from the kernel, one by one, and its
exit function gives them back. Two of them let others in: once the *device* is
registered, files that are opened on it reach the operations of the module, and
once the *line* is taken, interrupts reach its handler. Nothing makes either wait
until the init function has returned.

What the kernel does: a module is live iff its init function returns a value
`≥ 0`, else its memory is freed; opening a file fails once the module is being
removed, and while a file is open the module is not removed; giving back the line
waits for a running handler. Memory belongs to the load that took it, while a
device or a line belongs to one load at a time.

- `fault_free_iff`: a module without gaps (`Sound`) uses what is not there
  exactly where something is used that the init function failed to take or has
  not taken yet, or where a device is used that a failed load left behind. In
  particular its exit function takes nothing from under a call or a handler, in
  whatever order it gives things back otherwise.
- `never_fails`: a module whose init function never gives up leaves nothing behind.
-/

namespace Esystem.ModuleLife

/-- What an init function does when a call fails: it goes on, or it returns. -/
inductive OnFail where
  | goOn
  | ret (value : Int)
  deriving DecidableEq

/-- A statement of an init function: it takes a thing, or uses one. -/
inductive InitStmt (ρ : Type) where
  | take (r : ρ) (f : OnFail)
  | uses (r : ρ)
  deriving DecidableEq

/-- A module: its init function, what its exit function gives back, in order, the
thing that lets files in, the one that lets interrupts in, what the handler uses,
and which things are somebody's at a time. -/
structure Driver (ρ : Type) where
  init : List (InitStmt ρ)
  exit : List ρ
  device : ρ
  line : Option ρ
  handlerUses : List ρ
  exclusive : ρ → Bool

/-- Where the module is in its life; statements that have not run. -/
inductive Phase (ρ : Type) where
  | absent
  | starting (k : List (InitStmt ρ))
  | live
  | going (k : List ρ)
  deriving DecidableEq

/-- The number of the last load and its phase; which load has each thing; what the
last load has been given; the loads that returned an error; of which load the
operations of each open file and the running handler are; and whether something
has been used that is not there. -/
structure State (ι ρ : Type) where
  loads : Nat
  phase : Phase ρ
  owner : ρ → Option Nat
  obtained : ρ → Bool
  failed : Nat → Bool
  file : ι → Option Nat
  handling : Option Nat
  fault : Bool

/-- What can happen; `uses t none` is a statement of an operation that needs
nothing but the module itself. -/
inductive Event (ι ρ : Type) where
  | load
  | init (ok : Bool)
  | remove
  | exit
  | opens (t : ι)
  | uses (t : ι) (r : Option ρ)
  | closes (t : ι)
  | interrupt
  | handles (r : ρ)
  | handled

variable {ι ρ : Type}

namespace State

/-- Nothing has been loaded. -/
def boot : State ι ρ where
  loads := 0
  phase := .absent
  owner := fun _ => none
  obtained := fun _ => false
  failed := fun _ => false
  file := fun _ => none
  handling := none
  fault := false

/-- The module accepts calls. -/
def accepts (s : State ι ρ) : Bool :=
  match s.phase with
  | .starting _ => true
  | .live => true
  | _ => false

/-- The code and the variables of load `n` are in memory. -/
def inMemory [DecidableEq ρ] (s : State ι ρ) (n : Nat) : Bool :=
  n == s.loads && s.phase != .absent

/-- Something is used: `good` says whether it is there. -/
def touch (s : State ι ρ) (good : Bool) : State ι ρ :=
  { s with fault := s.fault || !good }

/-- The init function returns `value`. -/
def returns (s : State ι ρ) (value : Int) : State ι ρ :=
  if 0 ≤ value then { s with phase := .live }
  else { s with phase := .absent, failed := Function.update s.failed s.loads true }

end State

open State

section Next

variable [Fintype ι] [DecidableEq ι] [DecidableEq ρ]

/-- A call that takes `r` succeeds. -/
def took (r : ρ) (k : List (InitStmt ρ)) (s : State ι ρ) : State ι ρ :=
  { s with
    phase := .starting k
    owner := Function.update s.owner r (some s.loads)
    obtained := Function.update s.obtained r true }

/-- Giving back `r`: a registration whoever has it, anything else only if it is
the module's own. -/
def gave (M : Driver ρ) (r : ρ) (k : List ρ) (s : State ι ρ) : State ι ρ :=
  { s with
    phase := .going k
    owner := if s.owner r = some s.loads ∨ (M.exclusive r = true ∧ M.line ≠ some r) then
        Function.update s.owner r none
      else s.owner }

/-- One event. -/
def next (M : Driver ρ) (s : State ι ρ) : Event ι ρ → Option (State ι ρ)
  | .load =>
    if s.phase = .absent then
      some { s with loads := s.loads + 1, phase := .starting M.init, obtained := fun _ => false }
    else none
  | .init ok =>
    match s.phase with
    | .starting [] => some { s with phase := .live }
    | .starting (.uses r :: k) =>
      some { s.touch (s.owner r == some s.loads) with phase := .starting k }
    | .starting (.take r f :: k) =>
      if ok then
        if M.exclusive r = true ∧ (s.owner r).isSome then none else some (took r k s)
      else
        match f with
        | .goOn => some { s with phase := .starting k }
        | .ret value => some (s.returns value)
    | _ => none
  | .remove =>
    if s.phase = .live ∧ ∀ t, s.file t ≠ some s.loads then
      some { s with phase := .going M.exit }
    else none
  | .exit =>
    match s.phase with
    | .going [] => some { s with phase := .absent }
    | .going (r :: k) =>
      if M.line = some r ∧ s.handling.isSome then none else some (gave M r k s)
    | _ => none
  | .opens t =>
    match s.file t, s.owner M.device with
    | none, some n =>
      if s.inMemory n then
        some (if s.accepts then { s with file := Function.update s.file t (some n) } else s)
      else some (s.touch false)
    | _, _ => none
  | .uses t r =>
    match s.file t with
    | some n => some (s.touch (s.inMemory n && r.all fun r => s.owner r == some n))
    | none => none
  | .closes t =>
    match s.file t with
    | some n => some { s.touch (s.inMemory n) with file := Function.update s.file t none }
    | none => none
  | .interrupt =>
    match M.line.bind s.owner, s.handling with
    | some n, none => some { s with handling := some n }
    | _, _ => none
  | .handles r =>
    match s.handling with
    | some n =>
      if r ∈ M.handlerUses then some (s.touch (s.inMemory n && s.owner r == some n)) else none
    | none => none
  | .handled => if s.handling.isSome then some { s with handling := none } else none

end Next

/-! ## What one event does -/

section Steps

variable [Fintype ι] [DecidableEq ι] [DecidableEq ρ] {M : Driver ρ} {s s' : State ι ρ}

/-- The events, by what they find. -/
inductive Step (M : Driver ρ) (s : State ι ρ) : Event ι ρ → State ι ρ → Prop
  | load (h : s.phase = .absent) : Step M s .load
      { s with loads := s.loads + 1, phase := .starting M.init, obtained := fun _ => false }
  | returned {ok : Bool} (h : s.phase = .starting []) :
      Step M s (.init ok) { s with phase := .live }
  | inits {ok : Bool} {r : ρ} {k : List (InitStmt ρ)} (h : s.phase = .starting (.uses r :: k)) :
      Step M s (.init ok) { s.touch (s.owner r == some s.loads) with phase := .starting k }
  | took {r : ρ} {f : OnFail} {k : List (InitStmt ρ)} (h : s.phase = .starting (.take r f :: k)) :
      Step M s (.init true) (took r k s)
  | wentOn {r : ρ} {k : List (InitStmt ρ)} (h : s.phase = .starting (.take r .goOn :: k)) :
      Step M s (.init false) { s with phase := .starting k }
  | gaveUp {r : ρ} {v : Int} {k : List (InitStmt ρ)}
      (h : s.phase = .starting (.take r (.ret v) :: k)) : Step M s (.init false) (s.returns v)
  | remove (h : s.phase = .live) (hf : ∀ t, s.file t ≠ some s.loads) :
      Step M s .remove { s with phase := .going M.exit }
  | gone (h : s.phase = .going []) : Step M s .exit { s with phase := .absent }
  | gave {r : ρ} {k : List ρ} (h : s.phase = .going (r :: k))
      (hwait : M.line = some r → s.handling = none) : Step M s .exit (gave M r k s)
  | opened {t : ι} {n : Nat} (ho : s.owner M.device = some n) (hm : s.inMemory n = true)
      (ha : s.accepts = true) :
      Step M s (.opens t) { s with file := Function.update s.file t (some n) }
  | refused {t : ι} {n : Nat} (ho : s.owner M.device = some n) (hm : s.inMemory n = true) :
      Step M s (.opens t) s
  | openedGone {t : ι} {n : Nat} (ho : s.owner M.device = some n) (hm : s.inMemory n = false) :
      Step M s (.opens t) (s.touch false)
  | used {t : ι} {n : Nat} {r : Option ρ} (hf : s.file t = some n) : Step M s (.uses t r)
      (s.touch (s.inMemory n && r.all fun r => s.owner r == some n))
  | closed {t : ι} {n : Nat} (hf : s.file t = some n) : Step M s (.closes t)
      { s.touch (s.inMemory n) with file := Function.update s.file t none }
  | interrupted {l : ρ} {n : Nat} (hl : M.line = some l) (ho : s.owner l = some n) :
      Step M s .interrupt { s with handling := some n }
  | handles {r : ρ} {n : Nat} (hh : s.handling = some n) (hr : r ∈ M.handlerUses) :
      Step M s (.handles r) (s.touch (s.inMemory n && s.owner r == some n))
  | handled : Step M s .handled { s with handling := none }

theorem step_of_next {e : Event ι ρ} (h : next M s e = some s') : Step M s e s' := by
  cases e with
  | load =>
    simp only [next] at h
    split at h
    · cases h
      exact .load ‹_›
    · cases h
  | init ok =>
    simp only [next] at h
    split at h
    · cases h
      exact .returned ‹_›
    · cases h
      exact .inits ‹_›
    · rename_i r f k hp
      split at h
      · rename_i hok
        subst hok
        split at h
        · cases h
        · cases h
          exact .took hp
      · rename_i hok
        rw [Bool.not_eq_true] at hok
        subst hok
        cases f with
        | goOn =>
          cases h
          exact .wentOn hp
        | ret v =>
          cases h
          exact .gaveUp hp
    · cases h
  | remove =>
    simp only [next] at h
    split at h
    · rename_i hp
      cases h
      exact .remove hp.1 hp.2
    · cases h
  | exit =>
    simp only [next] at h
    split at h
    · cases h
      exact .gone ‹_›
    · rename_i r k hp
      split at h
      · cases h
      · rename_i hwait
        cases h
        refine .gave hp fun hl => ?_
        rw [not_and, Bool.not_eq_true, Option.isSome_eq_false_iff, Option.isNone_iff_eq_none]
          at hwait
        exact hwait hl
    · cases h
  | opens t =>
    simp only [next] at h
    split at h
    · rename_i n hf ho
      split at h
      · rename_i hm
        cases h
        split
        · exact .opened ho hm ‹_›
        · exact .refused ho hm
      · rename_i hm
        cases h
        exact .openedGone ho (Bool.not_eq_true _ ▸ hm)
    · cases h
  | uses t r =>
    simp only [next] at h
    split at h
    · cases h
      exact .used ‹_›
    · cases h
  | closes t =>
    simp only [next] at h
    split at h
    · cases h
      exact .closed ‹_›
    · cases h
  | interrupt =>
    simp only [next] at h
    split at h
    · rename_i n ho hh
      cases h
      obtain ⟨l, hl, hn⟩ := Option.bind_eq_some_iff.mp ho
      exact .interrupted hl hn
    · cases h
  | handles r =>
    simp only [next] at h
    split at h
    · rename_i n hh
      split at h
      · rename_i hr
        cases h
        exact .handles hh hr
      · cases h
    · cases h
  | handled =>
    simp only [next] at h
    split at h
    · cases h
      exact .handled
    · cases h

end Steps

/-! ## What init functions have taken -/

section Taken

variable [DecidableEq ρ]

/-- What has surely been taken behind a statement, if `got` has before it: an init
function that goes on behind a call that it would have returned from. -/
def after (got : ρ → Bool) : InitStmt ρ → ρ → Bool
  | .take r (.ret _) => Function.update got r true
  | _ => got

/-- `P` holds at each statement, of what has surely been taken before it and of
the statements behind it. -/
def EachWith (P : (ρ → Bool) → InitStmt ρ → List (InitStmt ρ) → Prop) (got : ρ → Bool) :
    List (InitStmt ρ) → Prop
  | [] => True
  | x :: k => P got x k ∧ EachWith P (after got x) k

instance decidableEachWith (P : (ρ → Bool) → InitStmt ρ → List (InitStmt ρ) → Prop)
    [∀ got x k, Decidable (P got x k)] (got : ρ → Bool) :
    (k : List (InitStmt ρ)) → Decidable (EachWith P got k)
  | [] => .isTrue trivial
  | x :: k =>
    have := decidableEachWith P (after got x) k
    inferInstanceAs (Decidable (P got x k ∧ EachWith P (after got x) k))

/-- `P` holds all the more where more has been taken. -/
def Grows (P : (ρ → Bool) → InitStmt ρ → List (InitStmt ρ) → Prop) : Prop :=
  ∀ (got got' : ρ → Bool) (x : InitStmt ρ) (k : List (InitStmt ρ)),
    (∀ r, got r = true → got' r = true) → P got x k → P got' x k

variable {P : (ρ → Bool) → InitStmt ρ → List (InitStmt ρ) → Prop}

theorem update_mono {got got' : ρ → Bool} (h : ∀ r, got r = true → got' r = true) (r : ρ) :
    ∀ u, Function.update got r true u = true → Function.update got' r true u = true := by
  intro u hu
  by_cases hur : u = r
  · rw [hur, Function.update_self]
  · rw [Function.update_of_ne hur] at hu ⊢
    exact h u hu

theorem le_update (got : ρ → Bool) (r : ρ) :
    ∀ u, got u = true → Function.update got r true u = true := by
  intro u hu
  by_cases hur : u = r
  · rw [hur, Function.update_self]
  · rw [Function.update_of_ne hur, hu]

theorem after_mono {got got' : ρ → Bool} (h : ∀ r, got r = true → got' r = true)
    (x : InitStmt ρ) : ∀ u, after got x u = true → after got' x u = true := by
  cases x with
  | uses r => exact h
  | take r f =>
    cases f with
    | goOn => exact h
    | ret v => exact update_mono h r

theorem EachWith.mono (hP : Grows P) {got got' : ρ → Bool} {k : List (InitStmt ρ)}
    (h : ∀ r, got r = true → got' r = true) (hk : EachWith P got k) : EachWith P got' k := by
  induction k generalizing got got' with
  | nil => trivial
  | cons x k ih => exact ⟨hP _ _ _ _ h hk.1, ih (after_mono h x) hk.2⟩

end Taken

/-! ## Modules without gaps -/

section Sound

variable [DecidableEq ρ]

/-- The line is taken last, when all that the handler uses has been taken. -/
def LineLast (M : Driver ρ) (got : ρ → Bool) : InitStmt ρ → List (InitStmt ρ) → Prop
  | .take r _, k => M.line = some r → k = [] ∧ ∀ u ∈ M.handlerUses, got u = true
  | .uses _, _ => True

instance (M : Driver ρ) (got : ρ → Bool) (x : InitStmt ρ) (k : List (InitStmt ρ)) :
    Decidable (LineLast M got x k) :=
  match x with
  | .take r _ =>
    inferInstanceAs (Decidable (M.line = some r → k = [] ∧ ∀ u ∈ M.handlerUses, got u = true))
  | .uses _ => .isTrue trivial

omit [DecidableEq ρ] in
theorem grows_lineLast (M : Driver ρ) : Grows (LineLast M) := by
  intro got got' x k h hx
  cases x with
  | uses r => trivial
  | take r f => exact fun hr => ⟨(hx hr).1, fun u hu => h u ((hx hr).2 u hu)⟩

/-- `l` is given back before anything of `us`. -/
def GivesFirst (l : ρ) (us : List ρ) : List ρ → Prop
  | [] => False
  | r :: k => r = l ∨ (r ∉ us ∧ GivesFirst l us k)

instance decidableGivesFirst (l : ρ) (us : List ρ) : (k : List ρ) → Decidable (GivesFirst l us k)
  | [] => .isFalse id
  | r :: k =>
    have := decidableGivesFirst l us k
    inferInstanceAs (Decidable (r = l ∨ (r ∉ us ∧ GivesFirst l us k)))

/-- The exit function gives back the device, and the line before what the handler
uses; the init function takes the line last. -/
structure Driver.Sound (M : Driver ρ) : Prop where
  device : M.device ∈ M.exit
  lineLast : EachWith (LineLast M) (fun _ => false) M.init
  givesFirst : ∀ l ∈ M.line, GivesFirst l M.handlerUses M.exit
  line : ∀ l ∈ M.line, l ∉ M.handlerUses

instance (M : Driver ρ) : Decidable M.Sound :=
  decidable_of_iff (M.device ∈ M.exit ∧ EachWith (LineLast M) (fun _ => false) M.init ∧
      (∀ l ∈ M.line, GivesFirst l M.handlerUses M.exit) ∧ ∀ l ∈ M.line, l ∉ M.handlerUses)
    ⟨fun h => ⟨h.1, h.2.1, h.2.2.1, h.2.2.2⟩,
      fun h => ⟨h.device, h.lineLast, h.givesFirst, h.line⟩⟩

/-- If the init function is about to use something, it has taken it. -/
def UsesObtained (obtained : ρ → Bool) : Phase ρ → Prop
  | .starting (.uses r :: _) => obtained r = true
  | _ => True

instance (obtained : ρ → Bool) : DecidablePred (UsesObtained obtained)
  | .starting (.uses r :: _) => inferInstanceAs (Decidable (obtained r = true))
  | .starting (.take _ _ :: _) => .isTrue trivial
  | .starting [] => .isTrue trivial
  | .absent => .isTrue trivial
  | .live => .isTrue trivial
  | .going _ => .isTrue trivial

/-- What is used is there: neither the file nor the device is one that a failed
load left behind, and what is used has been taken. -/
def InTime (M : Driver ρ) (s : State ι ρ) : Event ι ρ → Prop
  | .opens _ => ∀ n ∈ s.owner M.device, s.failed n = false
  | .uses t r => (∀ n ∈ s.file t, s.failed n = false) ∧ ∀ u ∈ r, s.obtained u = true
  | .closes t => ∀ n ∈ s.file t, s.failed n = false
  | .init _ => UsesObtained s.obtained s.phase
  | _ => True

instance (M : Driver ρ) (s : State ι ρ) : DecidablePred (InTime M s)
  | .opens _ => inferInstanceAs (Decidable (∀ n ∈ s.owner M.device, s.failed n = false))
  | .uses t r => inferInstanceAs (Decidable
      ((∀ n ∈ s.file t, s.failed n = false) ∧ ∀ u ∈ r, s.obtained u = true))
  | .closes t => inferInstanceAs (Decidable (∀ n ∈ s.file t, s.failed n = false))
  | .init _ => inferInstanceAs (Decidable (UsesObtained s.obtained s.phase))
  | .load => .isTrue trivial
  | .remove => .isTrue trivial
  | .exit => .isTrue trivial
  | .interrupt => .isTrue trivial
  | .handles _ => .isTrue trivial
  | .handled => .isTrue trivial

/-- Nothing has been used that is not there. -/
def FaultFree (s : State ι ρ) : Prop := s.fault = false

end Sound

/-! ## The invariant -/

namespace State

variable [DecidableEq ρ]

/-- The module still has to give back `r`. -/
def WillGive (s : State ι ρ) (r : ρ) : Prop :=
  match s.phase with
  | .absent => False
  | .going k => r ∈ k
  | _ => True

/-- The handler of the module may run: all that it uses is there. -/
def Attached (M : Driver ρ) (s : State ι ρ) (l : ρ) : Prop :=
  match s.phase with
  | .absent => False
  | .starting k => k = [] ∧ ∀ u ∈ M.handlerUses, s.obtained u = true
  | .live => ∀ u ∈ M.handlerUses, s.obtained u = true
  | .going k => GivesFirst l M.handlerUses k ∧ ∀ u ∈ M.handlerUses, s.owner u = some s.loads

/-- What holds of the things and their owners. -/
structure Owned (M : Driver ρ) (s : State ι ρ) : Prop where
  le : ∀ r n, s.owner r = some n → n ≤ s.loads
  failed : ∀ n, s.failed n = true → n ≤ s.loads ∧ (n = s.loads → s.phase = .absent)
  obtained : ∀ r, s.owner r = some s.loads → s.obtained r = true
  kept : s.accepts = true → ∀ r, s.obtained r = true → s.owner r = some s.loads
  device : ∀ n, s.owner M.device = some n →
    s.failed n = true ∨ (n = s.loads ∧ s.WillGive M.device)
  line : ∀ l n, M.line = some l → s.owner l = some n → n = s.loads ∧ s.Attached M l
  starting : ∀ k, s.phase = .starting k → EachWith (LineLast M) s.obtained k

/-- The invariant of all runs: open files and running handlers belong to the
module in memory, or to a failed load. -/
structure Inv (M : Driver ρ) (s : State ι ρ) : Prop extends Owned M s where
  file : ∀ t n, s.file t = some n → s.failed n = true ∨ (n = s.loads ∧ s.accepts = true)
  handling : ∀ n, s.handling = some n → ∃ l, M.line = some l ∧ s.owner l = some n

variable {M : Driver ρ} {s : State ι ρ}

/-- Calls and handlers do not change who owns what. -/
theorem Owned.calls (h : Owned M s) (file : ι → Option Nat) (handling : Option Nat)
    (fault : Bool) :
    Owned M { s with file := file, handling := handling, fault := fault } :=
  { h with }

theorem inMemory_iff {n : Nat} : s.inMemory n = true ↔ n = s.loads ∧ s.phase ≠ .absent := by
  rw [inMemory, Bool.and_eq_true, beq_iff_eq, bne_iff_ne]

theorem accepts_inMemory (ha : s.accepts = true) : s.inMemory s.loads = true := by
  refine inMemory_iff.mpr ⟨rfl, fun h => ?_⟩
  rw [accepts, h] at ha
  cases ha

theorem willGive_inMemory {r : ρ} (hw : s.WillGive r) : s.inMemory s.loads = true := by
  refine inMemory_iff.mpr ⟨rfl, fun h => ?_⟩
  rw [WillGive, h] at hw
  exact hw

/-- What is in memory has not failed. -/
theorem Owned.not_failed (h : Owned M s) {n : Nat} (hm : s.inMemory n = true) :
    s.failed n = false := by
  obtain ⟨hn, hp⟩ := inMemory_iff.mp hm
  by_contra hfail
  exact hp ((h.failed n ((Bool.not_eq_false _).mp hfail)).2 hn)

/-- Whatever a handler of the module uses is there. -/
theorem Owned.attached_owner (h : Owned M s) {l : ρ} (ha : s.Attached M l) {u : ρ}
    (hu : u ∈ M.handlerUses) : s.inMemory s.loads = true ∧ s.owner u = some s.loads := by
  unfold Attached at ha
  split at ha
  · exact ha.elim
  · rename_i k hp
    have hacc : s.accepts = true := by rw [accepts, hp]
    exact ⟨accepts_inMemory hacc, h.kept hacc u (ha.2 u hu)⟩
  · rename_i hp
    have hacc : s.accepts = true := by rw [accepts, hp]
    exact ⟨accepts_inMemory hacc, h.kept hacc u (ha u hu)⟩
  · rename_i k hp
    refine ⟨inMemory_iff.mpr ⟨rfl, ?_⟩, ha.2 u hu⟩
    rw [hp]
    nofun

/-! ## What every event keeps -/

variable {s' : State ι ρ}

/-- What holds at each statement of the init function, holds of what has been
taken after every event. -/
theorem eachWith_step [DecidableEq ι] {P : (ρ → Bool) → InitStmt ρ → List (InitStmt ρ) → Prop}
    (hP : Grows P) (hinit : EachWith P (fun _ => false) M.init) {e : Event ι ρ}
    (hinv : ∀ k, s.phase = .starting k → EachWith P s.obtained k) (hs : Step M s e s') :
    ∀ k, s'.phase = .starting k → EachWith P s'.obtained k := by
  cases hs with
  | load hp =>
    rintro k ⟨⟩
    exact hinit
  | returned hp => rintro k ⟨⟩
  | inits hp =>
    rintro k ⟨⟩
    exact (hinv _ hp).2
  | @took r f k hp =>
    rintro _ ⟨⟩
    refine (hinv _ hp).2.mono hP ?_
    cases f with
    | goOn => exact le_update s.obtained r
    | ret v => exact fun u hu => hu
  | wentOn hp =>
    rintro k ⟨⟩
    exact (hinv _ hp).2
  | gaveUp hp =>
    unfold State.returns
    split
    · rintro k ⟨⟩
    · rintro k ⟨⟩
  | remove hp hf => rintro k ⟨⟩
  | gone hp => rintro k ⟨⟩
  | gave hp hwait => rintro k ⟨⟩
  | opened hown hm hacc => exact hinv
  | refused hown hm => exact hinv
  | openedGone hown hm => exact hinv
  | used hf => exact hinv
  | closed hf => exact hinv
  | interrupted hl hown => exact hinv
  | handles hh hr => exact hinv
  | handled => exact hinv

theorem owned_boot (M : Driver ρ) : Owned M (boot : State ι ρ) where
  le _ _ h := by cases h
  failed _ h := by cases h
  obtained _ h := by cases h
  kept h := by cases h
  device _ h := by cases h
  line _ _ _ h := by cases h
  starting _ h := by cases h

/-- The module goes on to phase `p`. -/
theorem Owned.move (h : Owned M s) {p : Phase ρ} (hne : s.phase ≠ .absent)
    (hkept : State.accepts { s with phase := p } = true → s.accepts = true)
    (hdevice : s.WillGive M.device → State.WillGive { s with phase := p } M.device)
    (hline : ∀ l, M.line = some l → s.Attached M l → State.Attached M { s with phase := p } l)
    (hstarting : ∀ k, p = .starting k → EachWith (LineLast M) s.obtained k) :
    Owned M { s with phase := p } where
  le := h.le
  failed n hn := ⟨(h.failed n hn).1, fun heq => absurd ((h.failed n hn).2 heq) hne⟩
  obtained := h.obtained
  kept ha := h.kept (hkept ha)
  device n hn := (h.device n hn).imp id fun hd => ⟨hd.1, hdevice hd.2⟩
  line l n hl hn := ⟨(h.line l n hl hn).1, hline l hl (h.line l n hl hn).2⟩
  starting := hstarting

omit [DecidableEq ρ] in
theorem accepts_of_phase {k : List (InitStmt ρ)} (hp : s.phase = .starting k) :
    s.accepts = true := by
  rw [accepts, hp]

omit [DecidableEq ρ] in
/-- While statements of the init function are left, no interrupts come. -/
theorem not_attached {x : InitStmt ρ} {k : List (InitStmt ρ)} (hp : s.phase = .starting (x :: k))
    {l : ρ} : ¬ s.Attached M l := by
  intro ha
  rw [Attached, hp] at ha
  exact absurd ha.1 (List.cons_ne_nil x k)

/-- The init function goes on behind a statement. -/
theorem Owned.goOn (h : Owned M s) {x : InitStmt ρ} {k : List (InitStmt ρ)}
    (hp : s.phase = .starting (x :: k))
    (hstarting : ∀ k', .starting k = Phase.starting k' → EachWith (LineLast M) s.obtained k') :
    Owned M { s with phase := .starting k } :=
  h.move (by rw [hp]; nofun) (fun _ => accepts_of_phase hp) (fun _ => trivial)
    (fun l _ ha => absurd ha (not_attached hp)) hstarting

/-- The init function returns. -/
theorem Owned.ends (h : Owned M s) {x : InitStmt ρ} {k : List (InitStmt ρ)}
    (hp : s.phase = .starting (x :: k)) (v : Int) : Owned M (s.returns v) := by
  have hne : s.phase ≠ .absent := by rw [hp]; nofun
  unfold State.returns
  split
  · exact h.move hne (fun _ => accepts_of_phase hp) (fun _ => trivial)
      (fun l _ ha => absurd ha (not_attached hp)) fun k' hk' => by cases hk'
  · -- an error: whatever this load has registered stays behind
    exact {
      le := h.le
      failed := by
        intro n hn
        by_cases heq : n = s.loads
        · exact ⟨heq.le, fun _ => rfl⟩
        · have hold : s.failed n = true := (Function.update_of_ne heq _ _).symm.trans hn
          exact ⟨(h.failed n hold).1, fun _ => rfl⟩
      obtained := h.obtained
      kept := fun ha => by cases ha
      device := by
        intro n hn
        refine .inl ?_
        by_cases heq : n = s.loads
        · rw [heq]
          exact Function.update_self _ _ _
        · show Function.update s.failed s.loads true n = true
          rw [Function.update_of_ne heq]
          exact ((h.device n hn).resolve_right fun hd => heq hd.1)
      line := fun l n hl hn => absurd (h.line l n hl hn).2 (not_attached hp)
      starting := fun k' hk' => by cases hk' }

/-- The init function takes `r`. -/
theorem Owned.takes (h : Owned M s) {r : ρ} {f : OnFail} {k : List (InitStmt ρ)}
    (hp : s.phase = .starting (.take r f :: k))
    (hstarting : ∀ k', (took r k s).phase = .starting k' →
      EachWith (LineLast M) (took r k s).obtained k') : Owned M (took r k s) := by
  have hacc := accepts_of_phase hp
  have hown : ∀ u n, (took r k s).owner u = some n →
      (u = r ∧ n = s.loads) ∨ (u ≠ r ∧ s.owner u = some n) := by
    intro u n hn
    by_cases hur : u = r
    · have hval : Function.update s.owner r (some s.loads) u = some n := hn
      rw [hur, Function.update_self] at hval
      exact .inl ⟨hur, (Option.some.inj hval).symm⟩
    · exact .inr ⟨hur, (Function.update_of_ne hur _ _).symm.trans hn⟩
  exact {
    le := by
      intro u n hn
      rcases hown u n hn with ⟨-, rfl⟩ | ⟨-, hold⟩
      · exact le_refl _
      · exact h.le u n hold
    failed := fun n hn => ⟨(h.failed n hn).1, fun heq =>
      absurd ((h.failed n hn).2 heq) (by rw [hp]; nofun)⟩
    obtained := by
      intro u hu
      rcases hown u _ hu with ⟨rfl, -⟩ | ⟨-, hold⟩
      · exact Function.update_self _ _ _
      · exact le_update _ r u (h.obtained u hold)
    kept := by
      intro _ u hu
      by_cases hur : u = r
      · rw [hur]
        exact Function.update_self _ _ _
      · exact (Function.update_of_ne hur _ _).trans
          (h.kept hacc u ((Function.update_of_ne hur _ _).symm.trans hu))
    device := by
      intro n hn
      rcases hown _ n hn with ⟨-, hval⟩ | ⟨-, hold⟩
      · exact .inr ⟨hval, trivial⟩
      · exact (h.device n hold).imp id fun hw => ⟨hw.1, trivial⟩
    line := by
      intro l n hl hn
      rcases hown l n hn with ⟨rfl, hval⟩ | ⟨-, hold⟩
      · -- the line is taken last, behind all that the handler uses
        obtain ⟨hk, huses⟩ := (h.starting _ hp).1 hl
        exact ⟨hval, hk, fun u hu => le_update _ l u (huses u hu)⟩
      · exact absurd (h.line l n hl hold).2 (not_attached hp)
    starting := hstarting }

/-- The exit function gives back `r`. -/
theorem Owned.gives (h : Owned M s) {r : ρ} {k : List ρ}
    (hp : s.phase = .going (r :: k)) : Owned M (gave M r k s) := by
  -- what is still owned was owned before, and is not `r` if the module had it
  have hown : ∀ u n, (gave M r k s).owner u = some n →
      s.owner u = some n ∧ (u = r → n ≠ s.loads ∧ ¬ (M.exclusive r = true ∧ M.line ≠ some r)) := by
    intro u n hn
    simp only [gave] at hn
    split at hn
    · by_cases hur : u = r
      · rw [hur, Function.update_self] at hn
        cases hn
      · exact ⟨(Function.update_of_ne hur _ _).symm.trans hn, fun he => absurd he hur⟩
    · rename_i hno
      refine ⟨hn, fun hur => ?_⟩
      subst hur
      refine ⟨fun heq => hno (.inl ?_), fun hx => hno (.inr hx)⟩
      rw [hn, heq]
  have hkeep : ∀ u, u ≠ r → (gave M r k s).owner u = s.owner u := by
    intro u hur
    simp only [gave]
    split
    · exact Function.update_of_ne hur _ _
    · rfl
  exact {
    le := fun u n hn => h.le u n (hown u n hn).1
    failed := fun n hn => ⟨(h.failed n hn).1, fun heq =>
      absurd ((h.failed n hn).2 heq) (by rw [hp]; nofun)⟩
    obtained := fun u hu => h.obtained u (hown u s.loads hu).1
    kept := fun ha => by cases ha
    device := by
      intro n hn
      obtain ⟨hold, hr⟩ := hown _ n hn
      refine (h.device n hold).imp id fun hw => ⟨hw.1, ?_⟩
      rw [WillGive, hp] at hw
      exact (List.mem_cons.mp hw.2).resolve_left fun he => (hr he).1 hw.1
    line := by
      intro l n hl hn
      obtain ⟨hold, hr⟩ := hown l n hn
      obtain ⟨heq, hatt⟩ := h.line l n hl hold
      rw [Attached, hp] at hatt
      obtain ⟨hfirst, huses⟩ := hatt
      refine ⟨heq, ?_⟩
      -- the line goes before anything that the handler uses
      rcases hfirst with hrl | ⟨hru, hrest⟩
      · exact absurd heq (hr hrl.symm).1
      · refine ⟨hrest, fun u hu => ?_⟩
        have hur : u ≠ r := by
          rintro rfl
          exact hru hu
        exact (hkeep u hur).trans (huses u hu)
    starting := fun k' hk' => by cases hk' }

/-- **Every event keeps what is owned in order.** -/
theorem owned_step [Fintype ι] [DecidableEq ι] (hM : M.Sound) {e : Event ι ρ} (h : Owned M s)
    (hs : Step M s e s') : Owned M s' := by
  have hstarting := eachWith_step (grows_lineLast M) hM.lineLast h.starting hs
  cases hs with
  | load hp =>
    have hno : ∀ u, s.owner u ≠ some (s.loads + 1) := fun u hu =>
      absurd (h.le u _ hu) (Nat.not_succ_le_self _)
    exact {
      le := fun u n hn => (h.le u n hn).trans (Nat.le_succ _)
      failed := fun n hn => ⟨(h.failed n hn).1.trans (Nat.le_succ _), fun heq =>
        absurd (heq ▸ (h.failed n hn).1) (Nat.not_succ_le_self _)⟩
      obtained := fun u hu => absurd hu (hno u)
      kept := fun _ u hu => by cases hu
      device := fun n hn => .inl ((h.device n hn).resolve_right fun hw => by
        rw [WillGive, hp] at hw
        exact hw.2)
      line := fun l n hl hn => by
        have hatt := (h.line l n hl hn).2
        rw [Attached, hp] at hatt
        exact hatt.elim
      starting := hstarting }
  | returned hp =>
    refine h.move (by rw [hp]; nofun) (fun _ => accepts_of_phase hp)
      (fun _ => trivial) (fun l _ ha => ?_) hstarting
    rw [Attached, hp] at ha
    exact ha.2
  | inits hp => exact (h.goOn hp hstarting).calls s.file s.handling _
  | took hp => exact h.takes hp hstarting
  | wentOn hp => exact h.goOn hp hstarting
  | gaveUp hp => exact h.ends hp _
  | remove hp hf =>
    have hacc : s.accepts = true := by rw [accepts, hp]
    refine h.move (by rw [hp]; nofun) (fun ha => by cases ha)
      (fun _ => hM.device) (fun l hl ha => ?_) hstarting
    rw [Attached, hp] at ha
    exact ⟨hM.givesFirst l hl, fun u hu => h.kept hacc u (ha u hu)⟩
  | gone hp =>
    refine h.move (by rw [hp]; nofun) (fun ha => by cases ha)
      (fun hw => ?_) (fun l hl ha => ?_) hstarting
    · rw [WillGive, hp] at hw
      cases hw
    · rw [Attached, hp] at ha
      exact ha.1.elim
  | gave hp hwait => exact h.gives hp
  | opened ho hm ha => exact h.calls _ s.handling s.fault
  | refused ho hm => exact h
  | openedGone ho hm => exact h.calls s.file s.handling _
  | used hf => exact h.calls s.file s.handling _
  | closed hf => exact h.calls _ s.handling _
  | interrupted hl ho => exact h.calls s.file _ s.fault
  | handles hh hr => exact h.calls s.file s.handling _
  | handled => exact h.calls s.file _ s.fault

theorem inv_boot (M : Driver ρ) : Inv M (boot : State ι ρ) where
  toOwned := owned_boot M
  file _ _ h := by cases h
  handling _ h := by cases h

/-- The module goes from one phase to another in which files and handlers that
are the module's may still be. -/
theorem Inv.move (h : Inv M s) (ho : Owned M s') (hfile : s'.file = s.file)
    (hhandling : s'.handling = s.handling)
    (hfailed : ∀ n, s.failed n = true → s'.failed n = true)
    (haccepts : s.accepts = true → ∀ t, s.file t = some s.loads →
      s'.failed s.loads = true ∨ (s.loads = s'.loads ∧ s'.accepts = true))
    (howner : ∀ l n, M.line = some l → s.handling = some n → s.owner l = some n →
      s'.owner l = some n) : Inv M s' where
  toOwned := ho
  file t n hn := by
    rw [hfile] at hn
    rcases h.file t n hn with hfail | ⟨rfl, hacc⟩
    · exact .inl (hfailed n hfail)
    · exact haccepts hacc t hn
  handling n hn := by
    rw [hhandling] at hn
    obtain ⟨l, hl, hown⟩ := h.handling n hn
    exact ⟨l, hl, howner l n hl hn hown⟩

/-- **Every event keeps the invariant.** -/
theorem inv_step [Fintype ι] [DecidableEq ι] (hM : M.Sound) {e : Event ι ρ} (h : Inv M s)
    (hs : Step M s e s') : Inv M s' := by
  have ho := owned_step hM h.toOwned hs
  cases hs with
  | load hp =>
    refine h.move ho rfl rfl (fun _ hn => hn) (fun ha => ?_) fun _ _ _ _ hown => hown
    rw [accepts, hp] at ha
    cases ha
  | returned hp =>
    exact h.move ho rfl rfl (fun _ hn => hn) (fun _ _ _ => .inr ⟨rfl, rfl⟩)
      fun _ _ _ _ hown => hown
  | inits hp =>
    exact h.move ho rfl rfl (fun _ hn => hn) (fun _ _ _ => .inr ⟨rfl, rfl⟩)
      fun _ _ _ _ hown => hown
  | wentOn hp =>
    exact h.move ho rfl rfl (fun _ hn => hn) (fun _ _ _ => .inr ⟨rfl, rfl⟩)
      fun _ _ _ _ hown => hown
  | @took r f k hp =>
    refine h.move ho rfl rfl (fun _ hn => hn) (fun _ _ _ => .inr ⟨rfl, rfl⟩) ?_
    intro l n hl _ hown
    exact absurd (h.line l n hl hown).2 (not_attached hp)
  | @gaveUp r v k hp =>
    unfold State.returns at ho ⊢
    split at ho
    · rename_i hv
      rw [if_pos hv]
      exact h.move ho rfl rfl (fun _ hn => hn) (fun _ _ _ => .inr ⟨rfl, rfl⟩)
        fun _ _ _ _ hown => hown
    · rename_i hv
      rw [if_neg hv]
      exact h.move ho rfl rfl (fun n hn => le_update s.failed s.loads n hn)
        (fun _ _ _ => .inl (Function.update_self _ _ _)) fun _ _ _ _ hown => hown
  | remove hp hf =>
    exact h.move ho rfl rfl (fun _ hn => hn) (fun _ t ht => absurd ht (hf t))
      fun _ _ _ _ hown => hown
  | gone hp =>
    refine h.move ho rfl rfl (fun _ hn => hn) (fun ha => ?_) fun _ _ _ _ hown => hown
    rw [accepts, hp] at ha
    cases ha
  | @gave r k hp hwait =>
    refine h.move ho rfl rfl (fun _ hn => hn) (fun ha => ?_) fun l n hl hh hown => ?_
    · rw [accepts, hp] at ha
      cases ha
    · -- a running handler keeps its line from being given back
      have hlr : l ≠ r := by
        rintro rfl
        rw [hwait hl] at hh
        cases hh
      simp only [gave]
      split
      · exact (Function.update_of_ne hlr _ _).trans hown
      · exact hown
  | @opened t n hown hm hacc =>
    refine ⟨ho, fun u m hu => ?_, h.handling⟩
    by_cases hut : u = t
    · have hval : Function.update s.file t (some n) u = some m := hu
      rw [hut, Function.update_self] at hval
      cases hval
      exact .inr ⟨(inMemory_iff.mp hm).1, hacc⟩
    · exact h.file u m ((Function.update_of_ne hut _ _).symm.trans hu)
  | refused hown hm => exact h
  | openedGone hown hm => exact ⟨ho, h.file, h.handling⟩
  | used hf => exact ⟨ho, h.file, h.handling⟩
  | @closed t n hf =>
    refine ⟨ho, fun u m hu => ?_, h.handling⟩
    have hut : u ≠ t := by
      rintro rfl
      have hval : Function.update s.file u none u = some m := hu
      rw [Function.update_self] at hval
      cases hval
    exact h.file u m ((Function.update_of_ne hut _ _).symm.trans hu)
  | @interrupted l n hl hown =>
    refine ⟨ho, h.file, fun m hm => ?_⟩
    cases hm
    exact ⟨l, hl, hown⟩
  | handles hh hr => exact ⟨ho, h.file, h.handling⟩
  | handled => exact ⟨ho, h.file, fun m hm => by cases hm⟩

/-! ## Faults -/

/-- An open file that no failed load left behind is the module's, which is there. -/
theorem Inv.file_inMemory (h : Inv M s) {t : ι} {n : Nat} (hf : s.file t = some n)
    (hn : s.failed n = false) : n = s.loads ∧ s.accepts = true ∧ s.inMemory n = true := by
  rcases h.file t n hf with hfail | ⟨rfl, hacc⟩
  · rw [hn] at hfail
    cases hfail
  · exact ⟨rfl, hacc, accepts_inMemory hacc⟩

/-- **What comes in time finds what it uses.** -/
theorem Inv.touches [Fintype ι] [DecidableEq ι] (h : Inv M s) {e : Event ι ρ}
    (ht : InTime M s e) (hs : Step M s e s') : s'.fault = s.fault := by
  have hgood : ∀ b, b = true → (s.fault || !b) = s.fault := by
    rintro b rfl
    exact Bool.or_false _
  cases hs with
  | load hp => rfl
  | returned hp => rfl
  | @inits ok r k hp =>
    have hobtained : s.obtained r = true := by
      rw [InTime, hp] at ht
      exact ht
    exact hgood _ (beq_iff_eq.mpr (h.kept (accepts_of_phase hp) r hobtained))
  | took hp => rfl
  | wentOn hp => rfl
  | gaveUp hp =>
    unfold State.returns
    split
    · rfl
    · rfl
  | remove hp hf => rfl
  | gone hp => rfl
  | gave hp hwait => rfl
  | opened hown hm hacc => rfl
  | refused hown hm => rfl
  | @openedGone t n hown hm =>
    -- the device is a failed load's, or its module is in memory
    rcases h.device n hown with hfail | ⟨rfl, hw⟩
    · rw [ht n hown] at hfail
      cases hfail
    · rw [willGive_inMemory hw] at hm
      cases hm
  | @used t n r hf =>
    obtain ⟨rfl, hacc, hmem⟩ := h.file_inMemory hf (ht.1 n hf)
    refine hgood _ ?_
    rw [hmem, Bool.true_and]
    cases r with
    | none => rfl
    | some u => exact beq_iff_eq.mpr (h.kept hacc u (ht.2 u rfl))
  | @closed t n hf => exact hgood _ (h.file_inMemory hf (ht n hf)).2.2
  | interrupted hl hown => rfl
  | @handles r n hh hr =>
    obtain ⟨l, hl, hown⟩ := h.handling n hh
    obtain ⟨rfl, hatt⟩ := h.line l n hl hown
    obtain ⟨hmem, howner⟩ := h.attached_owner hatt hr
    refine hgood _ ?_
    rw [hmem, howner, beq_self_eq_true]
    rfl
  | handled => rfl

/-- **What does not come in time is a fault.** -/
theorem Inv.breaks [Fintype ι] [DecidableEq ι] (h : Inv M s) {e : Event ι ρ}
    (ht : ¬ InTime M s e) (hs : Step M s e s') : s'.fault = true := by
  have hbad : ∀ b, b = false → (s.fault || !b) = true := by
    rintro b rfl
    exact Bool.or_true _
  -- what the module has not taken, it does not have
  have hlacks : ∀ r, s.obtained r ≠ true → (s.owner r == some s.loads) = false := by
    intro r hr
    rw [beq_eq_false_iff_ne]
    exact fun hown => hr (h.obtained r hown)
  have hmem : ∀ {x : Option Nat} {n}, x = some n → s.inMemory n = true →
      ∀ m ∈ x, s.failed m = false := by
    rintro _ n rfl hm m ⟨⟩
    exact h.not_failed hm
  cases hs with
  | @inits ok r k hp =>
    rw [InTime, hp] at ht
    exact hbad _ (hlacks r ht)
  | @returned ok hp =>
    rw [InTime, hp] at ht
    exact absurd trivial ht
  | @took r f k hp =>
    rw [InTime, hp] at ht
    exact absurd trivial ht
  | @wentOn r k hp =>
    rw [InTime, hp] at ht
    exact absurd trivial ht
  | @gaveUp r v k hp =>
    rw [InTime, hp] at ht
    exact absurd trivial ht
  | opened hown hm hacc => exact absurd (hmem hown hm) ht
  | refused hown hm => exact absurd (hmem hown hm) ht
  | openedGone hown hm => exact Bool.or_true _
  | @used t n r hf =>
    refine hbad _ ?_
    by_contra hgood
    rw [Bool.not_eq_false, Bool.and_eq_true] at hgood
    refine ht ⟨hmem hf hgood.1, ?_⟩
    rintro u ⟨⟩
    obtain ⟨rfl, -⟩ := inMemory_iff.mp hgood.1
    exact h.obtained u (beq_iff_eq.mp hgood.2)
  | @closed t n hf =>
    refine hbad _ ?_
    by_contra hgood
    exact ht (hmem hf ((Bool.not_eq_false _).mp hgood))
  | load hp => exact absurd trivial ht
  | remove hp hf => exact absurd trivial ht
  | gone hp => exact absurd trivial ht
  | gave hp hwait => exact absurd trivial ht
  | interrupted hl hown => exact absurd trivial ht
  | handles hh hr => exact absurd trivial ht
  | handled => exact absurd trivial ht

end State

/-! ## Runs -/

section Runs

variable [Fintype ι] [DecidableEq ι] [DecidableEq ρ] {M : Driver ρ} {es : List (Event ι ρ)}
  {s : State ι ρ}

/-- **A module without gaps is free of faults exactly where everything comes in
time**, over all runs. -/
theorem fault_free_iff (hM : M.Sound) (hr : run (next M) boot es = some s) :
    Along (next M) FaultFree boot es ↔ StepsMeet (next M) (InTime M) boot es :=
  along_iff_stepsMeet (fun hB hs => inv_step hM hB (step_of_next hs))
    (fun hB hP hC hs => (hB.touches hC (step_of_next hs)).trans hP)
    (fun hB _ hC hs hP => Bool.false_ne_true
      (hP.symm.trans (hB.breaks hC (step_of_next hs))))
    (inv_boot M) rfl hr

/-- A statement that uses something uses what has surely been taken. -/
def UsesTaken (got : ρ → Bool) : InitStmt ρ → List (InitStmt ρ) → Prop
  | .uses r, _ => got r = true
  | .take _ _, _ => True

instance (got : ρ → Bool) (x : InitStmt ρ) (k : List (InitStmt ρ)) :
    Decidable (UsesTaken got x k) :=
  match x with
  | .uses r => inferInstanceAs (Decidable (got r = true))
  | .take _ _ => .isTrue trivial

/-- The statement does not make the init function return an error. -/
def NoError : InitStmt ρ → Prop
  | .take _ (.ret v) => 0 ≤ v
  | _ => True

instance : (x : InitStmt ρ) → Decidable (NoError x)
  | .take _ (.ret v) => inferInstanceAs (Decidable (0 ≤ v))
  | .take _ .goOn => .isTrue trivial
  | .uses _ => .isTrue trivial

/-- **An init function that always uses what it has taken is in time by itself.** -/
theorem init_in_time (hinit : EachWith UsesTaken (fun _ => false) M.init)
    (hr : run (next M) boot es = some s) (ok : Bool) : InTime M s (.init ok) := by
  have hgrows : Grows (UsesTaken (ρ := ρ)) := by
    intro got got' x k h hx
    cases x with
    | uses r => exact h r hx
    | take r f => trivial
  have hat := run_inv (I := fun s : State ι ρ => ∀ k, s.phase = .starting k →
    EachWith UsesTaken s.obtained k)
    (fun hinv hs => eachWith_step hgrows hinit hinv (step_of_next hs)) (fun k hk => by cases hk) hr
  show UsesObtained s.obtained s.phase
  unfold UsesObtained
  split
  · rename_i r k hp
    exact (hat _ hp).1
  · trivial

/-- **An init function that never returns an error leaves nothing behind.** -/
theorem never_fails (hinit : EachWith (fun _ x _ => NoError x) (fun _ => false) M.init)
    (hr : run (next M) boot es = some s) : ∀ n, s.failed n = false := by
  refine (run_inv (I := fun s => (∀ k, s.phase = .starting k →
    EachWith (fun _ x _ => NoError x) s.obtained k) ∧ ∀ n, s.failed n = false) ?_ ⟨?_, ?_⟩ hr).2
  · rintro s e s' ⟨hat, hnone⟩ hs
    have hstep := step_of_next hs
    refine ⟨eachWith_step (fun _ _ _ _ _ hx => hx) hinit hat hstep, ?_⟩
    cases hstep with
    | @gaveUp r v k hp =>
      have hv : 0 ≤ v := (hat _ hp).1
      rw [State.returns, if_pos hv]
      exact hnone
    | load hp => exact hnone
    | returned hp => exact hnone
    | inits hp => exact hnone
    | took hp => exact hnone
    | wentOn hp => exact hnone
    | remove hp hf => exact hnone
    | gone hp => exact hnone
    | gave hp hwait => exact hnone
    | opened hown hm hacc => exact hnone
    | refused hown hm => exact hnone
    | openedGone hown hm => exact hnone
    | used hf => exact hnone
    | closed hf => exact hnone
    | interrupted hl hown => exact hnone
    | handles hh hr => exact hnone
    | handled => exact hnone
  · rintro k ⟨⟩
  · exact fun n => rfl

end Runs

end Esystem.ModuleLife
