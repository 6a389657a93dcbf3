import Esystem.Core.Family
import Esystem.Core.Machine

/-!
# Words that are read, changed and written back

Processes update registers. An update reads the word of a register, changes it, and
writes it back; another process can come in between, and what it wrote is then
written over. Which facts about the registers survive that depends on what the
updates do to them:

- `keeps_run`: a fact that no update changes always holds;
- `settled_run`: a fact that some updates establish and no other changes holds from
  the first of these on, if each process makes one of them before it updates the
  register otherwise;
- `stays_iff`: where processes update the register without that, it holds from then
  on exactly if it held before, or none of them was in the middle of an update.
-/

namespace Esystem.Rmw

variable {ι ρ W : Type}

/-- An update of register `reg`. -/
structure Update (ρ W : Type) where
  reg : ρ
  change : W → W

/-- A process: the updates that it has made, those before it, and the word that it
has read for the first of these. -/
structure Proc (ρ W : Type) where
  past : List (Update ρ W)
  todo : List (Update ρ W)
  word : Option W

/-- The update whose word the process has read and not written. -/
def Proc.pending (p : Proc ρ W) : Option (Update ρ W) :=
  p.word.bind fun _ => p.todo.head?

structure State (ι ρ W : Type) where
  mem : ρ → W
  proc : ι → Proc ρ W

/-- The processes before their updates. -/
def start (prog : ι → List (Update ρ W)) (mem : ρ → W) : State ι ρ W where
  mem := mem
  proc i := ⟨[], prog i, none⟩

variable [DecidableEq ι] [DecidableEq ρ]

/-- A process reads or writes. -/
def next (s : State ι ρ W) (i : ι) : Option (State ι ρ W) :=
  match s.proc i with
  | ⟨_, [], _⟩ => none
  | ⟨past, u :: k, none⟩ =>
    some { s with proc := Function.update s.proc i ⟨past, u :: k, some (s.mem u.reg)⟩ }
  | ⟨past, u :: k, some w⟩ =>
    some {
      mem := Function.update s.mem u.reg (u.change w)
      proc := Function.update s.proc i ⟨past ++ [u], k, none⟩ }

/-- What a process does, case by case. -/
inductive Step (s : State ι ρ W) (i : ι) : State ι ρ W → Prop where
  | read {past : List (Update ρ W)} {u : Update ρ W} {k : List (Update ρ W)}
      (h : s.proc i = ⟨past, u :: k, none⟩) :
      Step s i { s with proc := Function.update s.proc i ⟨past, u :: k, some (s.mem u.reg)⟩ }
  | write {past : List (Update ρ W)} {u : Update ρ W} {k : List (Update ρ W)} {w : W}
      (h : s.proc i = ⟨past, u :: k, some w⟩) :
      Step s i {
        mem := Function.update s.mem u.reg (u.change w)
        proc := Function.update s.proc i ⟨past ++ [u], k, none⟩ }

variable {s s' : State ι ρ W} {i : ι} {prog : ι → List (Update ρ W)} {mem : ρ → W}
  {sched : List ι}

theorem step_of_next (h : next s i = some s') : Step s i s' := by
  unfold next at h
  split at h
  · cases h
  · rename_i hp
    cases h
    exact .read hp
  · rename_i hp
    cases h
    exact .write hp

/-- The processes are on their programs. -/
def OnProg (prog : ι → List (Update ρ W)) (s : State ι ρ W) : Prop :=
  ∀ i, (s.proc i).past ++ (s.proc i).todo = prog i

omit [DecidableEq ι] [DecidableEq ρ] in
theorem onProg_start (prog : ι → List (Update ρ W)) (mem : ρ → W) : OnProg prog (start prog mem) :=
  fun _ => rfl

theorem onProg_step (h : OnProg prog s) (hs : next s i = some s') : OnProg prog s' := by
  have hprog := h i
  cases step_of_next hs with
  | read hp =>
    rw [hp] at hprog
    exact forall_update (P := fun j (p : Proc ρ W) => p.past ++ p.todo = prog j) h hprog
  | @write past u k w hp =>
    rw [hp] at hprog
    refine forall_update (P := fun j (p : Proc ρ W) => p.past ++ p.todo = prog j) h ?_
    rwa [List.append_assoc]

omit [DecidableEq ι] [DecidableEq ρ] in
/-- The update a process is at is one of its program. -/
theorem OnProg.at (h : OnProg prog s) {past k : List (Update ρ W)} {u : Update ρ W}
    {w : Option W} (hp : s.proc i = ⟨past, u :: k, w⟩) : prog i = past ++ u :: k := by
  have hprog := h i
  rw [hp] at hprog
  exact hprog.symm

omit [DecidableEq ι] [DecidableEq ρ] in
theorem OnProg.mem_of_at (h : OnProg prog s) {past k : List (Update ρ W)} {u : Update ρ W}
    {w : Option W} (hp : s.proc i = ⟨past, u :: k, w⟩) : u ∈ prog i := by
  rw [h.at hp]
  exact List.mem_append_right past List.mem_cons_self

/-- `P` holds of the update the process is at and the word it has read for it. -/
def Proc.Holds (P : Update ρ W → W → Prop) (p : Proc ρ W) : Prop :=
  ∀ u ∈ p.todo.head?, ∀ w ∈ p.word, P u w

omit [DecidableEq ι] [DecidableEq ρ] in
theorem holds_at {P : Update ρ W → W → Prop} {past k : List (Update ρ W)} {u : Update ρ W} {w : W}
    (h : ∀ i, (s.proc i).Holds P) (hp : s.proc i = ⟨past, u :: k, some w⟩) : P u w := by
  have hi := h i
  rw [hp] at hi
  exact hi u rfl w rfl

omit [DecidableEq ρ] in
/-- Reading gives a word to the process that reads. -/
theorem holds_read {P : Update ρ W → W → Prop} {past k : List (Update ρ W)} {u : Update ρ W}
    {w : W} (h : ∀ i, (s.proc i).Holds P) (hw : P u w) :
    ∀ j, (Function.update s.proc i ⟨past, u :: k, some w⟩ j).Holds P := by
  refine forall_update (P := fun _ (p : Proc ρ W) => p.Holds P) h ?_
  rintro u' hu w' hw'
  cases hu
  cases hw'
  exact hw

omit [DecidableEq ρ] in
/-- Writing takes the word of a process away. -/
theorem holds_write {P : Update ρ W → W → Prop} {past k : List (Update ρ W)}
    (h : ∀ i, (s.proc i).Holds P) :
    ∀ j, (Function.update s.proc i ⟨past, k, none⟩ j).Holds P :=
  forall_update (P := fun _ (p : Proc ρ W) => p.Holds P) h fun _ _ _ hw => by cases hw

/-! ## What no update changes -/

/-- `P` holds of the words in the registers and of those that have been read. -/
structure Everywhere (P : ρ → W → Prop) (s : State ι ρ W) : Prop where
  mem : ∀ r, P r (s.mem r)
  words : ∀ i, (s.proc i).Holds fun u w => P u.reg w

omit [DecidableEq ι] [DecidableEq ρ] in
theorem everywhere_start {P : ρ → W → Prop} (prog : ι → List (Update ρ W))
    (h : ∀ r, P r (mem r)) : Everywhere P (start prog mem) where
  mem := h
  words _ _ _ _ hw := by cases hw

theorem everywhere_step {P : ρ → W → Prop} (hon : OnProg prog s)
    (hP : ∀ i, ∀ u ∈ prog i, ∀ w, P u.reg w → P u.reg (u.change w)) (h : Everywhere P s)
    (hs : next s i = some s') : Everywhere P s' := by
  cases step_of_next hs with
  | read hp => exact ⟨h.mem, holds_read h.words (h.mem _)⟩
  | write hp =>
    exact ⟨forall_update h.mem (hP i _ (hon.mem_of_at hp) _ (holds_at h.words hp)),
      holds_write h.words⟩

/-- **What no update changes always holds.** -/
theorem keeps_run {P : ρ → W → Prop}
    (hP : ∀ i, ∀ u ∈ prog i, ∀ w, P u.reg w → P u.reg (u.change w)) (h : ∀ r, P r (mem r))
    (hr : run next (start prog mem) sched = some s) (r : ρ) : P r (s.mem r) := by
  have hboth := run_inv (I := fun s => OnProg prog s ∧ Everywhere P s)
    (fun h hs => ⟨onProg_step h.1 hs, everywhere_step h.1 hP h.2 hs⟩)
    ⟨onProg_start prog mem, everywhere_start prog h⟩ hr
  exact hboth.2.mem r

/-! ## What some updates settle -/

/-- Some process has made an update of the kind `sets`. -/
def Made (sets : Update ρ W → Bool) (procs : ι → Proc ρ W) : Prop :=
  ∃ i, ∃ u ∈ (procs i).past, sets u = true

instance [Fintype ι] (sets : Update ρ W → Bool) (procs : ι → Proc ρ W) :
    Decidable (Made sets procs) :=
  inferInstanceAs (Decidable (∃ i, ∃ u ∈ (procs i).past, sets u = true))

variable {sets : Update ρ W → Bool} {r : ρ} {Q : W → Prop}

omit [DecidableEq ρ] in
/-- Whose updates they are. -/
theorem made_update (procs : ι → Proc ρ W) (i : ι) (p : Proc ρ W) :
    Made sets (Function.update procs i p) ↔
      (∃ u ∈ p.past, sets u = true) ∨ ∃ j, j ≠ i ∧ ∃ u ∈ (procs j).past, sets u = true :=
  Function.exists_update_iff procs fun _ (p : Proc ρ W) => ∃ u ∈ p.past, sets u = true

omit [DecidableEq ρ] in
/-- Updates are made by writing. -/
theorem made_same {procs : ι → Proc ρ W} {i : ι} {p : Proc ρ W} (hp : p.past = (procs i).past) :
    Made sets (Function.update procs i p) ↔ Made sets procs := by
  have hself : Made sets (Function.update procs i (procs i)) ↔ _ := made_update procs i (procs i)
  rw [Function.update_eq_self] at hself
  rw [made_update, hp, hself]

omit [DecidableEq ρ] in
theorem made_write {procs : ι → Proc ρ W} {i : ι} {p : Proc ρ W} {u : Update ρ W}
    (hp : p.past = (procs i).past ++ [u]) :
    Made sets (Function.update procs i p) ↔ Made sets procs ∨ sets u = true := by
  have hself : Made sets (Function.update procs i (procs i)) ↔ _ := made_update procs i (procs i)
  rw [Function.update_eq_self] at hself
  rw [made_update, hp, hself]
  simp only [List.mem_append, List.mem_singleton, or_and_right, exists_or, exists_eq_left]
  exact or_right_comm

omit [DecidableEq ι] in
/-- A register behind an update of this register or another one. -/
theorem holds_update {mem : ρ → W} {u : Update ρ W} {w : W} (hin : u.reg = r → Q (u.change w))
    (hout : u.reg ≠ r → Q (mem r)) : Q (Function.update mem u.reg (u.change w) r) := by
  by_cases hreg : u.reg = r
  · subst hreg
    rw [Function.update_self]
    exact hin rfl
  · rw [Function.update_of_ne (Ne.symm hreg)]
    exact hout hreg

/-- The updates `sets` of register `r` establish `Q`, no other update undoes it, and
each process makes one of them before it updates the register otherwise. -/
structure Settles (sets : Update ρ W → Bool) (r : ρ) (Q : W → Prop)
    (prog : ι → List (Update ρ W)) : Prop where
  reg : ∀ i, ∀ u ∈ prog i, sets u = true → u.reg = r
  establish : ∀ i, ∀ u ∈ prog i, sets u = true → ∀ w, Q (u.change w)
  keeps : ∀ i, ∀ u ∈ prog i, u.reg = r → ∀ w, Q w → Q (u.change w)
  first : ∀ i past u k, prog i = past ++ u :: k → u.reg = r →
    sets u = true ∨ ∃ v ∈ past, sets v = true

/-- From the first of these updates on, `Q` holds of the register and of what has
been read for other updates. -/
structure Settled (sets : Update ρ W → Bool) (r : ρ) (Q : W → Prop) (s : State ι ρ W) : Prop where
  mem : Made sets s.proc → Q (s.mem r)
  words : ∀ i, (s.proc i).Holds fun u w => u.reg = r → sets u = true ∨ Q w

omit [DecidableEq ι] [DecidableEq ρ] in
theorem settled_start (prog : ι → List (Update ρ W)) (mem : ρ → W) :
    Settled sets r Q (start prog mem) where
  mem := by
    rintro ⟨i, u, hu, -⟩
    cases hu
  words _ _ _ _ hw := by cases hw

theorem settled_step (hprog : Settles sets r Q prog) (hon : OnProg prog s)
    (h : Settled sets r Q s) (hs : next s i = some s') : Settled sets r Q s' := by
  cases step_of_next hs with
  | @read past u k hp =>
    refine ⟨fun hmade => h.mem ((made_same (by rw [hp])).mp hmade), holds_read h.words ?_⟩
    rintro rfl
    rcases hprog.first i past u k (hon.at hp) rfl with hset | ⟨v, hv, hset⟩
    · exact .inl hset
    · exact .inr (h.mem ⟨i, v, by rwa [hp], hset⟩)
  | @write past u k w hp =>
    have hmem := hon.mem_of_at hp
    refine ⟨fun hmade => holds_update (fun hreg => ?_) (fun hreg => ?_), holds_write h.words⟩
    · -- the word may be old, but the process has made one of these updates before
      rcases holds_at h.words hp hreg with hset | hQ
      · exact hprog.establish i u hmem hset w
      · exact hprog.keeps i u hmem hreg w hQ
    · rcases (made_write (by rw [hp])).mp hmade with hbefore | hset
      · exact h.mem hbefore
      · exact absurd (hprog.reg i u hmem hset) hreg

/-- **What has been settled stays so**, whatever overlaps. -/
theorem settled_run (hprog : Settles sets r Q prog)
    (hr : run next (start prog mem) sched = some s) (hmade : Made sets s.proc) :
    Q (s.mem r) := by
  have hboth := run_inv (I := fun s => OnProg prog s ∧ Settled sets r Q s)
    (fun h hs => ⟨onProg_step h.1 hs, settled_step hprog h.1 h.2 hs⟩)
    ⟨onProg_start prog mem, settled_start prog mem⟩ hr
  exact hboth.2.mem hmade

/-! ## What others can undo -/

/-- The updates `sets` of register `r` establish `Q`; the others neither establish it
nor undo it. -/
structure Marks (sets : Update ρ W → Bool) (r : ρ) (Q : W → Prop)
    (prog : ι → List (Update ρ W)) : Prop where
  reg : ∀ i, ∀ u ∈ prog i, sets u = true → u.reg = r
  establish : ∀ i, ∀ u ∈ prog i, sets u = true → ∀ w, Q (u.change w)
  others : ∀ i, ∀ u ∈ prog i, u.reg = r → sets u = false → ∀ w, Q (u.change w) ↔ Q w

/-- From the first update `sets` on, `Q` holds of the register. -/
def Stays (sets : Update ρ W → Bool) (r : ρ) (Q : W → Prop) (s : State ι ρ W) : Prop :=
  Made sets s.proc → Q (s.mem r)

/-- If process `i` is about to make the first update `sets`, no process is in the
middle of another update of the register. -/
def Apart (sets : Update ρ W → Bool) (r : ρ) (s : State ι ρ W) (i : ι) : Prop :=
  (∃ u ∈ (s.proc i).pending, sets u = true) → Made sets s.proc ∨
    ∀ j, ∀ u ∈ (s.proc j).pending, u.reg = r → sets u = true

instance [Fintype ι] (sets : Update ρ W → Bool) (r : ρ) (s : State ι ρ W) (i : ι) :
    Decidable (Apart sets r s i) :=
  inferInstanceAs (Decidable ((∃ u ∈ (s.proc i).pending, sets u = true) →
    Made sets s.proc ∨ ∀ j, ∀ u ∈ (s.proc j).pending, u.reg = r → sets u = true))

/-- From the first update `sets` on, `Q` holds of the register and of what has been
read for other updates. -/
structure Marked (sets : Update ρ W → Bool) (r : ρ) (Q : W → Prop) (s : State ι ρ W) : Prop where
  mem : Made sets s.proc → Q (s.mem r)
  words : Made sets s.proc → ∀ i, (s.proc i).Holds fun u w => u.reg = r → sets u = false → Q w

omit [DecidableEq ι] [DecidableEq ρ] in
theorem marked_start (prog : ι → List (Update ρ W)) (mem : ρ → W) :
    Marked sets r Q (start prog mem) where
  mem := by
    rintro ⟨i, u, hu, -⟩
    cases hu
  words _ _ _ _ _ hw := by cases hw

omit [DecidableEq ι] [DecidableEq ρ] in
theorem pending_at {past k : List (Update ρ W)} {u : Update ρ W} {w : W}
    (hp : s.proc i = ⟨past, u :: k, some w⟩) : u ∈ (s.proc i).pending := by
  rw [hp]
  rfl

/-- Updates that keep apart keep `Q`. -/
theorem marked_step (hprog : Marks sets r Q prog) (hon : OnProg prog s) (h : Marked sets r Q s)
    (hC : Apart sets r s i) (hs : next s i = some s') : Marked sets r Q s' := by
  cases step_of_next hs with
  | @read past u k hp =>
    have hsame : Made sets (Function.update s.proc i ⟨past, u :: k, some (s.mem u.reg)⟩) ↔
        Made sets s.proc := made_same (by rw [hp])
    refine ⟨fun hmade => h.mem (hsame.mp hmade), fun hmade => ?_⟩
    refine holds_read (h.words (hsame.mp hmade)) ?_
    rintro rfl -
    exact h.mem (hsame.mp hmade)
  | @write past u k w hp =>
    have hmem := hon.mem_of_at hp
    have hmade' : Made sets (Function.update s.proc i ⟨past ++ [u], k, none⟩) ↔
        Made sets s.proc ∨ sets u = true := made_write (by rw [hp])
    constructor
    · intro hmade
      refine holds_update (fun hreg => ?_) fun hreg => ?_
      · cases hset : sets u with
        | true => exact hprog.establish i u hmem hset w
        | false =>
          have hbefore := (hmade'.mp hmade).resolve_right (by rw [hset]; exact Bool.false_ne_true)
          refine (hprog.others i u hmem hreg hset w).mpr ?_
          exact holds_at (h.words hbefore) hp hreg hset
      · rcases hmade'.mp hmade with hbefore | hset
        · exact h.mem hbefore
        · exact absurd (hprog.reg i u hmem hset) hreg
    · intro hmade
      refine holds_write ?_
      by_cases hbefore : Made sets s.proc
      · exact h.words hbefore
      · -- the first of these updates: nobody is in the middle of another one
        have hset := (hmade'.mp hmade).resolve_left hbefore
        have hapart := (hC ⟨u, pending_at hp, hset⟩).resolve_left hbefore
        intro j v hv w' hw' hreg hnot
        have hpend : v ∈ (s.proc j).pending := by
          rw [Proc.pending, hw']
          exact hv
        rw [hapart j v hpend hreg] at hnot
        cases hnot

/-- Only process `i` moves. -/
theorem proc_of_ne {j : ι} (hj : j ≠ i) (hs : next s i = some s') : s'.proc j = s.proc j := by
  cases step_of_next hs with
  | read hp => exact Function.update_of_ne hj ..
  | write hp => exact Function.update_of_ne hj ..

/-- What has been made stays made. -/
theorem made_step (h : Made sets s.proc) (hs : next s i = some s') : Made sets s'.proc := by
  cases step_of_next hs with
  | read hp => exact (made_same (by rw [hp])).mpr h
  | write hp => exact (made_write (by rw [hp])).mpr (.inl h)

variable {t : State ι ρ W}

/-- A process in the middle of an update that will undo `Q` undoes it. -/
theorem undone {j : ι} {past k : List (Update ρ W)} {u : Update ρ W} {w : W}
    (hmade : Made sets s.proc) (hp : s.proc j = ⟨past, u :: k, some w⟩) (hreg : u.reg = r)
    (hQ : ¬ Q (u.change w)) (hr : run next s sched = some t) (hdone : (t.proc j).todo = []) :
    ¬ Along next (Stays sets r Q) s sched := by
  induction sched generalizing s with
  | nil =>
    cases hr
    rw [hp] at hdone
    cases hdone
  | cons i sched ih =>
    obtain ⟨m, hm, hrest⟩ := run_cons_inv hr
    rintro ⟨-, halong⟩
    by_cases hij : i = j
    · -- it writes what it has made of the old word
      subst hij
      have hlast := (halong m hm).head (made_step hmade hm)
      cases step_of_next hm with
      | read hp' => cases hp.symm.trans hp'
      | write hp' =>
        cases hp.symm.trans hp'
        subst hreg
        have hself : Function.update s.mem u.reg (u.change w) u.reg = u.change w :=
          Function.update_self ..
        exact hQ (hself ▸ hlast)
    · have hj := proc_of_ne (Ne.symm hij) hm
      exact ih (made_step hmade hm) (hj.trans hp) hrest (halong m hm)

/-- Before the first update `sets`, `Q` does not hold anywhere. -/
def Nowhere (sets : Update ρ W → Bool) (r : ρ) (Q : W → Prop) (s : State ι ρ W) : Prop :=
  ¬ Made sets s.proc → ¬ Q (s.mem r) ∧
    ∀ i, (s.proc i).Holds fun u w => u.reg = r → sets u = false → ¬ Q w

theorem nowhere_step (hprog : Marks sets r Q prog) (hon : OnProg prog s)
    (h : Nowhere sets r Q s) (hs : next s i = some s') : Nowhere sets r Q s' := by
  intro hmade
  obtain ⟨hmem, hwords⟩ := h fun hbefore => hmade (made_step hbefore hs)
  cases step_of_next hs with
  | @read past u k hp =>
    refine ⟨hmem, holds_read hwords ?_⟩
    rintro rfl -
    exact hmem
  | @write past u k w hp =>
    refine ⟨holds_update (Q := fun w => ¬ Q w) (fun hreg => ?_) fun _ => hmem,
      holds_write hwords⟩
    have hset : sets u = false := by
      rw [Bool.eq_false_iff]
      exact fun hset => hmade ((made_write (by rw [hp])).mpr (.inr hset))
    rw [hprog.others i u (hon.mem_of_at hp) hreg hset]
    exact holds_at hwords hp hreg hset

omit [DecidableEq ι] [DecidableEq ρ] in
theorem at_of_pending {u : Update ρ W} (h : u ∈ (s.proc i).pending) :
    ∃ past k w, s.proc i = ⟨past, u :: k, some w⟩ := by
  unfold Proc.pending at h
  match hp : s.proc i, h with
  | ⟨past, v :: k, some w⟩, h =>
    cases h
    exact ⟨past, k, w, rfl⟩

/-- Where `Q` did not hold before and stays from the first update `sets` on, nobody
was in the middle of another update. -/
theorem apart_of_along (hprog : Marks sets r Q prog) (hon : OnProg prog s)
    (hnowhere : Nowhere sets r Q s) (hr : run next s sched = some t)
    (hdone : ∀ i, (t.proc i).todo = []) (halong : Along next (Stays sets r Q) s sched) :
    StepsMeet next (Apart sets r) s sched := by
  induction sched generalizing s with
  | nil => trivial
  | cons i sched ih =>
    obtain ⟨m, hm, hrest⟩ := run_cons_inv hr
    refine ⟨?_, fun t' ht' => ?_⟩
    · rintro ⟨u, hu, hset⟩
      by_cases hmade : Made sets s.proc
      · exact .inl hmade
      · refine .inr fun j v hv hreg => ?_
        -- a process that is in the middle of another update will undo `Q`
        by_contra hnot
        obtain ⟨past, k, w, hp⟩ := at_of_pending hu
        obtain ⟨past', k', w', hp'⟩ := at_of_pending hv
        have hji : j ≠ i := by
          rintro rfl
          cases hp.symm.trans hp'
          exact hnot hset
        have hnot' : sets v = false := by simpa using hnot
        have hQ : ¬ Q (v.change w') := by
          rw [hprog.others j v (hon.mem_of_at hp') hreg hnot']
          exact holds_at (hnowhere hmade).2 hp' hreg hnot'
        have hnow : Made sets m.proc := by
          cases step_of_next hm with
          | read hq => cases hp.symm.trans hq
          | write hq =>
            cases hp.symm.trans hq
            exact (made_write (by rw [hp])).mpr (.inr hset)
        exact undone hnow ((proc_of_ne hji hm).trans hp') hreg hQ hrest (hdone j) (halong.2 m hm)
    · cases hm.symm.trans ht'
      exact ih (onProg_step hon hm) (nowhere_step hprog hon hnowhere hm) hrest (halong.2 m hm)

/-- **What others can undo**: once all updates have been made, `Q` has held from the
first update `sets` on exactly if it held before, or nobody was in the middle of
another update then. -/
theorem stays_iff (hprog : Marks sets r Q prog)
    (hr : run next (start prog mem) sched = some s) (hdone : ∀ i, (s.proc i).todo = []) :
    Along next (Stays sets r Q) (start prog mem) sched ↔
      Q (mem r) ∨ StepsMeet next (Apart sets r) (start prog mem) sched := by
  constructor
  · intro halong
    by_cases hQ : Q (mem r)
    · exact .inl hQ
    · refine .inr (apart_of_along hprog (onProg_start prog mem) (fun _ => ⟨hQ, ?_⟩) hr hdone halong)
      intro _ _ _ _ hw
      cases hw
  · rintro (hQ | hapart)
    · -- what holds before and is undone by no update holds throughout
      have hkeep : ∀ i, ∀ u ∈ prog i, ∀ w, (u.reg = r → Q w) → u.reg = r → Q (u.change w) := by
        intro i u hu w hw hreg
        cases hset : sets u with
        | true => exact hprog.establish i u hu hset w
        | false => exact (hprog.others i u hu hreg hset w).mpr (hw hreg)
      have hstays : ∀ {s : State ι ρ W},
          OnProg prog s ∧ Everywhere (fun r' w => r' = r → Q w) s → Stays sets r Q s :=
        fun h _ => h.2.mem r rfl
      refine along_of_inv (C := fun _ _ => True) hstays
        (fun h _ hs => ⟨onProg_step h.1 hs, everywhere_step h.1 hkeep h.2 hs⟩)
        ⟨onProg_start prog mem, everywhere_start prog ?_⟩
        (stepsMeet_of_mem (fun _ _ _ => trivial) _)
      rintro r' rfl
      exact hQ
    · exact along_of_inv (I := fun s => OnProg prog s ∧ Marked sets r Q s) (fun h => h.2.mem)
        (fun h hC hs => ⟨onProg_step h.1 hs, marked_step hprog h.1 h.2 hC hs⟩)
        ⟨onProg_start prog mem, marked_start prog mem⟩ hapart

/-! ## One process after another -/

/-- The updates, one after another. -/
def apply (mem : ρ → W) (us : List (Update ρ W)) : ρ → W :=
  us.foldl (fun mem u => Function.update mem u.reg (u.change (mem u.reg))) mem

/-- A process that runs alone makes its updates one after another. -/
theorem run_alone {past us : List (Update ρ W)} (hp : s.proc i = ⟨past, us, none⟩) :
    ∃ t, run next s (List.replicate (2 * us.length) i) = some t ∧ t.mem = apply s.mem us := by
  induction us generalizing s past with
  | nil => exact ⟨s, rfl, rfl⟩
  | cons u us ih =>
    have hread : next s i = some { s with
        proc := Function.update s.proc i ⟨past, u :: us, some (s.mem u.reg)⟩ } := by
      rw [next, hp]
    have hwrite : next { s with
        proc := Function.update s.proc i ⟨past, u :: us, some (s.mem u.reg)⟩ } i = some {
          mem := Function.update s.mem u.reg (u.change (s.mem u.reg))
          proc := Function.update s.proc i ⟨past ++ [u], us, none⟩ } := by
      rw [next]
      simp only [Function.update_self, Function.update_idem]
    obtain ⟨t, ht, hmem⟩ := ih (s := {
      mem := Function.update s.mem u.reg (u.change (s.mem u.reg))
      proc := Function.update s.proc i ⟨past ++ [u], us, none⟩ }) (Function.update_self ..)
    refine ⟨t, ?_, hmem⟩
    rw [List.length_cons, Nat.mul_succ, List.replicate_succ, List.replicate_succ]
    exact (run_cons_some hread).mpr ((run_cons_some hwrite).mpr ht)

end Esystem.Rmw
