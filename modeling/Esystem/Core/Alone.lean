import Esystem.Core.LoopThread

/-!
# Threads that run alone for a while

Whether a thread can go on depends on the locks only. So a schedule that leads
somewhere is put together from stretches in which one thread runs alone, and
each stretch is described by where the thread gets to and what becomes of the
locks:

- `locksAfter`: the locks after straight-line code, if no acquisition in it
  blocks.
- `Leads`: some schedule without interrupted acquisitions leads from one state
  to another.
- `leads_block`, `leads_into_round`, `leads_rounds`: one thread runs through a
  block, from its loop test into a round, and through several rounds.
-/

namespace Esystem

variable {ι L A K R S : Type}

/-- The locks after thread `t` has run the block alone, or `none` if one of its
acquisitions blocks. -/
def Sync.locksAfter (sync : Sync ι L K) (t : ι) : Block L A → K → Option K
  | [], κ => some κ
  | .lock l :: b, κ => (sync.acquire t l κ).bind fun κ' => locksAfter sync t b κ'
  | .unlock l :: b, κ => locksAfter sync t b (sync.release t l κ)
  | .act _ :: b, κ => locksAfter sync t b κ

namespace LoopSys

variable [DecidableEq ι] (M : LoopSys ι L A K R S)

/-- Some schedule without interrupted acquisitions leads from `s` to `s'`. -/
def Leads (s s' : LoopState ι L A K R S) : Prop :=
  ∃ sched : List ι, run M.next s (sched.map .step) = some s'

variable {M} {s s' s'' : LoopState ι L A K R S} {t : ι} {i : Nat}

theorem Leads.refl (s : LoopState ι L A K R S) : M.Leads s s := ⟨[], rfl⟩

theorem Leads.of_next (h : M.next s (.step t) = some s') : M.Leads s s' :=
  ⟨[t], (run_cons_some h).mpr rfl⟩

theorem Leads.trans (h : M.Leads s s') (h' : M.Leads s' s'') : M.Leads s s'' := by
  obtain ⟨sched, hr⟩ := h
  obtain ⟨sched', hr'⟩ := h'
  refine ⟨sched ++ sched', ?_⟩
  rw [List.map_append]
  exact run_append_some hr hr'

/-- Thread `t`, running alone, can get to position `c` with the locks at `κ`. -/
def GetsTo (M : LoopSys ι L A K R S) (s : LoopState ι L A K R S) (t : ι) (c : Ctl L A)
    (κ : K) : Prop :=
  ∃ s', M.Leads s s' ∧ s'.ctl = Function.update s.ctl t c ∧ s'.locks = κ

theorem GetsTo.refl (s : LoopState ι L A K R S) (t : ι) : M.GetsTo s t (s.ctl t) s.locks :=
  ⟨s, Leads.refl s, (Function.update_eq_self t s.ctl).symm, rfl⟩

/-- One step of the thread, and on from there. -/
theorem GetsTo.step {c c' : Ctl L A} {κ : K} (h : M.next s (.step t) = some s')
    (hctl : s'.ctl = Function.update s.ctl t c') (h' : M.GetsTo s' t c κ) :
    M.GetsTo s t c κ := by
  obtain ⟨u, hr, hu, hκ⟩ := h'
  refine ⟨u, (Leads.of_next h).trans hr, ?_, hκ⟩
  rw [hu, hctl, Function.update_idem]

/-- A stretch of the thread, and on from wherever it got to. -/
theorem GetsTo.trans {c c' : Ctl L A} {κ κ' : K} (h : M.GetsTo s t c' κ')
    (h' : ∀ m : LoopState ι L A K R S, m.ctl t = c' → m.locks = κ' → M.GetsTo m t c κ) :
    M.GetsTo s t c κ := by
  obtain ⟨m, hr, hm, hκ'⟩ := h
  obtain ⟨u, hr', hu, hκ⟩ := h' m (by rw [hm, Function.update_self]) hκ'
  refine ⟨u, hr.trans hr', ?_, hκ⟩
  rw [hu, hm, Function.update_idem]

/-- A thread runs alone through a block whose acquisitions let it through. -/
theorem leads_block {b k : Block L A} {κ : K} (hc : s.ctl t = .body i (b ++ k))
    (hb : M.sync.locksAfter t b s.locks = some κ) : M.GetsTo s t (.body i k) κ := by
  induction b generalizing s with
  | nil =>
    have h := GetsTo.refl (M := M) s t
    rwa [show s.ctl t = .body i k from hc, show s.locks = κ from Option.some.inj hb] at h
  | cons x b ih =>
    have hgo : ∀ {m : LoopState ι L A K R S}, M.next s (.step t) = some m →
        m.ctl = Function.update s.ctl t (.body i (b ++ k)) →
        M.sync.locksAfter t b m.locks = some κ → M.GetsTo s t (.body i k) κ :=
      fun hm hctl hκ => .step hm hctl (ih (by rw [hctl, Function.update_self]) hκ)
    rw [List.cons_append] at hc
    cases x with
    | lock l =>
      obtain ⟨κ', ha, hκ⟩ := Option.bind_eq_some_iff.mp hb
      refine hgo (m := { s.goto t (.body i (b ++ k)) with locks := κ' }) ?_ rfl hκ
      simp only [next, hc, ha, Option.map_some]
    | unlock l =>
      refine hgo (m := { s.goto t (.body i (b ++ k)) with
        locks := M.sync.release t l s.locks }) ?_ rfl hb
      simp only [next, hc]
    | act a =>
      refine hgo (m := { s.goto t (.body i (b ++ k)) with
        reg := Function.update s.reg t (M.exec t i a (s.reg t) s.shared).1
        shared := (M.exec t i a (s.reg t) s.shared).2 }) ?_ rfl hb
      simp only [next, hc]

/-- From its loop test, a thread runs alone into the next round. -/
theorem leads_into_round {b k : Block L A} {κ : K} (hc : s.ctl t = .head i)
    (hi : i < M.bound t) (hprog : M.prog t = b ++ k)
    (hb : M.sync.locksAfter t b s.locks = some κ) : M.GetsTo s t (.body i k) κ := by
  have hm : M.next s (.step t) = some (s.goto t (.body i (M.prog t))) := by
    simp only [next, hc, if_pos hi]
  exact .step hm rfl (leads_block (by rw [← hprog]; exact Function.update_self _ _ _) hb)

/-- A thread whose body gives back all it takes runs alone through `n` rounds. -/
theorem leads_rounds {κ : K} (hb : M.sync.locksAfter t (M.prog t) κ = some κ) {n : Nat}
    (hc : s.ctl t = .head i) (hκ : s.locks = κ) (hn : i + n ≤ M.bound t) :
    M.GetsTo s t (.head (i + n)) κ := by
  induction n with
  | zero =>
    have h := GetsTo.refl (M := M) s t
    rwa [hc, hκ] at h
  | succ n ih =>
    refine (ih (by omega)).trans fun m hm hmκ => ?_
    have hround : M.GetsTo m t (.body (i + n) []) κ :=
      leads_into_round hm (by omega) (List.append_nil _).symm (by rw [hmκ, hb])
    refine hround.trans fun u hu huκ => ?_
    have hnext : M.next u (.step t) = some (u.goto t (.head (i + n + 1))) := by
      simp only [next, hu]
    have h := GetsTo.refl (M := M) (u.goto t (.head (i + n + 1))) t
    rw [show (u.goto t (.head (i + n + 1))).ctl t = .head (i + n + 1) from
      Function.update_self _ _ _, show (u.goto t _).locks = κ from huκ] at h
    exact .step hnext rfl h

end LoopSys

end Esystem
