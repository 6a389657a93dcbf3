import Mathlib.Data.Nat.Basic
import Mathlib.Logic.Function.Basic
import Mathlib.Data.List.Perm.Subperm

/-!
# A list that changes while it is read

A circular doubly linked list: nodes are appended at its end and unlinked
anywhere, while a reader follows the `next` pointers without a lock. A node that
has been unlinked keeps its own pointers, so a reader that stands on it gets on.
Nodes are numbered as they are created; node 0 is the head of the list.

- `Linked`: the pointers of the nodes in the list agree with each other.
- `Reading`, `Shown`: so a reader shows no node twice, and every node that is in
  the list from when it begins until it is through.
- `Sound`: from every node that was in the list when the reader began, or has
  been since, `next` leads on, and past no node that has stayed in the list
  (`sound_append`, `sound_unlink`).
-/

namespace Esystem.RcuList

/-- The pointers, which nodes are in the list, and how many have been created. -/
structure Nodes where
  next : Nat → Nat
  prev : Nat → Nat
  linked : Nat → Bool
  count : Nat

/-- Only the head. -/
def Nodes.empty : Nodes where
  next := fun _ => 0
  prev := fun _ => 0
  linked := fun _ => false
  count := 0

/-- `list_add_tail_rcu` of a new node. -/
def Nodes.append (s : Nodes) : Nodes where
  next := Function.update (Function.update s.next (s.count + 1) 0) (s.prev 0) (s.count + 1)
  prev := Function.update (Function.update s.prev (s.count + 1) (s.prev 0)) 0 (s.count + 1)
  linked := Function.update s.linked (s.count + 1) true
  count := s.count + 1

/-- `list_del_rcu` of node `p`, which keeps its pointer to the next node. -/
def Nodes.unlink (s : Nodes) (p : Nat) : Nodes where
  next := Function.update s.next (s.prev p) (s.next p)
  prev := Function.update s.prev (s.next p) (s.prev p)
  linked := Function.update s.linked p false
  count := s.count

/-- The head, or a node in the list. -/
def Nodes.On (s : Nodes) (c : Nat) : Prop :=
  c = 0 ∨ s.linked c = true

/-- The list is in order: its pointers agree, its nodes come in the order of their
creation, and `next` passes none of them. -/
structure Linked (s : Nodes) : Prop where
  created : ∀ c, s.linked c = true → 0 < c ∧ c ≤ s.count
  next_on : ∀ c, s.On c → s.On (s.next c)
  prev_on : ∀ c, s.On c → s.On (s.prev c)
  prev_next : ∀ c, s.On c → s.prev (s.next c) = c
  next_prev : ∀ c, s.On c → s.next (s.prev c) = c
  lt_next : ∀ c, s.On c → s.next c = 0 ∨ c < s.next c
  no_gap : ∀ c t, s.On c → s.linked t = true → c < t → s.next c ≠ 0 ∧ s.next c ≤ t

theorem linked_empty : Linked Nodes.empty where
  created c h := by cases h
  next_on c h := .inl rfl
  prev_on c h := .inl rfl
  prev_next c h := (h.resolve_right Bool.false_ne_true).symm
  next_prev c h := (h.resolve_right Bool.false_ne_true).symm
  lt_next c h := .inl rfl
  no_gap c t h ht := by cases ht

variable {s : Nodes}

theorem Linked.on_le (h : Linked s) {c : Nat} (hc : s.On c) : c ≤ s.count := by
  rcases hc with rfl | hc
  · exact Nat.zero_le _
  · exact (h.created c hc).2

/-! ## Appending -/

theorem append_linked (s : Nodes) (c : Nat) :
    s.append.linked c = if c = s.count + 1 then true else s.linked c :=
  Function.update_apply ..

theorem append_next (s : Nodes) (c : Nat) : s.append.next c =
    if c = s.prev 0 then s.count + 1 else if c = s.count + 1 then 0 else s.next c := by
  simp only [Nodes.append, Function.update_apply]

theorem append_prev (s : Nodes) (c : Nat) : s.append.prev c =
    if c = 0 then s.count + 1 else if c = s.count + 1 then s.prev 0 else s.prev c := by
  simp only [Nodes.append, Function.update_apply]

theorem on_append {c : Nat} : s.append.On c ↔ s.On c ∨ c = s.count + 1 := by
  rw [Nodes.On, append_linked, Nodes.On]
  split
  · rename_i hc
    exact iff_of_true (.inr rfl) (.inr hc)
  · rename_i hc
    exact (or_iff_left hc).symm

/-- Behind the last node comes the head. -/
theorem Linked.next_eq_zero_iff (h : Linked s) {c : Nat} (hc : s.On c) :
    s.next c = 0 ↔ c = s.prev 0 := by
  constructor
  · intro hzero
    rw [← h.prev_next c hc, hzero]
  · rintro rfl
    exact h.next_prev 0 (.inl rfl)

/-- Nothing in the list is behind its last node. -/
theorem Linked.le_last (h : Linked s) {t : Nat} (ht : s.linked t = true) : t ≤ s.prev 0 := by
  by_contra hlt
  have hon := h.prev_on 0 (.inl rfl)
  exact (h.no_gap _ t hon ht (Nat.lt_of_not_le hlt)).1 (h.next_prev 0 (.inl rfl))

theorem linked_append (h : Linked s) : Linked s.append := by
  have hlast : s.On (s.prev 0) := h.prev_on 0 (.inl rfl)
  have hlt := h.on_le hlast
  -- the pointers of the nodes that were there before
  have hnext : ∀ c, s.On c → s.append.next c = if c = s.prev 0 then s.count + 1 else s.next c := by
    intro c hc
    have hle := h.on_le hc
    rw [append_next, if_neg (show c ≠ s.count + 1 by omega)]
  have hprev : ∀ c, s.On c → c ≠ 0 → s.append.prev c = s.prev c := by
    intro c hc hne
    have hle := h.on_le hc
    rw [append_prev, if_neg hne, if_neg (by omega)]
  have hnew : s.append.next (s.count + 1) = 0 := by
    rw [append_next, if_neg (by omega), if_pos rfl]
  have hprevNew : s.append.prev (s.count + 1) = s.prev 0 := by
    rw [append_prev, if_neg (by omega), if_pos rfl]
  have hprevHead : s.append.prev 0 = s.count + 1 := (append_prev s 0).trans (if_pos rfl)
  constructor
  case created =>
    intro c hc
    rw [append_linked] at hc
    split at hc
    · rename_i heq
      rw [heq]
      exact ⟨Nat.succ_pos _, Nat.le_refl _⟩
    · exact ⟨(h.created c hc).1, Nat.le_succ_of_le (h.created c hc).2⟩
  case next_on =>
    intro c hc
    rcases on_append.mp hc with hc | rfl
    · rw [hnext c hc]
      split
      · exact on_append.mpr (.inr rfl)
      · exact on_append.mpr (.inl (h.next_on c hc))
    · rw [hnew]
      exact .inl rfl
  case prev_on =>
    intro c hc
    rcases on_append.mp hc with hc | rfl
    · by_cases hzero : c = 0
      · rw [hzero, hprevHead]
        exact on_append.mpr (.inr rfl)
      · rw [hprev c hc hzero]
        exact on_append.mpr (.inl (h.prev_on c hc))
    · rw [hprevNew]
      exact on_append.mpr (.inl hlast)
  case prev_next =>
    intro c hc
    rcases on_append.mp hc with hc | rfl
    · rw [hnext c hc]
      split
      · rename_i heq
        rw [hprevNew, heq]
      · rename_i hne
        have hzero : s.next c ≠ 0 := fun hz => hne ((h.next_eq_zero_iff hc).mp hz)
        rw [hprev _ (h.next_on c hc) hzero, h.prev_next c hc]
    · rw [hnew, hprevHead]
  case next_prev =>
    intro c hc
    rcases on_append.mp hc with hc | rfl
    · by_cases hzero : c = 0
      · -- the new node stands before the head
        rw [hzero, hprevHead, hnew]
      · have hne : s.prev c ≠ s.prev 0 := by
          intro heq
          apply hzero
          rw [← h.next_prev c hc, heq, h.next_prev 0 (.inl rfl)]
        rw [hprev c hc hzero, hnext _ (h.prev_on c hc), if_neg hne, h.next_prev c hc]
    · rw [hprevNew, hnext _ hlast, if_pos rfl]
  case lt_next =>
    intro c hc
    rcases on_append.mp hc with hc | rfl
    · have hle := h.on_le hc
      rw [hnext c hc]
      split
      · exact .inr (by omega)
      · exact h.lt_next c hc
    · exact .inl hnew
  case no_gap =>
    intro c t hc ht hct
    rw [append_linked] at ht
    rcases on_append.mp hc with hc | rfl
    · rw [hnext c hc]
      split
      · rename_i heq
        refine ⟨Nat.succ_ne_zero _, ?_⟩
        split at ht
        · rename_i htn
          rw [htn]
        · have hle := h.le_last ht
          omega
      · rename_i hne
        refine ⟨fun hz => hne ((h.next_eq_zero_iff hc).mp hz), ?_⟩
        split at ht
        · rename_i htn
          rw [htn]
          exact Nat.le_succ_of_le (h.on_le (h.next_on c hc))
        · exact (h.no_gap c t hc ht hct).2
    · split at ht
      · omega
      · have hle := (h.created t ht).2
        omega

/-! ## Unlinking -/

theorem unlink_linked (s : Nodes) (p c : Nat) :
    (s.unlink p).linked c = if c = p then false else s.linked c :=
  Function.update_apply ..

theorem unlink_next (s : Nodes) (p c : Nat) :
    (s.unlink p).next c = if c = s.prev p then s.next p else s.next c :=
  Function.update_apply ..

theorem unlink_prev (s : Nodes) (p c : Nat) :
    (s.unlink p).prev c = if c = s.next p then s.prev p else s.prev c :=
  Function.update_apply ..

theorem on_unlink {p c : Nat} (hp : p ≠ 0) : (s.unlink p).On c ↔ s.On c ∧ c ≠ p := by
  rw [Nodes.On, unlink_linked, Nodes.On]
  split
  · rename_i heq
    subst heq
    exact iff_of_false (fun h => h.elim hp Bool.false_ne_true) fun h => h.2 rfl
  · rename_i hne
    exact (and_iff_left hne).symm

/-- The neighbours of a node in the list are others, one before it and one behind. -/
theorem Linked.neighbours (h : Linked s) {p : Nat} (hp : s.linked p = true) :
    s.prev p < p ∧ (s.next p = 0 ∨ p < s.next p) := by
  have hon : s.On p := .inr hp
  have hpos := (h.created p hp).1
  refine ⟨?_, h.lt_next p hon⟩
  have hprev := h.lt_next _ (h.prev_on p hon)
  rw [h.next_prev p hon] at hprev
  omega

theorem linked_unlink (h : Linked s) {p : Nat} (hp : s.linked p = true) :
    Linked (s.unlink p) := by
  have hon : s.On p := .inr hp
  have hpos : p ≠ 0 := Nat.ne_of_gt (h.created p hp).1
  obtain ⟨hbefore, hbehind⟩ := h.neighbours hp
  have hnextne : s.next p ≠ p := by omega
  constructor
  case created =>
    intro c hc
    rw [unlink_linked] at hc
    split at hc
    · cases hc
    · exact h.created c hc
  case next_on =>
    intro c hc
    obtain ⟨hc, hne⟩ := (on_unlink hpos).mp hc
    rw [unlink_next, on_unlink hpos]
    split
    · exact ⟨h.next_on p hon, hnextne⟩
    · rename_i hcp
      refine ⟨h.next_on c hc, fun heq => hcp ?_⟩
      rw [← heq, h.prev_next c hc]
  case prev_on =>
    intro c hc
    obtain ⟨hc, hne⟩ := (on_unlink hpos).mp hc
    rw [unlink_prev, on_unlink hpos]
    split
    · exact ⟨h.prev_on p hon, Nat.ne_of_lt hbefore⟩
    · rename_i hcp
      refine ⟨h.prev_on c hc, fun heq => hcp ?_⟩
      rw [← heq, h.next_prev c hc]
  case prev_next =>
    intro c hc
    obtain ⟨hc, hne⟩ := (on_unlink hpos).mp hc
    rw [unlink_next]
    split
    · rename_i hcp
      rw [unlink_prev, if_pos rfl, hcp]
    · -- no other node stands before the one behind `p`
      rename_i hcp
      have hother : s.next c ≠ s.next p := by
        intro heq
        apply hne
        rw [← h.prev_next c hc, heq, h.prev_next p hon]
      rw [unlink_prev, if_neg hother, h.prev_next c hc]
  case next_prev =>
    intro c hc
    obtain ⟨hc, hne⟩ := (on_unlink hpos).mp hc
    rw [unlink_prev]
    split
    · rename_i hcp
      rw [unlink_next, if_pos rfl, hcp]
    · rename_i hcp
      have hother : s.prev c ≠ s.prev p := by
        intro heq
        apply hne
        rw [← h.next_prev c hc, heq, h.next_prev p hon]
      rw [unlink_next, if_neg hother, h.next_prev c hc]
  case lt_next =>
    intro c hc
    obtain ⟨hc, hne⟩ := (on_unlink hpos).mp hc
    rw [unlink_next]
    split
    · rename_i hcp
      omega
    · exact h.lt_next c hc
  case no_gap =>
    intro c t hc ht hct
    obtain ⟨hc, hne⟩ := (on_unlink hpos).mp hc
    rw [unlink_linked] at ht
    split at ht
    · cases ht
    · rename_i htp
      rw [unlink_next]
      split
      · -- past the node itself
        rename_i hcp
        have hgap := (h.no_gap c t hc ht hct).2
        rw [hcp, h.next_prev p hon] at hgap
        exact h.no_gap p t hon ht (by omega)
      · exact h.no_gap c t hc ht hct

/-! ## Reading -/

/-- A node that was in the list at `since`, or has been created later, or the head. -/
def Recent (since : Nodes) (c : Nat) : Prop :=
  c = 0 ∨ since.linked c = true ∨ since.count < c

instance (since : Nodes) (c : Nat) : Decidable (Recent since c) :=
  inferInstanceAs (Decidable (c = 0 ∨ since.linked c = true ∨ since.count < c))

/-- From recent nodes, in the list or not, `next` leads on over recent nodes, and
past none that has stayed in the list. -/
structure Sound (since s : Nodes) : Prop extends Linked s where
  count_le : since.count ≤ s.count
  created_since : ∀ t, since.linked t = true → t ≤ since.count
  recent : ∀ c, s.On c → Recent since c
  next_recent : ∀ c, Recent since c → c ≤ s.count →
    s.next c = 0 ∨ (c < s.next c ∧ s.next c ≤ s.count ∧ Recent since (s.next c))
  stays : ∀ c t, Recent since c → c ≤ s.count → since.linked t = true → s.linked t = true →
    c < t → s.next c ≠ 0 ∧ s.next c ≤ t

theorem sound_start (h : Linked s) : Sound s s := by
  have hon : ∀ c, Recent s c → c ≤ s.count → s.On c := by
    rintro c (rfl | hc | hc) hle
    · exact .inl rfl
    · exact .inr hc
    · omega
  exact {
    toLinked := h
    count_le := Nat.le_refl _
    created_since := fun t ht => (h.created t ht).2
    recent := fun c hc => hc.imp id .inl
    next_recent := fun c hc hle => (h.lt_next c (hon c hc hle)).imp id fun hlt =>
      have hnext := h.next_on c (hon c hc hle)
      ⟨hlt, h.on_le hnext, hnext.imp id .inl⟩
    stays := fun c t hc hle _ ht hct => h.no_gap c t (hon c hc hle) ht hct }

variable {since : Nodes}

/-- **Appending leads no reader astray.** -/
theorem sound_append (h : Sound since s) : Sound since s.append := by
  have hlast : s.On (s.prev 0) := h.prev_on 0 (.inl rfl)
  have hlt := h.on_le hlast
  have hnew : Recent since (s.count + 1) := .inr (.inr (Nat.lt_succ_of_le h.count_le))
  have hcount : s.append.count = s.count + 1 := rfl
  refine ⟨linked_append h.toLinked, Nat.le_succ_of_le h.count_le, h.created_since, ?_, ?_, ?_⟩
  · intro c hc
    rcases on_append.mp hc with hc | rfl
    · exact h.recent c hc
    · exact hnew
  · intro c hc hle
    rw [append_next]
    split
    · exact .inr ⟨by omega, Nat.le_refl _, hnew⟩
    · split
      · exact .inl rfl
      · exact (h.next_recent c hc (by omega)).imp id fun hn =>
          ⟨hn.1, Nat.le_succ_of_le hn.2.1, hn.2.2⟩
  · intro c t hc hle hsince ht hct
    -- a node that was there at the start is not the new one
    have hold : s.linked t = true := by
      rw [append_linked] at ht
      split at ht
      · have hbefore := Nat.le_trans (h.created_since t hsince) h.count_le
        omega
      · exact ht
    have htle := h.le_last hold
    rw [append_next, if_neg (by omega), if_neg (by omega)]
    exact h.stays c t hc (by omega) hsince hold hct

/-- **Unlinking leads no reader astray**, not even one on the node. -/
theorem sound_unlink (h : Sound since s) {p : Nat} (hp : s.linked p = true) :
    Sound since (s.unlink p) := by
  have hon : s.On p := .inr hp
  have hpos : p ≠ 0 := Nat.ne_of_gt (h.created p hp).1
  have hrecent := h.recent p hon
  have hple := h.on_le hon
  obtain ⟨hbefore, hbehind⟩ := h.neighbours hp
  refine ⟨linked_unlink h.toLinked hp, h.count_le, h.created_since, ?_, ?_, ?_⟩
  · intro c hc
    exact h.recent c ((on_unlink hpos).mp hc).1
  · intro c hc hle
    rw [unlink_next]
    split
    · rename_i hcp
      refine (h.next_recent p hrecent hple).imp id fun hn => ⟨?_, hn.2⟩
      omega
    · exact h.next_recent c hc hle
  · intro c t hc hle hsince ht hct
    rw [unlink_linked] at ht
    split at ht
    · cases ht
    · rename_i htp
      rw [unlink_next]
      split
      · rename_i hcp
        have hgap := (h.stays c t hc hle hsince ht hct).2
        rw [hcp, h.next_prev p hon] at hgap
        exact h.stays p t hrecent hple hsince ht (by omega)
      · exact h.stays c t hc hle hsince ht hct

/-- A reader at node `c` that has shown `shown`. -/
structure Reading (since s : Nodes) (c : Nat) (shown : List Nat) : Prop
    extends Sound since s where
  here : Recent since c ∧ c ≤ s.count
  sorted : shown.Pairwise (· < ·)
  upTo : ∀ x ∈ shown, 0 < x ∧ x ≤ c ∧ Recent since x
  complete : ∀ t, since.linked t = true → s.linked t = true → t ≤ c → t ∈ shown

variable {c : Nat} {shown : List Nat}

theorem reading_start (h : Linked s) : Reading s s 0 [] where
  toSound := sound_start h
  here := ⟨.inl rfl, Nat.zero_le _⟩
  sorted := .nil
  upTo x hx := absurd hx List.not_mem_nil
  complete t ht _ hle := by
    have hpos := (h.created t ht).1
    omega

theorem Reading.append (h : Reading since s c shown) : Reading since s.append c shown where
  toSound := sound_append h.toSound
  here := ⟨h.here.1, Nat.le_succ_of_le h.here.2⟩
  sorted := h.sorted
  upTo := h.upTo
  complete t hsince ht hle := by
    have hold := h.here.2
    rw [append_linked, if_neg (by omega)] at ht
    exact h.complete t hsince ht hle

theorem Reading.unlink (h : Reading since s c shown) {p : Nat} (hp : s.linked p = true) :
    Reading since (s.unlink p) c shown where
  toSound := sound_unlink h.toSound hp
  here := h.here
  sorted := h.sorted
  upTo := h.upTo
  complete t hsince ht hle := by
    rw [unlink_linked] at ht
    split at ht
    · cases ht
    · exact h.complete t hsince ht hle

/-- **A reader that goes on shows the next node**, and has passed none that has
stayed in the list. -/
theorem Reading.advance (h : Reading since s c shown) (hne : s.next c ≠ 0) :
    Reading since s (s.next c) (shown ++ [s.next c]) := by
  obtain ⟨hlt, hle, hrecent⟩ := (h.next_recent c h.here.1 h.here.2).resolve_left hne
  refine ⟨h.toSound, ⟨hrecent, hle⟩, ?_, ?_, ?_⟩
  · rw [List.pairwise_append]
    refine ⟨h.sorted, List.pairwise_singleton _ _, fun x hx y hy => ?_⟩
    rw [List.mem_singleton.mp hy]
    have hxc := (h.upTo x hx).2.1
    omega
  · intro x hx
    rcases List.mem_append.mp hx with hx | hx
    · obtain ⟨hpos, hxc, hxr⟩ := h.upTo x hx
      exact ⟨hpos, by omega, hxr⟩
    · rw [List.mem_singleton.mp hx]
      exact ⟨Nat.pos_of_ne_zero hne, Nat.le_refl _, hrecent⟩
  · intro t hsince ht htn
    by_cases htc : t ≤ c
    · exact List.mem_append_left _ (h.complete t hsince ht htc)
    · -- between `c` and the next node there is none that has stayed
      have hgap := (h.stays c t h.here.1 h.here.2 hsince ht (Nat.lt_of_not_le htc)).2
      refine List.mem_append_right _ (List.mem_singleton.mpr ?_)
      omega

/-- A reader that is through: it has shown nodes that were in the list in the
meantime, none twice, and all that have stayed. -/
structure Shown (since s : Nodes) (shown : List Nat) : Prop extends Sound since s where
  sorted : shown.Pairwise (· < ·)
  upTo : ∀ x ∈ shown, 0 < x ∧ x ≤ s.count ∧ Recent since x
  complete : ∀ t, since.linked t = true → s.linked t = true → t ∈ shown

/-- **A reader that has come round has shown every node that has stayed.** -/
theorem Reading.finished (h : Reading since s c shown) (hzero : s.next c = 0) :
    Shown since s shown where
  toSound := h.toSound
  sorted := h.sorted
  upTo x hx :=
    have hb := h.upTo x hx
    ⟨hb.1, Nat.le_trans hb.2.1 h.here.2, hb.2.2⟩
  complete t hsince ht := by
    by_cases htc : t ≤ c
    · exact h.complete t hsince ht htc
    · exact absurd hzero (h.stays c t h.here.1 h.here.2 hsince ht (Nat.lt_of_not_le htc)).1

theorem Shown.append (h : Shown since s shown) : Shown since s.append shown where
  toSound := sound_append h.toSound
  sorted := h.sorted
  upTo x hx :=
    have hb := h.upTo x hx
    ⟨hb.1, Nat.le_succ_of_le hb.2.1, hb.2.2⟩
  complete t hsince ht := by
    have hold := Nat.le_trans (h.created_since t hsince) h.count_le
    rw [append_linked, if_neg (by omega)] at ht
    exact h.complete t hsince ht

theorem Shown.unlink (h : Shown since s shown) {p : Nat} (hp : s.linked p = true) :
    Shown since (s.unlink p) shown where
  toSound := sound_unlink h.toSound hp
  sorted := h.sorted
  upTo := h.upTo
  complete t hsince ht := by
    rw [unlink_linked] at ht
    split at ht
    · cases ht
    · exact h.complete t hsince ht

/-- What is shown in ascending order up to `n` is at most `n` nodes. -/
theorem length_le_of_sorted {n : Nat} (hs : shown.Pairwise (· < ·))
    (hn : ∀ x ∈ shown, 0 < x ∧ x ≤ n) : shown.length ≤ n := by
  have hsub : shown ⊆ List.range' 1 n := by
    intro x hx
    have hb := hn x hx
    rw [List.mem_range'_1]
    omega
  have hnodup : shown.Nodup := hs.imp fun h => Nat.ne_of_lt h
  have hlen := (hnodup.subperm hsub).length_le
  rwa [List.length_range'] at hlen

end Esystem.RcuList
