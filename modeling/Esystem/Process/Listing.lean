import Esystem.Core.CInt
import Esystem.Core.Machine
import Esystem.Core.RcuList

/-!
# Listing the processes while they come and go

`process_init` of kernel_process.c and `hello_init` of helloworld.c go through the
kernel's list of processes with `for_each_process`, while processes start, exit,
and have their memory freed. Neither of them takes a lock or tells the kernel
that it is reading (`rcu_read_lock`).

- `lists_processes`: processes that start and exit do no harm. Nothing is listed
  twice, everything that is there all the time is listed, and the count is right.
- What would do harm is the memory of a process that is freed during the listing
  (`frees_under_reader`). The theorem holds where that waits, as it does for
  those that tell the kernel.
-/

namespace Esystem.Process

open RcuList

/-- What the body of `for_each_process` does for a process: how many lines it
prints, and whether it counts. -/
structure Lister where
  lines : Nat
  counts : Bool

/-- `process_init` prints three lines and does `total_process++`. -/
def processInit : Lister := ⟨3, true⟩

/-- `hello_init` prints one line. -/
def helloInit : Lister := ⟨1, false⟩

/-- Where the init function is: before the loop, at `task_list = next_task(c)`,
in the body with `k` lines to print of process `c`, or behind the loop. -/
inductive Pos where
  | start
  | loop (c : Nat)
  | body (c k : Nat)
  | listed
  deriving DecidableEq

/-- The list of processes, with `init_task` as its head; whose memory has been
freed; the init function with the processes it has listed, the lines it has
printed, by process and number, and its counter; the list when the loop began;
and whether memory has been read that was freed. -/
structure State where
  nodes : Nodes
  freed : Nat → Bool
  pos : Pos
  listed : List Nat
  log : List (Nat × Nat)
  totalProcess : CInt
  since : Nodes
  fault : Bool

/-- A process starts, exits, or has its memory freed; the init function starts its
loop, goes to the next process, or prints a line. -/
inductive Event where
  | fork
  | exit (p : Nat)
  | free (p : Nat)
  | begins
  | advance
  | print

/-- No processes but `init_task`. -/
def boot : State where
  nodes := Nodes.empty
  freed := fun _ => false
  pos := .start
  listed := []
  log := []
  totalProcess := 0
  since := Nodes.empty
  fault := false

/-- The memory of process `c` is read. -/
def State.read (s : State) (c : Nat) : State :=
  { s with fault := s.fault || s.freed c }

/-- One event. -/
def next (L : Lister) (s : State) : Event → Option State
  | .fork => some { s with nodes := s.nodes.append }
  | .exit p =>
    if s.nodes.linked p = true then some { s with nodes := s.nodes.unlink p } else none
  | .free p =>
    if 0 < p ∧ p ≤ s.nodes.count ∧ s.nodes.linked p = false then
      some { s with freed := Function.update s.freed p true }
    else none
  | .begins =>
    if s.pos = .start then some { s with pos := .loop 0, since := s.nodes } else none
  | .advance =>
    match s.pos with
    | .loop c =>
      let n := s.nodes.next c
      some { s.read c with pos := if n = 0 then .listed else .body n L.lines }
    | _ => none
  | .print =>
    match s.pos with
    | .body c (k + 1) =>
      let s := { s.read c with log := s.log ++ [(c, L.lines - (k + 1))] }
      if k = 0 then
        some { s with
          pos := .loop c
          listed := s.listed ++ [c]
          totalProcess := if L.counts then s.totalProcess + 1 else s.totalProcess }
      else some { s with pos := .body c k }
    | _ => none

/-- The list is being read. -/
def Pos.reading : Pos → Bool
  | .loop _ => true
  | .body _ _ => true
  | _ => false

/-- The memory of a process that has been in the list since the loop began is not
freed before the loop is over. -/
def Grace (s : State) : Event → Prop
  | .free p => s.pos.reading = true → ¬ Recent s.since p
  | _ => True

instance (s : State) : DecidablePred (Grace s)
  | .free p => inferInstanceAs (Decidable (s.pos.reading = true → ¬ Recent s.since p))
  | .fork => .isTrue trivial
  | .exit _ => .isTrue trivial
  | .begins => .isTrue trivial
  | .advance => .isTrue trivial
  | .print => .isTrue trivial

/-- The first `n` lines of a process. -/
def reports (n : Nat) (c : Nat) : List (Nat × Nat) :=
  (List.range n).map fun i => (c, i)

/-- The lines printed of the process that is being listed. -/
def State.begun (L : Lister) (s : State) : List (Nat × Nat) :=
  match s.pos with
  | .body c k => reports (L.lines - k) c
  | _ => []

/-! ## The invariant -/

/-- Whatever is recent has its memory. -/
def State.Kept (s : State) : Prop :=
  ∀ p, s.freed p = true → ¬ Recent s.since p

/-- How far the init function has got in the list. -/
def State.Progress (L : Lister) (s : State) : Prop :=
  match s.pos with
  | .start => s.listed = []
  | .loop c => Reading s.since s.nodes c s.listed ∧ s.Kept
  | .body c k => Reading s.since s.nodes c (s.listed ++ [c]) ∧ s.Kept ∧ k ≤ L.lines
  | .listed => Shown s.since s.nodes s.listed

structure State.Inv (L : Lister) (s : State) : Prop where
  linked : Linked s.nodes
  gone : ∀ p, s.freed p = true → s.nodes.linked p = false ∧ 0 < p ∧ p ≤ s.nodes.count
  noFault : s.fault = false
  total : L.counts = true → s.totalProcess = BitVec.ofNat 32 s.listed.length
  log : s.log = s.listed.flatMap (reports L.lines) ++ s.begun L
  progress : s.Progress L

variable {L : Lister} {s s' : State}

theorem inv_boot : boot.Inv L where
  linked := linked_empty
  gone _ h := by cases h
  noFault := rfl
  total _ := rfl
  log := rfl
  progress := rfl

/-- What happens to the list besides, the init function does not notice. -/
theorem State.Inv.elsewhere (h : s.Inv L) {nodes : Nodes} {freed : Nat → Bool}
    (hlinked : Linked nodes)
    (hgone : ∀ p, freed p = true → nodes.linked p = false ∧ 0 < p ∧ p ≤ nodes.count)
    (hreading : ∀ c shown, Reading s.since s.nodes c shown → Reading s.since nodes c shown)
    (hshown : ∀ shown, Shown s.since s.nodes shown → Shown s.since nodes shown)
    (hkept : s.pos.reading = true → s.Kept → ∀ p, freed p = true → ¬ Recent s.since p) :
    State.Inv L { s with nodes := nodes, freed := freed } where
  linked := hlinked
  gone := hgone
  noFault := h.noFault
  total := h.total
  log := h.log
  progress := by
    have hprogress := h.progress
    unfold State.Progress at hprogress ⊢
    split at hprogress
    · rename_i hpos
      rw [hpos]
      exact hprogress
    · rename_i c hpos
      rw [hpos]
      exact ⟨hreading c _ hprogress.1, hkept (by rw [hpos]; rfl) hprogress.2⟩
    · rename_i c k hpos
      rw [hpos]
      exact ⟨hreading c _ hprogress.1, hkept (by rw [hpos]; rfl) hprogress.2.1, hprogress.2.2⟩
    · rename_i hpos
      rw [hpos]
      exact hshown _ hprogress

/-- A recent process has its memory. -/
theorem not_freed (hkept : s.Kept) {c : Nat} (hc : Recent s.since c) : s.freed c = false := by
  rw [← Bool.not_eq_true]
  exact fun h => hkept c h hc

/-- One more process in the log. -/
theorem reports_succ (n c : Nat) : reports (n + 1) c = reports n c ++ [(c, n)] := by
  rw [reports, List.range_succ, List.map_append]
  rfl

/-- **Every event keeps the invariant**, if it leaves the reader its memory. -/
theorem inv_step (h : s.Inv L) {e : Event} (hg : Grace s e) (hs : next L s e = some s') :
    s'.Inv L := by
  cases e with
  | fork =>
    cases hs
    refine h.elsewhere (linked_append h.linked) (fun p hp => ?_) (fun _ _ hr => hr.append)
      (fun _ hr => hr.append) fun _ hk => hk
    obtain ⟨hno, hpos, hle⟩ := h.gone p hp
    rw [append_linked, if_neg (by omega)]
    exact ⟨hno, hpos, Nat.le_succ_of_le hle⟩
  | exit p =>
    simp only [next] at hs
    split at hs
    · rename_i hp
      cases hs
      refine h.elsewhere (linked_unlink h.linked hp) (fun q hq => ?_) (fun _ _ hr => hr.unlink hp)
        (fun _ hr => hr.unlink hp) fun _ hk => hk
      obtain ⟨hno, hrest⟩ := h.gone q hq
      refine ⟨?_, hrest⟩
      rw [unlink_linked, hno, ite_self]
    · cases hs
  | free p =>
    simp only [next] at hs
    split at hs
    · rename_i hp
      cases hs
      have hcase : ∀ q, Function.update s.freed p true q = true → q = p ∨ s.freed q = true := by
        intro q hq
        by_cases hqp : q = p
        · exact .inl hqp
        · rw [Function.update_of_ne hqp] at hq
          exact .inr hq
      refine h.elsewhere h.linked (fun q hq => ?_) (fun _ _ hr => hr) (fun _ hr => hr)
        fun hreading hk q hq => ?_
      · rcases hcase q hq with rfl | hq
        · exact ⟨hp.2.2, hp.1, hp.2.1⟩
        · exact h.gone q hq
      · rcases hcase q hq with rfl | hq
        · exact hg hreading
        · exact hk q hq
    · cases hs
  | begins =>
    simp only [next] at hs
    split at hs
    · rename_i hpos
      cases hs
      have hnone : s.listed = [] := by
        have hprogress := h.progress
        rwa [State.Progress, hpos] at hprogress
      have hlog := h.log
      rw [State.begun, hpos] at hlog
      refine ⟨h.linked, h.gone, h.noFault, h.total, hlog, ?_, ?_⟩
      · show Reading s.nodes s.nodes 0 s.listed
        rw [hnone]
        exact reading_start h.linked
      · -- what has been freed is neither in the list now nor created later
        rintro p hp (rfl | hrecent | hrecent)
        · exact absurd (h.gone 0 hp).2.1 (Nat.lt_irrefl 0)
        · rw [(h.gone p hp).1] at hrecent
          cases hrecent
        · exact absurd (h.gone p hp).2.2 (Nat.not_le.mpr hrecent)
    · cases hs
  | advance =>
    simp only [next] at hs
    split at hs
    · rename_i c hpos
      obtain ⟨hreading, hkept⟩ : Reading s.since s.nodes c s.listed ∧ s.Kept := by
        have hprogress := h.progress
        rwa [State.Progress, hpos] at hprogress
      have hfault : (s.fault || s.freed c) = false := by
        rw [h.noFault, not_freed hkept hreading.here.1]
        rfl
      have hlog := h.log
      rw [State.begun, hpos, List.append_nil] at hlog
      cases hs
      by_cases hzero : s.nodes.next c = 0
      · -- round the list and at its head again
        rw [if_pos hzero]
        exact ⟨h.linked, h.gone, hfault, h.total, hlog.trans (List.append_nil _).symm,
          hreading.finished hzero⟩
      · rw [if_neg hzero]
        refine ⟨h.linked, h.gone, hfault, h.total, ?_, hreading.advance hzero, hkept, Nat.le_refl _⟩
        show s.log = s.listed.flatMap (reports L.lines) ++ reports (L.lines - L.lines) _
        rw [Nat.sub_self, hlog]
        exact (List.append_nil _).symm
    · cases hs
  | print =>
    simp only [next] at hs
    split at hs
    · rename_i c k hpos
      obtain ⟨hreading, hkept, hk⟩ : Reading s.since s.nodes c (s.listed ++ [c]) ∧ s.Kept ∧
          k + 1 ≤ L.lines := by
        have hprogress := h.progress
        rwa [State.Progress, hpos] at hprogress
      have hfault : (s.fault || s.freed c) = false := by
        rw [h.noFault, not_freed hkept hreading.here.1]
        rfl
      have hlog : s.log ++ [(c, L.lines - (k + 1))]
          = s.listed.flatMap (reports L.lines) ++ reports (L.lines - k) c := by
        rw [h.log, State.begun, hpos, List.append_assoc, ← reports_succ,
          show L.lines - (k + 1) + 1 = L.lines - k by omega]
      split at hs
      · -- the last line of the process
        rename_i hzero
        subst hzero
        cases hs
        refine ⟨h.linked, h.gone, hfault, fun hc => ?_, ?_, hreading, hkept⟩
        · show (if L.counts = true then s.totalProcess + 1 else s.totalProcess)
            = BitVec.ofNat 32 (s.listed ++ [c]).length
          rw [if_pos hc, h.total hc, List.length_append]
          exact (BitVec.ofNat_add ..).symm
        · show s.log ++ _ = (s.listed ++ [c]).flatMap (reports L.lines) ++ []
          rw [hlog, List.flatMap_append, List.append_nil, Nat.sub_zero]
          simp
      · cases hs
        exact ⟨h.linked, h.gone, hfault, h.total, hlog, hreading, hkept, by omega⟩
    · cases hs

/-! ## What is listed -/

/-- What the init function `L` has listed, and what is not missing. -/
structure Lists (L : Lister) (s : State) : Prop where
  /-- No memory that has been freed has been read. -/
  noFault : s.fault = false
  /-- The processes are listed in the order in which they started, none twice. -/
  once : s.listed.Pairwise (· < ·)
  /-- No more processes are listed than have ever started. -/
  bounded : s.listed.length ≤ s.nodes.count
  /-- Each process listed has been created, and was in the list when the loop began or has
  started since. -/
  genuine : ∀ p ∈ s.listed, 0 < p ∧ p ≤ s.nodes.count ∧
    (s.since.linked p = true ∨ s.since.count < p)
  /-- Whatever was there when the loop began and still is when it is over is listed. -/
  whole : s.pos = .listed → ∀ p, s.since.linked p = true → s.nodes.linked p = true → p ∈ s.listed
  /-- Each process listed has its lines, one behind the other. -/
  lines : s.pos.reading = false → s.log = s.listed.flatMap (reports L.lines)
  /-- The count is that of the processes listed. -/
  counted : L.counts = true → s.totalProcess = BitVec.ofNat 32 s.listed.length

theorem State.Inv.lists (h : s.Inv L) : Lists L s := by
  have hprogress := h.progress
  have hlog := h.log
  have hread : ∀ {c shown}, Reading s.since s.nodes c shown →
      ∀ p ∈ shown, 0 < p ∧ p ≤ s.nodes.count ∧ (s.since.linked p = true ∨ s.since.count < p) := by
    intro c shown hr p hp
    obtain ⟨hpos, hle, hrecent⟩ := hr.upTo p hp
    exact ⟨hpos, Nat.le_trans hle hr.here.2, hrecent.resolve_left (Nat.ne_of_gt hpos)⟩
  have hall : s.listed.Pairwise (· < ·) ∧ (∀ p ∈ s.listed, 0 < p ∧ p ≤ s.nodes.count ∧
      (s.since.linked p = true ∨ s.since.count < p)) := by
    unfold State.Progress at hprogress
    split at hprogress
    · rw [hprogress]
      exact ⟨.nil, fun p hp => absurd hp List.not_mem_nil⟩
    · exact ⟨hprogress.1.sorted, hread hprogress.1⟩
    · exact ⟨(List.pairwise_append.mp hprogress.1.sorted).1,
        fun p hp => hread hprogress.1 p (List.mem_append_left _ hp)⟩
    · refine ⟨hprogress.sorted, fun p hp => ?_⟩
      obtain ⟨hpos, hle, hrecent⟩ := hprogress.upTo p hp
      exact ⟨hpos, hle, hrecent.resolve_left (Nat.ne_of_gt hpos)⟩
  exact {
    noFault := h.noFault
    once := hall.1
    bounded := length_le_of_sorted hall.1 fun p hp => ⟨(hall.2 p hp).1, (hall.2 p hp).2.1⟩
    genuine := hall.2
    whole := fun hpos => by
      rw [State.Progress, hpos] at hprogress
      exact hprogress.complete
    lines := fun hpos => by
      rw [State.begun] at hlog
      split at hlog
      · rename_i hbody
        rw [hbody] at hpos
        cases hpos
      · rw [hlog, List.append_nil]
    counted := h.total }

/-- **The processes are listed right**, by both modules, however they come and go
meanwhile, if the memory of those that were there is not freed during the
listing. -/
theorem lists_processes (L : Lister) (es : List Event) (s : State)
    (hr : run (next L) boot es = some s) (hg : StepsMeet (next L) Grace boot es) : Lists L s :=
  (run_inv_where (fun h hC hs => inv_step h hC hs) inv_boot hg hr).lists

/-- Three processes; while the second is listed, it exits, and so does the third,
and a new one starts. -/
def busyListing : List Event :=
  [.fork, .fork, .fork, .begins, .advance, .print, .advance, .exit 2, .print, .exit 3, .fork,
    .advance, .print, .advance]

/-- The third is listed although it has exited before the loop comes to it; the
new one is not. -/
theorem lists_processes_busyListing :
    ∃ s, run (next helloInit) boot busyListing = some s ∧ s.listed = [1, 2, 3] ∧
      Lists helloInit s := by
  obtain ⟨s, hs, hp⟩ := exists_run_of_any (next helloInit) boot busyListing
    (fun s => decide (s.listed = [1, 2, 3])) (by decide)
  exact ⟨s, hs, of_decide_eq_true hp,
    lists_processes helloInit busyListing s hs (by decide)⟩

/-- The process that is listed exits, and its memory is freed. -/
theorem frees_under_reader :
    ∃ s, run (next processInit) boot
        [.fork, .begins, .advance, .print, .exit 1, .free 1, .print] = some s ∧ s.fault = true :=
  exists_run_of_any (next processInit) boot
    [.fork, .begins, .advance, .print, .exit 1, .free 1, .print] (fun s => s.fault) (by decide)

end Esystem.Process
