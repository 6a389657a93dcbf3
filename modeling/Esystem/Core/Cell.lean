import Mathlib.Data.List.GetD
import Mathlib.Data.List.Infix

/-!
# A shared variable and its history

A variable that is written and read, together with what was written and, for
each read, how many writes came before it. That reads never look back is part of
the type. Concrete variables are shown correct by exhibiting the `Cell` they
implement; whether one hands over every value is then a question about the order
of the calls (`handedOver_write`, `handedOver_read`).
-/

namespace Esystem

universe u

/-- A variable with its history, oldest write and read first. -/
structure Cell (α : Type u) where
  initial : α
  writes : List α
  seen : List Nat
  sorted : seen.Pairwise (· ≤ ·)
  bounded : ∀ n ∈ seen, n ≤ writes.length

namespace Cell

variable {α : Type u}

/-- The variable that nothing has happened to. -/
def new (x : α) : Cell α := ⟨x, [], [], .nil, fun _ h => by cases h⟩

/-- The content after the first `n` writes. -/
def after (c : Cell α) (n : Nat) : α := (c.initial :: c.writes).getD n c.initial

/-- The content now. -/
def content (c : Cell α) : α := c.after c.writes.length

/-- What the reads returned. -/
def reads (c : Cell α) : List α := c.seen.map c.after

/-- Write `x`. -/
def write (c : Cell α) (x : α) : Cell α where
  initial := c.initial
  writes := c.writes ++ [x]
  seen := c.seen
  sorted := c.sorted
  bounded n hn := by
    have := c.bounded n hn
    simp only [List.length_append, List.length_singleton]
    omega

/-- Read the content. -/
def read (c : Cell α) : Cell α where
  initial := c.initial
  writes := c.writes
  seen := c.seen ++ [c.writes.length]
  sorted := by
    rw [List.pairwise_append]
    refine ⟨c.sorted, List.pairwise_singleton _ _, fun n hn m hm => ?_⟩
    rw [List.mem_singleton.mp hm]
    exact c.bounded n hn
  bounded n hn := by
    rcases List.mem_append.mp hn with hn | hn
    · exact c.bounded n hn
    · exact Nat.le_of_eq (List.mem_singleton.mp hn)

@[simp] theorem write_writes (c : Cell α) (x : α) : (c.write x).writes = c.writes ++ [x] := rfl

@[simp] theorem read_writes (c : Cell α) : c.read.writes = c.writes := rfl

@[simp] theorem content_read (c : Cell α) : c.read.content = c.content := rfl

/-- The content is what was written last. -/
theorem content_eq (c : Cell α) : c.content = c.writes.getLastD c.initial := by
  rcases List.eq_nil_or_concat' c.writes with h | ⟨ws, x, h⟩
  · rw [content, after, h]
    rfl
  · rw [content, after, h, List.getLastD_concat]
    simp

theorem content_write (c : Cell α) (x : α) : (c.write x).content = x := by
  simp [content, after, write]

/-- A read returns the content. -/
theorem reads_read (c : Cell α) : c.read.reads = c.reads ++ [c.content] :=
  List.map_append

/-- A write changes nothing that has been read. -/
theorem reads_write (c : Cell α) (x : α) : (c.write x).reads = c.reads := by
  refine List.map_congr_left fun n hn => ?_
  have hlt : n < (c.initial :: c.writes).length := Nat.lt_succ_of_le (c.bounded n hn)
  show (c.initial :: (c.writes ++ [x])).getD n c.initial = (c.initial :: c.writes).getD n c.initial
  rw [← List.cons_append, List.getD_append _ _ _ _ hlt]

end Cell

/-! ## Handing over every value -/

variable {α : Type u}

/-- What was read is what was written, in order, and only the last value written
can still be unread. -/
def HandedOver (writes reads : List α) : Prop :=
  reads <+: writes ∧ writes.length ≤ reads.length + 1

instance [DecidableEq α] (writes reads : List α) : Decidable (HandedOver writes reads) :=
  inferInstanceAs (Decidable (_ ∧ _))

/-- A write keeps the hand-over exactly where everything has been read. -/
theorem handedOver_write {ws rs : List α} (h : HandedOver ws rs) (x : α) :
    HandedOver (ws ++ [x]) rs ↔ ws.length = rs.length := by
  have hle := h.1.length_le
  constructor
  · rintro ⟨-, hlen⟩
    simp only [List.length_append, List.length_singleton] at hlen
    omega
  · intro heq
    refine ⟨h.1.trans (List.prefix_append ws [x]), ?_⟩
    simp [heq]

/-- A read keeps the hand-over exactly where one value is unread. -/
theorem handedOver_read {c : Cell α} (h : HandedOver c.writes c.reads) :
    HandedOver c.read.writes c.read.reads ↔ c.writes.length = c.reads.length + 1 := by
  rw [Cell.reads_read, Cell.read_writes]
  constructor
  · rintro ⟨hpre, -⟩
    have hle := hpre.length_le
    have hge := h.2
    simp only [List.length_append, List.length_singleton] at hle
    omega
  · intro hlen
    obtain ⟨rest, hrest⟩ := h.1
    -- what is unread is the content
    have hone : rest.length = 1 := by
      have := congrArg List.length hrest
      rw [List.length_append] at this
      omega
    obtain ⟨x, rfl⟩ := List.length_eq_one_iff.mp hone
    have hcontent : c.content = x := by
      rw [Cell.content, Cell.after, ← hrest]
      simp
    rw [hcontent, hrest]
    refine ⟨List.prefix_rfl, ?_⟩
    rw [← hrest]
    simp

end Esystem
